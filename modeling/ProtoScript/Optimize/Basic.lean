import ProtoScript.Optimize.Checks
import ProtoScript.Optimize.Fold
import ProtoScript.Optimize.Inline

set_option autoImplicit false

/-!
# Optimizing modules

Leaf inlining, constant propagation and the removal of redundant checks, in this order. The level says
which of them run.
-/

namespace ProtoScript

/-- How much to optimize. -/
inductive OptLevel where
  | none
  /-- Constant propagation and removal of checks. -/
  | basic
  /-- Also inlining. -/
  | full
  deriving DecidableEq, Repr, Inhabited

namespace OptLevel

/-- The word for a level. -/
def word : OptLevel → String
  | none => "none"
  | basic => "basic"
  | full => "full"

/-- The level with the given word. -/
def ofWord? (text : String) : Option OptLevel :=
  [none, basic, full].find? fun l => l.word == text

end OptLevel

namespace Ir

/-- What the passes changed. -/
structure OptStats where
  callsInlined : Nat := 0
  constantsFolded : Nat := 0
  /-- Checks dropped because they are sure to pass. -/
  checksProven : Nat := 0
  /-- Checks dropped because they were passed before. -/
  redundantChecks : Nat := 0
  deriving DecidableEq, Repr

/-- Nothing was changed. -/
def OptStats.isUnchanged (s : OptStats) : Bool := s == {}

namespace Module

/-- Constant propagation in every function, with the count for each. -/
def fold (m : Module) : Module × List FoldStats :=
  let results := m.functions.map Function.fold
  ({ m with functions := results.map Prod.fst }, results.map Prod.snd)

/-- Removal of redundant checks in every function, with the count for each. -/
def dropChecks (m : Module) : Module × List Nat :=
  let results := m.functions.map Function.dropChecks
  ({ m with functions := results.map Prod.fst }, results.map Prod.snd)

/-- Constant propagation and removal of checks, behind the inlining of so many calls. -/
def rewrite (callsInlined : Nat) (m : Module) : Module × OptStats :=
  let (m, folds) := m.fold
  let (m, drops) := m.dropChecks
  (m, { callsInlined
        constantsFolded := total (folds.map FoldStats.folded)
        checksProven := total (folds.map FoldStats.checksRemoved)
        redundantChecks := total drops })

/-- Optimizes a module. Inlining has no result where the numbers of temporaries run out. -/
def optimize? (level : OptLevel) (m : Module) : Option (Module × OptStats) :=
  match level with
  | .none => some (m, {})
  | .basic => some (m.rewrite 0)
  | .full => m.inline?.map fun (m, n) => m.rewrite n

end Module

end Ir

end ProtoScript
