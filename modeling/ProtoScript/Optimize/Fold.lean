import ProtoScript.Constant.Arith
import ProtoScript.Ir.Basic

set_option autoImplicit false

/-!
# Constant propagation

Within one block, an operation whose operands are known constants becomes the constant it yields,
and a safety check that its constant operands are sure to pass is dropped. Nothing is carried from one block to
another.
-/

namespace ProtoScript.Ir

/-- The constants known so far; the entry added last counts. -/
abbrev Known := List (Temp × Constant)

namespace Known

/-- The constant a temporary is known to hold. -/
def get? (known : Known) (t : Temp) : Option Constant := known.lookup t

end Known

/-- What propagation did: instructions replaced and checks dropped. -/
structure FoldStats where
  folded : Nat := 0
  checksRemoved : Nat := 0
  deriving DecidableEq, Repr

namespace FoldStats

def add (a b : FoldStats) : FoldStats := ⟨a.folded + b.folded, a.checksRemoved + b.checksRemoved⟩

instance : Add FoldStats := ⟨add⟩

end FoldStats

/-- The check is sure to pass, given the known constants. -/
def Check.passes (known : Known) : Check → Bool
  | overflow op l r ty =>
    match known.get? l, known.get? r with
    | some a, some b => ty.isInteger && (Constant.binary? op a b).isSome
    | _, _ => false
  | negOverflow t _ => ((known.get? t).bind (Constant.unary? .neg)).isSome
  | divZero t => ((known.get? t).bind Constant.toInt?).any (· != 0)
  | shiftRange t w => ((known.get? t).bind Constant.toInt?).any fun a => 0 ≤ a && a < (w : Int)
  | indexBounds .. | mapKey .. => false

/-- The temporary and the value of an operation that is known to yield a constant. -/
def Instr.constantResult? (known : Known) : Instr → Option (Temp × Constant)
  | copy d s => (known.get? s).map (d, ·)
  | binary d op l r => do
    let a ← known.get? l
    let b ← known.get? r
    return (d, ← Constant.binary? op a b)
  | unary d op t => ((known.get? t).bind (Constant.unary? op)).map (d, ·)
  | cast d s ty => ((known.get? s).bind (Constant.cast? · ty)).map (d, ·)
  | _ => none

/-- One step of propagation: what is known afterwards, the instruction that remains, and the count. -/
def Instr.fold (known : Known) (i : Instr) : Known × Option Instr × FoldStats :=
  match i with
  | const d v => ((d, v) :: known, some i, {})
  | select d c a b =>
    match (known.get? c).bind Constant.toBool? with
    | none => (known, some i, {})
    | some cond =>
      let chosen := if cond then a else b
      match known.get? chosen with
      | some v => ((d, v) :: known, some (const d v), ⟨1, 0⟩)
      | none => (known, some (copy d chosen), ⟨1, 0⟩)
  | check c => if c.passes known then (known, none, ⟨0, 1⟩) else (known, some i, {})
  | _ =>
    match i.constantResult? known with
    | some (d, v) => ((d, v) :: known, some (const d v), ⟨1, 0⟩)
    | none => (known, some i, {})

/-- Propagation through a list of instructions. -/
def foldInstrs (known : Known) : List Instr → List Instr × FoldStats
  | [] => ([], {})
  | i :: rest =>
    let (known, kept, stats) := i.fold known
    let (rest, more) := foldInstrs known rest
    (kept.toList ++ rest, stats + more)

/-- Propagation through a block, from nothing known. -/
def Block.fold (b : Block) : Block × FoldStats :=
  let (instrs, stats) := foldInstrs [] b.instrs
  ({ b with instrs }, stats)

/-- Propagation through every block of a function. -/
def Function.fold (f : Function) : Function × FoldStats :=
  let results := f.blocks.map Block.fold
  ({ f with blocks := results.map Prod.fst }, (results.map Prod.snd).foldl (· + ·) {})

end ProtoScript.Ir
