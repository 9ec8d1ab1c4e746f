import ProtoScript.Ir.Basic

set_option autoImplicit false

/-!
# Inlining leaves

A leaf is a function of one block that only computes: it reads its parameters, applies operators and checks,
and returns. A call of a leaf with the right number of arguments is replaced by the leaf's
instructions over fresh temporaries. This goes on in rounds, since a function that has lost its
last call may be a leaf itself.
-/

namespace ProtoScript.Ir

/-- What inlining needs of a leaf. -/
structure Leaf where
  params : List String
  instrs : List Instr
  result : Option Temp
  deriving Repr

/-- The instruction may stand in a leaf with the given parameters. -/
def Instr.isLeafInstr (params : List String) : Instr → Bool
  | loadVar _ name => params.contains name
  | const .. | copy .. | binary .. | unary .. | cast .. | select .. | check _ => true
  | _ => false

/-- The function as a leaf, if it is one. -/
def Function.leaf? (f : Function) : Option Leaf :=
  match f.blocks with
  | [block] =>
    let params := f.params.map Param.name
    if block.instrs.all (Instr.isLeafInstr params) then
      match block.terminator with
      | .ret t => some ⟨params, block.instrs, some t⟩
      | .retVoid => some ⟨params, block.instrs, none⟩
      | _ => none
    else none
  | _ => none

/-- The leaves of a module by name; of two with one name the later stands first. -/
def Module.leaves (m : Module) : List (String × Leaf) :=
  (m.functions.filterMap fun f => f.leaf?.map (f.name, ·)).reverse

/-- What the temporaries of a leaf are called in the caller; the entry added last counts. -/
abbrev Renaming := List (Temp × Temp)

namespace Renaming

/-- The new name of a temporary; one without a new name keeps its own. -/
def apply (r : Renaming) (t : Temp) : Temp := (r.lookup t).getD t

end Renaming

/-- The temporary a parameter is loaded into, and the argument the parameter is bound to. -/
def Instr.loadedParam? (bound : List (String × Temp)) : Instr → Option (Temp × Temp)
  | loadVar d name => (bound.lookup name).map (d, ·)
  | _ => none

/-- Replays the instructions of a leaf whose parameters are bound to temporaries of the caller. `next`
is the next fresh temporary. Returns the instructions, the final renaming and the next temporary, or
nothing if the numbers run out. -/
def replay? (bound : List (String × Temp)) :
    List Instr → Renaming → Temp → Option (List Instr × Renaming × Temp)
  | [], names, next => some ([], names, next)
  | i :: rest, names, next =>
    match i.loadedParam? bound with
    -- A parameter is not loaded: its temporary is the argument's.
    | some (d, arg) => replay? bound rest ((d, arg) :: names) next
    | none =>
      let renamed := i.mapOperands names.apply
      match i.dest? with
      | none => do
        let (out, names, last) ← replay? bound rest names next
        return (renamed :: out, names, last)
      | some d => do
        let (out, names, last) ← replay? bound rest ((d, next) :: names) (← next.next?)
        return (renamed.mapDest (fun _ => next) :: out, names, last)

/-- A call of a leaf with the right number of arguments. -/
structure LeafCall where
  leaf : Leaf
  dest : Option Temp
  args : List Temp

/-- The instruction as a call of a leaf, if it is one. -/
def Instr.leafCall? (leaves : List (String × Leaf)) : Instr → Option LeafCall
  | callStatic dest name args =>
    (leaves.lookup name).bind fun leaf =>
      if leaf.params.length = args.length then some ⟨leaf, dest, args⟩ else none
  | _ => none

namespace LeafCall

/-- What the parameters of the leaf are bound to. -/
def bound (c : LeafCall) : List (String × Temp) := c.leaf.params.zip c.args

/-- The copy of the result to where the call wants it, if there is a result and the call wants it. -/
def returned (c : LeafCall) (names : Renaming) : List Instr :=
  match c.leaf.result, c.dest with
  | some t, some d => [.copy d (names.apply t)]
  | _, _ => []

/-- The instructions that take the place of the call, and the next temporary. -/
def expand? (c : LeafCall) (next : Temp) : Option (List Instr × Temp) := do
  let (out, names, next) ← replay? c.bound c.leaf.instrs [] next
  return (out ++ c.returned names, next)

end LeafCall

/-- Inlines the calls among some instructions; returns also the next temporary and the number of
calls. -/
def inlineInstrs? (leaves : List (String × Leaf)) :
    List Instr → Temp → Option (List Instr × Temp × Nat)
  | [], next => some ([], next, 0)
  | i :: rest, next =>
    match i.leafCall? leaves with
    | some call => do
      let (body, next) ← call.expand? next
      let (out, next, n) ← inlineInstrs? leaves rest next
      return (body ++ out, next, n + 1)
    | none => do
      let (out, next, n) ← inlineInstrs? leaves rest next
      return (i :: out, next, n)

/-- Inlines the calls of some blocks. -/
def inlineBlocks? (leaves : List (String × Leaf)) :
    List Block → Temp → Option (List Block × Nat)
  | [], _ => some ([], 0)
  | b :: rest, next => do
    let (instrs, next, n) ← inlineInstrs? leaves b.instrs next
    let (rest, m) ← inlineBlocks? leaves rest next
    return ({ b with instrs } :: rest, n + m)

/-- Inlines the calls of a function. -/
def Function.inlineCalls? (leaves : List (String × Leaf)) (f : Function) : Option (Function × Nat) := do
  let (blocks, n) ← inlineBlocks? leaves f.blocks (← f.nextTemp?)
  return ({ f with blocks }, n)

namespace Module

/-- One round: inlines all calls of the leaves there are now. -/
def inlineRound? (m : Module) : Option (Module × Nat) := do
  let results ← m.functions.mapM (Function.inlineCalls? m.leaves)
  return ({ m with functions := results.map Prod.fst }, total (results.map Prod.snd))

/-- Rounds until there are no leaves or one changes nothing, at most `fuel`. -/
def inlineRounds? : Nat → Module → Option (Module × Nat)
  | 0, m => some (m, 0)
  | fuel + 1, m =>
    if m.leaves.isEmpty then some (m, 0)
    else do
      match ← m.inlineRound? with
      | (m', 0) => return (m', 0)
      | (m', n) =>
        let (result, more) ← inlineRounds? fuel m'
        return (result, n + more)

end Module

def Instr.isStaticCall : Instr → Bool
  | callStatic .. => true
  | _ => false

namespace Module

/-- The number of calls of functions of the module. -/
def staticCalls (m : Module) : Nat :=
  total (m.functions.map fun f => f.instrs.countP Instr.isStaticCall)

/-- Inlines leaves as long as there are calls of them; returns also the number of calls replaced. Every
round but the last removes a call, so their number bounds the rounds. Where the numbers of temporaries run out
there is no result: the compiler breaks off. -/
def inline? (m : Module) : Option (Module × Nat) := inlineRounds? (m.staticCalls + 1) m

end Module

end ProtoScript.Ir
