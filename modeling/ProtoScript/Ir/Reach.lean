import ProtoScript.Ir.Basic

set_option autoImplicit false

/-!
# Reachable labels

The labels control can get to from the start of a function: along terminators, and from an
instruction that installs an exception handler to that handler.
-/

namespace ProtoScript.Ir

/-- The labels control may go to from somewhere in a block. -/
def Block.targets (b : Block) : List String := b.successors ++ b.handlers

namespace Function

/-- The labels control may go to from the block with the given label. -/
def targets (f : Function) (label : String) : List String :=
  ((f.block? label).map Block.targets).getD []

/-- Visits the labels of the worklist and whatever they lead to; every label is expanded once. -/
def visit (f : Function) : Nat → List String → List String → List String
  | 0, seen, _ => seen
  | _ + 1, seen, [] => seen
  | fuel + 1, seen, label :: work =>
    if seen.contains label then f.visit fuel seen work
    else f.visit fuel (label :: seen) (f.targets label ++ work)

/-- The number of labels that can ever be put on the worklist. -/
def workBound (f : Function) : Nat :=
  1 + total (f.blocks.map fun b => b.targets.length)

/-- The labels reachable from the first block. -/
def reachable (f : Function) : List String :=
  f.visit (f.workBound + 1) [] (f.entry?.map Block.label).toList

end Function

end ProtoScript.Ir
