import ProtoScript.Ir.Basic

set_option autoImplicit false

/-!
# Redundant checks

A check that has already been passed earlier in the block is dropped. A check on numbers holds to the end
of the block, since temporaries do not change. A check on what a container holds is forgotten
at every instruction that could change a container.
-/

namespace ProtoScript.Ir

/-- Drops the checks that are among those already passed; also counts them. -/
def dropRepeatedChecks (seen : List Check) : List Instr → List Instr × Nat
  | [] => ([], 0)
  | i :: rest =>
    match i with
    | .check c =>
      if seen.contains c then
        let (rest, n) := dropRepeatedChecks seen rest
        (rest, n + 1)
      else
        let (rest, n) := dropRepeatedChecks (seen ++ [c]) rest
        (i :: rest, n)
    | _ =>
      let seen := if i.hasSideEffects then seen.filter fun c => !c.dependsOnContainer else seen
      let (rest, n) := dropRepeatedChecks seen rest
      (i :: rest, n)

/-- Drops the repeated checks of a block. -/
def Block.dropChecks (b : Block) : Block × Nat :=
  let (instrs, n) := dropRepeatedChecks [] b.instrs
  ({ b with instrs }, n)

/-- Drops the repeated checks of every block. -/
def Function.dropChecks (f : Function) : Function × Nat :=
  let results := f.blocks.map Block.dropChecks
  ({ f with blocks := results.map Prod.fst }, total (results.map Prod.snd))

end ProtoScript.Ir
