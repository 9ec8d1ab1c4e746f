import ProtoScript.Ir.Printer

set_option autoImplicit false

/-!
# Well-formed modules

A function is well formed if it has a block, its labels are distinct, every jump and every
exception handler names one of its blocks, and every temporary is defined at most once. In a
well-formed module the functions are well formed and have distinct names.
-/

namespace ProtoScript.Ir

/-- What is wrong with a function. -/
inductive Defect where
  | noBlocks
  | duplicateLabel (label : String)
  | missingTarget (block target : String)
  | missingHandler (block handler : String)
  | redefined (temp : Temp) (first second : String)
  deriving DecidableEq, Repr

/-- The text for a defect of the named function. -/
def Defect.message (function : String) : Defect → String
  | noBlocks => "Function '" ++ function ++ "' has no blocks"
  | duplicateLabel l => "Function '" ++ function ++ "' has duplicate block label '" ++ l ++ "'"
  | missingTarget b t =>
    "Block '" ++ b ++ "' of '" ++ function ++ "' references non-existent block '" ++ t ++ "'"
  | missingHandler b h =>
    "Block '" ++ b ++ "' of '" ++ function ++ "' installs non-existent handler '" ++ h ++ "'"
  | redefined t a b =>
    "Temp " ++ tempName t ++ " of '" ++ function ++ "' is defined in both '" ++ a ++ "' and '" ++
      b ++ "'"

/-- The first text that stands earlier in the list too. -/
def firstRepeated? (seen : List String) : List String → Option String
  | [] => none
  | x :: xs => if seen.contains x then some x else firstRepeated? (x :: seen) xs

/-- The temporaries defined so far, each with the label of its block. -/
abbrev Definitions := List (Temp × String)

/-- Goes through the instructions of the block `label`; `labels` are those of the function. -/
def scanInstrs (labels : List String) (label : String) :
    List Instr → Definitions → Except Defect Definitions
  | [], defined => .ok defined
  | i :: rest, defined =>
    match i.handler? with
    | some h =>
      if labels.contains h then scanInstrs labels label rest defined
      else .error (.missingHandler label h)
    | none =>
      match i.dest? with
      | none => scanInstrs labels label rest defined
      | some t =>
        match defined.lookup t with
        | some first => .error (.redefined t first label)
        | none => scanInstrs labels label rest ((t, label) :: defined)

/-- Goes through the blocks in order. -/
def scanBlocks (labels : List String) : List Block → Definitions → Except Defect Unit
  | [], _ => .ok ()
  | b :: rest, defined =>
    match b.successors.find? fun s => !labels.contains s with
    | some target => .error (.missingTarget b.label target)
    | none =>
      match scanInstrs labels b.label b.instrs defined with
      | .error d => .error d
      | .ok defined => scanBlocks labels rest defined

/-- Checks that a function is well formed. -/
def Function.validate (f : Function) : Except Defect Unit :=
  let labels := f.blocks.map Block.label
  if f.blocks.isEmpty then .error .noBlocks
  else
    match firstRepeated? [] labels with
    | some l => .error (.duplicateLabel l)
    | none => scanBlocks labels f.blocks []

/-- What is wrong with a module. -/
inductive ModuleDefect where
  | function (name : String) (index : Nat) (defect : Defect)
  | definedTwice (name : String)
  deriving DecidableEq, Repr

def ModuleDefect.message : ModuleDefect → String
  | function name i d => "Function '" ++ name ++ "' (" ++ toString i ++ "): " ++ d.message name
  | definedTwice name => "Function '" ++ name ++ "' is defined twice"

/-- The defects of the functions from position `i` on; `earlier` are the names before. -/
def functionDefects (i : Nat) (earlier : List String) : List Function → List ModuleDefect
  | [] => []
  | f :: rest =>
    let own :=
      match f.validate with
      | .ok _ => []
      | .error d => [ModuleDefect.function f.name i d]
    let twice := if earlier.contains f.name then [ModuleDefect.definedTwice f.name] else []
    own ++ twice ++ functionDefects (i + 1) (f.name :: earlier) rest

/-- Everything that is wrong with a module. -/
def Module.defects (m : Module) : List ModuleDefect := functionDefects 0 [] m.functions

/-- The module is well formed. -/
def Module.isValid (m : Module) : Bool := m.defects.isEmpty

/-- The defects of a module as one text. -/
def defectsText (defects : List ModuleDefect) : String :=
  "; ".intercalate (defects.map ModuleDefect.message)

end ProtoScript.Ir
