import ProtoScript.Ir.Instr
import ProtoScript.Number.Basic

set_option autoImplicit false

/-!
# Blocks, functions and modules

A block is a list of instructions behind a label, ended by a terminator. A function starts at
its first block. A module holds the functions of a program and the layout of its prototypes.
-/

namespace ProtoScript.Ir

/-- How a block ends. -/
inductive Terminator where
  | ret (value : Temp)
  | retVoid
  | jump (target : String)
  | branch (cond : Temp) (thenTarget elseTarget : String)
  /-- Goes to `body` while the loop has items, then to `done`. -/
  | branchIter (iter : Temp) (body done : String)
  /-- The end of the block is never reached. -/
  | unreachable
  deriving DecidableEq, Repr, Inhabited

namespace Terminator

/-- The word for a terminator. -/
def opcode : Terminator → String
  | ret _ => "ret"
  | retVoid => "ret_void"
  | jump _ => "jump"
  | branch .. => "branch_if"
  | branchIter .. => "branch_iter_has_next"
  | unreachable => "unreachable"

/-- The labels control may go to. -/
def successors : Terminator → List String
  | jump t => [t]
  | branch _ t e => [t, e]
  | branchIter _ b d => [b, d]
  | ret _ | retVoid | unreachable => []

/-- The temporaries a terminator reads. -/
def operands : Terminator → List Temp
  | ret t => [t]
  | branch t _ _ => [t]
  | branchIter t _ _ => [t]
  | retVoid | jump _ | unreachable => []

/-- The terminator with every temporary it reads replaced. -/
def mapOperands (f : Temp → Temp) : Terminator → Terminator
  | ret t => ret (f t)
  | branch t a b => branch (f t) a b
  | branchIter t a b => branchIter (f t) a b
  | t => t

/-- The terminator leaves the function. -/
def isReturn : Terminator → Bool
  | ret _ | retVoid => true
  | _ => false

end Terminator

/-- A basic block. -/
structure Block where
  label : String
  instrs : List Instr
  terminator : Terminator
  deriving BEq, Repr

namespace Block

/-- The labels control may go to from the end of the block. -/
def successors (b : Block) : List String := b.terminator.successors

/-- The handlers the block installs, in order. -/
def handlers (b : Block) : List String := b.instrs.filterMap Instr.handler?

/-- Every temporary that occurs in the block. -/
def temps (b : Block) : List Temp :=
  b.instrs.flatMap (fun i => i.dest?.toList ++ i.operands) ++ b.terminator.operands

end Block

/-- The name of the function of a method. -/
def methodName (proto method : String) : String := proto ++ "::" ++ method

/-- A parameter of a function. -/
structure Param where
  name : String
  ty : Ty
  deriving DecidableEq, Repr

/-- A function; a method is named after its prototype and itself, as in `Point::norm`. -/
structure Function where
  name : String
  params : List Param
  ret : Ty
  blocks : List Block
  deriving BEq, Repr

namespace Function

/-- The first block with the label. -/
def block? (f : Function) (label : String) : Option Block :=
  f.blocks.find? fun b => b.label == label

/-- The block where the function starts. -/
def entry? (f : Function) : Option Block := f.blocks.head?

def isParam (f : Function) (name : String) : Bool :=
  f.params.any fun p => p.name == name

/-- The instructions of all blocks, in order. -/
def instrs (f : Function) : List Instr := f.blocks.flatMap Block.instrs

/-- Every temporary that occurs in the function. -/
def temps (f : Function) : List Temp := f.blocks.flatMap Block.temps

/-- One past the highest temporary of the function. There is none if the function uses the last number. -/
def nextTemp? (f : Function) : Option Temp :=
  match f.temps.max? with
  | none => some 0
  | some t => t.next?

end Function

/-- A field of a prototype's layout. -/
structure Field where
  name : String
  ty : Ty
  deriving DecidableEq, Repr

/-- The layout of a prototype: all fields, the inherited ones first. -/
structure Layout where
  name : String
  /-- The number by which instances name their prototype. -/
  id : Nat
  parent : Option String
  fields : List Field
  deriving DecidableEq, Repr

namespace Layout

/-- The first field of the given name, with its position. -/
def field? (l : Layout) (name : String) : Option (Nat × Field) :=
  (l.fields.zipIdx.find? fun p => p.1.name == name).map fun p => (p.2, p.1)

end Layout

/-- A module. -/
structure Module where
  name : String
  functions : List Function
  layouts : List Layout
  deriving BEq, Repr

namespace Module

/-- The first function of the given name. -/
def function? (m : Module) (name : String) : Option Function :=
  m.functions.find? fun f => f.name == name

/-- The first layout of the given name. -/
def layout? (m : Module) (name : String) : Option Layout :=
  m.layouts.find? fun l => l.name == name

/-- The number of instructions in all functions. -/
def size (m : Module) : Nat := total (m.functions.map fun f => f.instrs.length)

end Module

end ProtoScript.Ir
