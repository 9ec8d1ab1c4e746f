import ProtoScript.Builtin.Basic
import ProtoScript.Constant.Basic
import ProtoScript.Source.Operator
import ProtoScript.Source.Span
import ProtoScript.Ty.Basic

set_option autoImplicit false

/-!
# Expressions

Every node of an expression carries a note: where it stands and, once it has been checked, its
type and what it resolves to. A tree fresh from its source has notes with the place only.
-/

namespace ProtoScript

/-!
## What names and calls resolve to

The checker leaves on each call what it calls, and on each name or member that is not a local
variable what it stands for. Lowering reads these and looks nothing up again.
-/

/-- What a call calls. -/
inductive CallTarget where
  /-- A function of the program. -/
  | function (name : String)
  /-- The built-in `print`. -/
  | print
  /-- A method of an instance; `proto` is the receiver's static type, and `isVirtual` says that a prototype
  below it overrides the method. -/
  | method (proto method : String) (isVirtual : Bool)
  /-- `clone` on a prototype's name: a new, initialized instance. -/
  | newInstance (proto : String)
  /-- `clone` on an instance, overridden nowhere below `proto`. -/
  | copyInstance (proto : String)
  /-- A method of a container or string. -/
  | container (method : ContainerMethod)
  /-- A function of a module, or a method of a built-in handle. -/
  | foreign (module function : String) (ret : Ty)
  deriving DecidableEq, Repr

/-- What an identifier or member expression stands for. -/
inductive ValueTarget where
  | field (proto field : String)
  /-- A group member or a constant of a module. -/
  | constant (value : Constant)
  /-- A prototype's name as a value: a new instance. -/
  | prototype (name : String)
  deriving Repr

/-- What a resolved name denotes. -/
inductive Denotation where
  /-- A value of a type; a prototype's name denotes an instance. -/
  | value (ty : Ty)
  /-- A group, of which only the members are values. -/
  | group (name : String)
  | module (name : String)
  deriving DecidableEq, Repr

namespace Denotation

/-- The type of what is denoted, if it is a value. -/
def type? : Denotation → Option Ty
  | value ty => some ty
  | group _ | module _ => none

/-- A denotation in messages. -/
def render : Denotation → String
  | value ty => ty.render
  | group name => "group " ++ name
  | module name => "module " ++ name

end Denotation

/-! ## Trees -/

/-- What is known about a node. -/
structure Note where
  span : Span := Span.origin
  type? : Option Ty := none
  call? : Option CallTarget := none
  value? : Option ValueTarget := none
  deriving Repr, Inhabited

/-- The values that can be written down. -/
inductive Literal where
  | bool (value : Bool)
  | int (value : Int64)
  | float (value : Float)
  | glyph (value : Char)
  | str (value : String)
  deriving Repr, Inhabited

/-- The constant a literal denotes; a whole number is an `int`. -/
def Literal.toConstant : Literal → Constant
  | bool b => .bool b
  | int v => .int v
  | float v => .float v
  | glyph c => .glyph c
  | str s => .str s

/-- The type of a literal on its own. -/
def Literal.ty (l : Literal) : Ty := l.toConstant.ty

/-- An expression. -/
inductive Expr where
  | literal (note : Note) (value : Literal)
  /-- A name: of a variable, prototype, group, module or imported constant. -/
  | ident (note : Note) (name : String)
  /-- The receiver, inside a method. -/
  | self (note : Note)
  | unary (note : Note) (op : UnaryOp) (operand : Expr)
  | binary (note : Note) (op : BinaryOp) (left right : Expr)
  | ternary (note : Note) (condition thenValue elseValue : Expr)
  | call (note : Note) (callee : String) (args : List Expr)
  | methodCall (note : Note) (receiver : Expr) (method : String) (args : List Expr)
  | member (note : Note) (object : Expr) (name : String)
  | index (note : Note) (object position : Expr)
  | cast (note : Note) (value : Expr) (target : Ty)
  | list (note : Note) (items : List Expr)
  | map (note : Note) (entries : List (Expr × Expr))
  deriving Inhabited

namespace Expr

/-- The note of a node. -/
def note : Expr → Note
  | literal n _ | ident n _ | self n | unary n _ _ | binary n _ _ _ | ternary n _ _ _
  | call n _ _ | methodCall n _ _ _ | member n _ _ | index n _ _ | cast n _ _ | list n _
  | map n _ => n

/-- The node with another note. -/
def withNote (n : Note) : Expr → Expr
  | literal _ v => literal n v
  | ident _ name => ident n name
  | self _ => self n
  | unary _ op e => unary n op e
  | binary _ op l r => binary n op l r
  | ternary _ c a b => ternary n c a b
  | call _ f args => call n f args
  | methodCall _ e m args => methodCall n e m args
  | member _ e name => member n e name
  | index _ e i => index n e i
  | cast _ e t => cast n e t
  | list _ items => list n items
  | map _ entries => map n entries

/-- The node without a type. -/
def untyped (e : Expr) : Expr := e.withNote { e.note with type? := none }

/-- Where the expression stands. -/
def span (e : Expr) : Span := e.note.span

/-- The type the checker gave the expression. -/
def type? (e : Expr) : Option Ty := e.note.type?

/-- The name, if the expression is one. -/
def ident? : Expr → Option String
  | ident _ name => some name
  | _ => none

@[simp] theorem note_withNote (n : Note) (e : Expr) : (e.withNote n).note = n := by
  cases e <;> rfl

end Expr

end ProtoScript
