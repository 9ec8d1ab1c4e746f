import ProtoScript.Constant.Arith

set_option autoImplicit false

/-!
# Libraries

The modules a program can import: for each its functions, which run outside the program, and its
constants. A constant is given as a plain value and a type; it counts only if the value can be one
of that type.
-/

namespace ProtoScript

/-- A function of a module. -/
structure LibraryFunction where
  name : String
  params : List Ty
  ret : Ty
  deriving DecidableEq, Repr

/-- A value as a library gives it; a text stands for a glyph too. -/
inductive LibraryValue where
  | bool (value : Bool)
  | int (value : Int64)
  | float (value : Float)
  | text (value : String)
  deriving BEq, Repr

/-- A constant of a module. -/
structure LibraryConstant where
  name : String
  ty : Ty
  value : LibraryValue
  deriving BEq, Repr

namespace LibraryConstant

/-- The constant as a value of its type. -/
def toConstant? (c : LibraryConstant) : Option Constant :=
  match c.value, c.ty with
  | .bool b, .prim .bool => some (.bool b)
  | .int v, .prim .int => some (.int v)
  | .int v, .prim .byte => (Constant.fitByte? v.toInt).map .byte
  | .int v, .prim .float => some (.float v.toFloat)
  | .float v, .prim .float => some (.float v)
  | .text s, .prim .string => some (.str s)
  | .text s, .prim .glyph =>
    match s.toList with
    | [c] => some (.glyph c)
    | _ => none
  | _, _ => none

end LibraryConstant

/-- A module. -/
structure LibraryModule where
  name : String
  functions : List LibraryFunction := []
  constants : List LibraryConstant := []
  deriving BEq, Repr

namespace LibraryModule

/-- The module with one more function. -/
def addFunction (m : LibraryModule) (f : LibraryFunction) : LibraryModule :=
  { m with functions := m.functions ++ [f] }

/-- The module with one more constant. -/
def addConstant (m : LibraryModule) (c : LibraryConstant) : LibraryModule :=
  { m with constants := m.constants ++ [c] }

/-- The names of the members, functions first. -/
def memberNames (m : LibraryModule) : List String :=
  m.functions.map (·.name) ++ m.constants.map (·.name)

end LibraryModule

/-- The modules that can be imported. Of two modules, functions or constants of one name the first counts. -/
structure Library where
  modules : List LibraryModule := []
  deriving BEq, Repr, Inhabited

namespace Library

/-- The library with one more module. -/
def add (l : Library) (m : LibraryModule) : Library := ⟨l.modules ++ [m]⟩

def module? (l : Library) (name : String) : Option LibraryModule :=
  l.modules.find? fun m => m.name == name

/-- There is a module of the given name. -/
def contains (l : Library) (name : String) : Bool := (l.module? name).isSome

def function? (l : Library) (module name : String) : Option LibraryFunction :=
  (l.module? module).bind fun m => m.functions.find? fun f => f.name == name

def constant? (l : Library) (module name : String) : Option LibraryConstant :=
  (l.module? module).bind fun m => m.constants.find? fun c => c.name == name

/-- The names of all modules. -/
def names (l : Library) : List String := l.modules.map (·.name)

/-- The names of a module's members. -/
def memberNames (l : Library) (module : String) : List String :=
  ((l.module? module).map (·.memberNames)).getD []

end Library

end ProtoScript
