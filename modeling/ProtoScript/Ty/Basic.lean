set_option autoImplicit false

/-!
# Types

A ProtoScript type is a primitive, a prototype by name, or one of four containers over element
types. The constructors fix the number of element types, so that a container with the wrong
number of arguments cannot be written down.
-/

namespace ProtoScript

/-! ## Primitives and container kinds -/

/-- The primitive types; `void` is the type of no value. -/
inductive Primitive where
  | bool
  | byte
  | int
  | float
  | glyph
  | string
  | void
  deriving DecidableEq, Repr, Inhabited

namespace Primitive

/-- The spelling of a primitive type. -/
def name : Primitive → String
  | bool => "bool"
  | byte => "byte"
  | int => "int"
  | float => "float"
  | glyph => "glyph"
  | string => "string"
  | void => "void"

/-- Every primitive type once. -/
def all : List Primitive := [bool, byte, int, float, glyph, string, void]

/-- The primitive type with the given spelling. -/
def ofName? (text : String) : Option Primitive :=
  all.find? fun p => p.name == text

/-- `byte`, `int` or `float`. -/
def isNumeric : Primitive → Bool
  | byte | int | float => true
  | _ => false

/-- `byte` or `int`. -/
def isInteger : Primitive → Bool
  | byte | int => true
  | _ => false

end Primitive

/-- The kinds of container: an owned growable `list`, a `map`, a read-only window (`view`) and a
writable window (`slice`). -/
inductive Container where
  | list
  | map
  | view
  | slice
  deriving DecidableEq, Repr, Inhabited

namespace Container

/-- The spelling of a container kind. -/
def name : Container → String
  | list => "list"
  | map => "map"
  | view => "view"
  | slice => "slice"

/-- Every container kind once. -/
def all : List Container := [list, map, view, slice]

/-- The container kind with the given spelling. -/
def ofName? (text : String) : Option Container :=
  all.find? fun k => k.name == text

/-- The number of element types a container of this kind takes. -/
def arity : Container → Nat
  | map => 2
  | _ => 1

end Container

/-! ## Types -/

/-- A ProtoScript type. -/
inductive Ty where
  /-- A primitive type. -/
  | prim (p : Primitive)
  /-- The instances of a prototype and of those derived from it. -/
  | named (name : String)
  | list (elem : Ty)
  | map (key value : Ty)
  | view (elem : Ty)
  | slice (elem : Ty)
  deriving DecidableEq, Repr, Inhabited

namespace Ty

def bool : Ty := prim .bool
def byte : Ty := prim .byte
def int : Ty := prim .int
def float : Ty := prim .float
def glyph : Ty := prim .glyph
def string : Ty := prim .string
def void : Ty := prim .void

/-- The container of kind `kind` over `args`, if their number is right. -/
def ofContainer? : Container → List Ty → Option Ty
  | .list, [t] => some (list t)
  | .map, [k, v] => some (map k v)
  | .view, [t] => some (view t)
  | .slice, [t] => some (slice t)
  | _, _ => none

/-- The primitive, if the type is one. -/
def primitive? : Ty → Option Primitive
  | prim p => some p
  | _ => none

/-- The prototype's name, if the type names one. -/
def named? : Ty → Option String
  | named n => some n
  | _ => none

/-- The container kind, if the type is a container. -/
def container? : Ty → Option Container
  | list _ => some .list
  | map _ _ => some .map
  | view _ => some .view
  | slice _ => some .slice
  | _ => none

/-- The element types of a container, in written order. -/
def args : Ty → List Ty
  | list t | view t | slice t => [t]
  | map k v => [k, v]
  | prim _ | named _ => []

def isVoid (t : Ty) : Bool := t == void
def isBool (t : Ty) : Bool := t == bool
def isString (t : Ty) : Bool := t == string
def isNumeric (t : Ty) : Bool := t.primitive?.any Primitive.isNumeric
def isInteger (t : Ty) : Bool := t.primitive?.any Primitive.isInteger

/-- A primitive other than `void`. -/
def isScalar : Ty → Bool
  | prim .void => false
  | prim _ => true
  | _ => false

/-- Values of the type are shared by reference: prototype instances, lists and maps. -/
def isReference : Ty → Bool
  | named _ | list _ | map _ _ => true
  | _ => false

/-- What one item of the type is: the element of a list or window, the value of a map, the glyph
of a string. -/
def element? : Ty → Option Ty
  | prim .string => some glyph
  | list t | view t | slice t => some t
  | map _ v => some v
  | _ => none

/-- What the type is indexed by: the key of a map, `int` for every other indexable type. -/
def key? : Ty → Option Ty
  | map k _ => some k
  | prim .string | list _ | view _ | slice _ => some int
  | _ => none

/-- `void` occurs somewhere in the type; empty literals have such types until they are used. -/
def containsVoid : Ty → Bool
  | prim p => p == .void
  | named _ => false
  | list t | view t | slice t => t.containsVoid
  | map k v => k.containsVoid || v.containsVoid

theorem ofContainer?_args {t : Ty} {k : Container} (h : t.container? = some k) :
    ofContainer? k t.args = some t := by
  cases t <;> simp_all [container?, args] <;> subst h <;> rfl

theorem args_length {t : Ty} {k : Container} (h : t.container? = some k) :
    t.args.length = k.arity := by
  cases t <;> simp_all [container?, args] <;> subst h <;> rfl

end Ty

end ProtoScript

namespace ProtoScript.Ty

/-!
## Written types

The canonical text of a type: spellings and names as they are, element types in angle brackets
with a comma and no blank between them.
-/

/-- The canonical text of a type. -/
def render : Ty → String
  | prim p => p.name
  | named n => n
  | list t => "list<" ++ t.render ++ ">"
  | map k v => "map<" ++ k.render ++ "," ++ v.render ++ ">"
  | view t => "view<" ++ t.render ++ ">"
  | slice t => "slice<" ++ t.render ++ ">"

instance : ToString Ty := ⟨render⟩

end ProtoScript.Ty
