import ProtoScript.Builtin.Basic
import ProtoScript.Source.Program

set_option autoImplicit false

/-!
# The hierarchy of prototypes

All prototypes a program can name, the built-in ones first, each with its parent and its own
members. A prototype has the members of its ancestors too: a look-up walks from a prototype towards
the root and takes the first match.

The walk stops at a prototype it has met before, so it ends even while parents still form a cycle.
-/

namespace ProtoScript

/-- A field as its prototype declares it. -/
structure FieldInfo where
  name : String
  ty : Ty
  isConst : Bool
  hasInit : Bool
  visibility : Visibility
  /-- The prototype that declares the field. -/
  owner : String
  deriving DecidableEq, Repr

/-- A method as its prototype declares it, without the receiver. -/
structure MethodInfo where
  name : String
  params : List Ty
  ret : Ty
  visibility : Visibility
  /-- The prototype that declares the method. -/
  owner : String
  deriving DecidableEq, Repr

/-- A prototype with its own members, in the order of declaration. -/
structure Prototype where
  name : String
  parent : Option String
  isSealed : Bool
  isBuiltin : Bool
  fields : List FieldInfo
  methods : List MethodInfo
  span : Span
  deriving DecidableEq, Repr

namespace Prototype

/-- The prototype's own field of the given name. -/
def field? (p : Prototype) (name : String) : Option FieldInfo :=
  p.fields.find? fun f => f.name == name

/-- The prototype's own method of the given name. -/
def method? (p : Prototype) (name : String) : Option MethodInfo :=
  p.methods.find? fun m => m.name == name

/-- The prototype of a built-in; all its members are public. -/
def ofBuiltin (b : BuiltinPrototype) : Prototype where
  name := b.name
  parent := b.parent
  isSealed := b.isSealed
  isBuiltin := true
  fields := b.fields.map fun (name, ty) => ⟨name, ty, false, false, .everyone, b.name⟩
  methods := b.methods.map fun m => ⟨m.name, m.params, m.ret, .everyone, b.name⟩
  span := Span.origin

end Prototype

/-- The prototypes of a program, in the order in which they were registered. -/
structure Hierarchy where
  prototypes : List Prototype

namespace Hierarchy

/-- The built-in prototypes alone. -/
def builtins : Hierarchy := ⟨Builtin.prototypes.map Prototype.ofBuiltin⟩

/-- The prototype of the given name. -/
def get? (h : Hierarchy) (name : String) : Option Prototype :=
  h.prototypes.find? fun p => p.name == name

/-- The name is that of a prototype. -/
def contains (h : Hierarchy) (name : String) : Bool := (h.get? name).isSome

/-- The names of all prototypes, in the order of registration. -/
def names (h : Hierarchy) : List String := h.prototypes.map (·.name)

/-- The prototypes that the program itself declares. -/
def declared (h : Hierarchy) : List Prototype := h.prototypes.filter fun p => !p.isBuiltin

/-- The number by which a prototype is known when the program runs. -/
def number? (h : Hierarchy) (name : String) : Option Nat :=
  h.prototypes.findIdx? fun p => p.name == name

/-- The declaration is the one its prototype comes from; declarations of names that were taken are
not. -/
def accepts (h : Hierarchy) (d : PrototypeDecl) : Bool :=
  (h.get? d.name).any fun p => !p.isBuiltin && p.span == d.span

/-! ## Walking towards the root -/

/-- At most `steps` prototypes from `name` towards the root, none of them among `seen`. -/
def chain (h : Hierarchy) : (steps : Nat) → (seen : List String) → (name : String) → List Prototype
  | 0, _, _ => []
  | steps + 1, seen, name =>
    match h.get? name with
    | none => []
    | some p =>
      if p.name ∈ seen then []
      else p :: (p.parent.map (h.chain steps (p.name :: seen))).getD []

/-- The prototype of the given name and its ancestors up to the root. -/
def ancestors (h : Hierarchy) (name : String) : List Prototype :=
  h.chain h.prototypes.length [] name

/-- The nearest field of the given name. -/
def field? (h : Hierarchy) (proto field : String) : Option FieldInfo :=
  (h.ancestors proto).findSome? fun p => p.field? field

/-- The nearest method of the given name. -/
def method? (h : Hierarchy) (proto method : String) : Option MethodInfo :=
  (h.ancestors proto).findSome? fun p => p.method? method

/-- The names of all members a prototype has, its own first. -/
def memberNames (h : Hierarchy) (proto : String) : List String :=
  (h.ancestors proto).flatMap fun p => p.fields.map (·.name) ++ p.methods.map (·.name)

/-- The fields of an instance, those of the root first. -/
def layout (h : Hierarchy) (proto : String) : List FieldInfo :=
  (h.ancestors proto).reverse.flatMap (·.fields)

/-! ## Subtypes -/

/-- `child` is `ancestor` or inherits from it. -/
def isSubtype (h : Hierarchy) (child ancestor : String) : Bool :=
  (h.ancestors child).any fun p => p.name == ancestor

/-- A value of type `source` may be stored where a `target` is expected. -/
def isAssignable (h : Hierarchy) (source target : Ty) : Bool :=
  source == target ||
    match source, target with
    | .named s, .named t => h.isSubtype s t
    | _, _ => false

/-- Instances of the prototype can be thrown. -/
def isException (h : Hierarchy) (name : String) : Bool := h.isSubtype name Builtin.exception

/-- The prototype and all that inherit from it, in the order of registration. -/
def subtypes (h : Hierarchy) (proto : String) : List Prototype :=
  h.prototypes.filter fun p => h.isSubtype p.name proto

/-- A prototype strictly below `proto` declares the method again. -/
def isOverriddenBelow (h : Hierarchy) (proto method : String) : Bool :=
  (h.subtypes proto).any fun p => p.name != proto && (p.method? method).isSome

/-- Code of the prototype `accessor`, if it is of any, may use a member of `owner`. -/
def canAccess (h : Hierarchy) (visibility : Visibility) (owner : String)
    (accessor : Option String) : Bool :=
  match visibility with
  | .everyone => true
  | .family => accessor.any fun a => h.isSubtype a owner

end Hierarchy

end ProtoScript
