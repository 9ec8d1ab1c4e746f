import ProtoScript.Ty.Basic

set_option autoImplicit false

/-!
# Built-in declarations

What is there without being declared: the prototypes and functions every program starts with, and the methods of
containers and strings.
-/

namespace ProtoScript

/-!
## Built-in prototypes and functions

The prototypes every program starts with: the root `Object`, the exceptions, and the sealed
handles to files, dates and the like. Parents stand before their children.
-/

/-- The signature of a built-in method. -/
structure BuiltinMethod where
  name : String
  params : List Ty
  ret : Ty
  deriving Repr

/-- A built-in prototype. -/
structure BuiltinPrototype where
  name : String
  parent : Option String
  isSealed : Bool
  fields : List (String × Ty)
  methods : List BuiltinMethod
  deriving Repr

namespace Builtin

/-- The root of all prototypes. -/
def object : String := "Object"

/-- The root of all prototypes that can be thrown. -/
def exception : String := "Exception"

/-- An exception that adds nothing to its parent. -/
def plainException (name parent : String) : BuiltinPrototype :=
  ⟨name, some parent, false, [], []⟩

/-- A sealed prototype whose methods run outside the program. -/
def handle (name : String) (methods : List BuiltinMethod) : BuiltinPrototype :=
  ⟨name, some object, true, [], methods⟩

/-- Every built-in prototype. -/
def prototypes : List BuiltinPrototype :=
  [ ⟨object, none, false, [],
      [⟨"clone", [], .named object⟩, ⟨"toString", [], .string⟩]⟩,
    ⟨exception, some object, false, [("message", .string)], [⟨"getMessage", [], .string⟩]⟩,
    plainException "RuntimeException" exception,
    plainException "IOException" exception,
    plainException "ValueException" exception,
    plainException "TypeException" exception,
    plainException "IndexException" "RuntimeException",
    plainException "KeyException" "RuntimeException",
    plainException "OverflowException" "RuntimeException",
    plainException "DivideByZeroException" "RuntimeException",
    plainException "InvalidCallException" "RuntimeException",
    handle "File"
      [⟨"read", [], .string⟩, ⟨"write", [.string], .void⟩, ⟨"close", [], .void⟩],
    handle "Directory" [⟨"entries", [], .list .string⟩],
    handle "Regex"
      [⟨"matches", [.string], .bool⟩, ⟨"find", [.string], .named "RegexMatch"⟩],
    handle "RegexMatch"
      [⟨"group", [.int], .string⟩, ⟨"start", [], .int⟩, ⟨"end", [], .int⟩],
    handle "JsonValue"
      [⟨"asString", [], .string⟩, ⟨"asInt", [], .int⟩, ⟨"asFloat", [], .float⟩,
        ⟨"asBool", [], .bool⟩, ⟨"get", [.string], .named "JsonValue"⟩],
    handle "Date"
      [⟨"year", [], .int⟩, ⟨"month", [], .int⟩, ⟨"day", [], .int⟩, ⟨"timestamp", [], .int⟩],
    handle "Duration" [⟨"seconds", [], .int⟩, ⟨"millis", [], .int⟩],
    handle "ProcessResult" [⟨"exitCode", [], .int⟩, ⟨"output", [], .string⟩],
    handle "Path" [⟨"join", [.string], .named "Path"⟩, ⟨"name", [], .string⟩] ]

/-- The built-in prototype of the given name. -/
def prototype? (name : String) : Option BuiltinPrototype :=
  prototypes.find? fun p => p.name == name

/-- The function that prints a value; it is the only built-in function. -/
def print : String := "print"

/-- The built-in functions. -/
def functions : List String := [print]

end Builtin

/-!
## Methods of containers and strings

Every method that lists, maps, windows and strings have, with its signature on a given receiver.
-/

/-- A method of a container or string. -/
inductive ContainerMethod where
  | push
  | pop
  | length
  | view
  | slice
  | clear
  | has
  | remove
  deriving DecidableEq, Repr

namespace ContainerMethod

def name : ContainerMethod → String
  | push => "push"
  | pop => "pop"
  | length => "length"
  | view => "view"
  | slice => "slice"
  | clear => "clear"
  | has => "has"
  | remove => "remove"

/-- The methods a receiver of the given type has. -/
def availableOn : Ty → List ContainerMethod
  | .prim .string => [length, view]
  | .list _ => [push, pop, length, view, slice, clear]
  | .map _ _ => [has, remove, length]
  | .view _ => [length, view]
  | .slice _ => [length, view, slice]
  | _ => []

/-- The parameter types and the result type of a method, for a receiver with the given key and
element types. -/
def signature (key elem : Ty) : ContainerMethod → List Ty × Ty
  | push => ([elem], .void)
  | pop => ([], elem)
  | length => ([], .int)
  | view => ([.int, .int], .view elem)
  | slice => ([.int, .int], .slice elem)
  | clear => ([], .void)
  | has => ([key], .bool)
  | remove => ([key], .void)

end ContainerMethod

/-- A container method as a particular receiver has it. -/
structure ContainerSignature where
  method : ContainerMethod
  params : List Ty
  ret : Ty
  deriving DecidableEq, Repr

/-- The method of the given name on a receiver of the given type. -/
def containerMethod? (receiver : Ty) (name : String) : Option ContainerSignature := do
  let method ← (ContainerMethod.availableOn receiver).find? fun m => m.name == name
  let elem ← receiver.element?
  let key ← receiver.key?
  let (params, ret) := method.signature key elem
  return { method, params, ret }

end ProtoScript
