import ProtoScript.Builtin.Basic
import ProtoScript.C.Name
import ProtoScript.Ir.Printer
import ProtoScript.Ir.Validate

set_option autoImplicit false

/-!
# Looking things up in a module

Functions and prototypes by name, the ancestors of a prototype, and the body that a method call
runs. Three methods of the built-in prototypes have bodies of their own in C. If a name is given
twice the last one counts.
-/

namespace ProtoScript.C

/-! ## Errors -/

/-- Why no C can be generated. -/
inductive Error where
  | untypedTemp (function : String) (temp : Ir.Temp)
  | unknownVariable (function name : String)
  | unknownFunction (function callee : String)
  | unknownPrototype (name : String)
  | unknownField (proto field : String)
  | unknownMethod (proto method : String)
  | unsupportedType (ty : Ty)
  | unsupported (function op : String) (ty : Ty)
  | invalidModule (defects : List Ir.ModuleDefect)
  deriving DecidableEq, Repr

/-- A text between backticks. -/
def ticked (text : String) : String := "`" ++ text ++ "`"

/-- The wording of an error. -/
def Error.message : Error → String
  | untypedTemp f t => "in " ++ ticked f ++ ": no type could be inferred for " ++ Ir.tempName t
  | unknownVariable f n => "in " ++ ticked f ++ ": variable " ++ ticked n ++ " is never declared"
  | unknownFunction f c => "in " ++ ticked f ++ ": call to unknown function " ++ ticked c
  | unknownPrototype n => "unknown prototype " ++ ticked n
  | unknownField p f => "prototype " ++ ticked p ++ " has no field " ++ ticked f
  | unknownMethod p m => "prototype " ++ ticked p ++ " has no method " ++ ticked m
  | unsupportedType t => "type " ++ ticked t.render ++ " has no C representation"
  | unsupported f op t =>
    "in " ++ ticked f ++ ": " ++ ticked op ++ " is not defined on " ++ ticked t.render
  | invalidModule ds => "invalid IR: " ++ Ir.defectsText ds

/-! ## Bodies of methods -/

/-- The built-in methods that have a body in C. -/
inductive DefaultMethod where
  /-- A shallow copy of an object of any prototype. -/
  | clone
  /-- The name of the object's prototype. -/
  | toText
  | getMessage
  deriving DecidableEq, Repr

namespace DefaultMethod

/-- The prototype that declares a built-in method. -/
def owner : DefaultMethod → String
  | clone | toText => Builtin.object
  | getMessage => Builtin.exception

/-- The name of a built-in method. -/
def name : DefaultMethod → String
  | clone => "clone"
  | toText => "toString"
  | getMessage => "getMessage"

def ret : DefaultMethod → Ty
  | clone => .named Builtin.object
  | toText | getMessage => .string

/-- The C function of a built-in method. -/
def cName (d : DefaultMethod) : String := memberOf "psm_" d.owner d.name

/-- The built-in method that a prototype declares under a name. -/
def find? (owner method : String) : Option DefaultMethod :=
  [clone, toText, getMessage].find? fun d => d.owner == owner && d.name == method

end DefaultMethod

/-- The body that a method call runs. -/
inductive MethodBody where
  | declared (function : Ir.Function)
  | default (method : DefaultMethod)

namespace MethodBody

/-- The C function of a body. -/
def cName : MethodBody → String
  | declared f => functionName f.name
  | default d => d.cName

def ret : MethodBody → Ty
  | declared f => f.ret
  | default d => d.ret

/-- The types of the parameters, the receiver's first. -/
def params : MethodBody → List Ty
  | declared f => f.params.map (·.ty)
  | default d => [.named d.owner]

end MethodBody

/-! ## Look-ups -/

section

variable (m : Ir.Module)

/-- The last function of the given name. -/
def function? (name : String) : Option Ir.Function :=
  m.functions.reverse.find? fun f => f.name == name

/-- The last prototype of the given name. -/
def layout? (name : String) : Option Ir.Layout :=
  m.layouts.reverse.find? fun l => l.name == name

/-- The prototype of the given name. -/
def layout (name : String) : Except Error Ir.Layout :=
  match layout? m name with
  | some l => .ok l
  | none => .error (.unknownPrototype name)

/-- The type of a field of a prototype. -/
def fieldType (proto field : String) : Except Error Ty := do
  let l ← layout m proto
  match l.field? field with
  | some (_, f) => .ok f.ty
  | none => .error (.unknownField proto field)

/-- At most `steps` prototypes from `name` towards the root, none of them among `seen`. -/
def chain : (steps : Nat) → (seen : List String) → (name : String) → List String
  | 0, _, _ => []
  | steps + 1, seen, name =>
    match layout? m name with
    | none => []
    | some l =>
      if l.name ∈ seen then []
      else l.name :: (l.parent.map (chain steps (l.name :: seen))).getD []

/-- The prototype of the given name and its ancestors, as far as they are known. -/
def ancestors (name : String) : List String := chain m m.layouts.length [] name

/-- `child` is `ancestor` or inherits from it. -/
def isSubtype (child ancestor : String) : Bool := (ancestors m child).contains ancestor

/-- The prototypes strictly below one, in the order of the module. -/
def strictSubtypes (proto : String) : List Ir.Layout :=
  m.layouts.filter fun l => l.name != proto && isSubtype m l.name proto

/-- The body that a prototype itself has for a method. -/
def ownBody? (method owner : String) : Option MethodBody :=
  match function? m (Ir.methodName owner method) with
  | some f => some (.declared f)
  | none => (DefaultMethod.find? owner method).map .default

/-- The body that a call of a method runs if the receiver is a `proto`. -/
def methodBody? (proto method : String) : Option MethodBody :=
  (ancestors m proto).findSome? (ownBody? m method)

/-- The body that a call of a method runs if the receiver is a `proto`. -/
def methodBody (proto method : String) : Except Error MethodBody :=
  match methodBody? m proto method with
  | some b => .ok b
  | none => .error (.unknownMethod proto method)

/-- A prototype below `proto` runs another body for the method. -/
def needsDispatch (proto method : String) : Bool :=
  (methodBody? m proto method).any fun base =>
    (strictSubtypes m proto).any fun l =>
      (methodBody? m l.name method).any fun b => b.cName != base.cName

end

end ProtoScript.C
