import ProtoScript.C.Emit
import ProtoScript.C.Prelude

set_option autoImplicit false

/-!
# Modules in C

A module becomes one C file: the run-time support, the structs of containers and prototypes, tables
of the prototypes, the built-in methods, the dispatchers and the functions. `generate` refuses a
module that is not well formed.
-/

namespace ProtoScript.C

/-! ## Functions and dispatchers -/

/-- The heads and definitions of functions, and what they need. -/
def emitFunctions (m : Ir.Module) (needs : Needs) :
    List Ir.Function → Except Error (List String × List Lines × Needs)
  | [] => return ([], [], needs)
  | f :: rest => do
    let (head, body, needs) ← emitFunction m needs f
    let (heads, bodies, needs) ← emitFunctions m needs rest
    return (head :: heads, body :: bodies, needs)

/-- The call of one body from a dispatcher that returns a `ret`. -/
def dispatchCall (needs : Needs) (body : MethodBody) (ret : Ty) (args : List String) :
    Except Error (String × Needs) := do
  let (receiver, needs) ← needType needs (body.params.head?.getD (.named Builtin.object))
  let text := call body.cName (("(" ++ receiver ++ ")self") :: args)
  if ret.isVoid then return (text ++ "; return;", needs)
  else if body.ret ≠ ret && ret.named?.isSome then
    return ("return (" ++ spell ret ++ ")" ++ text ++ ";", needs)
  else return ("return " ++ text ++ ";", needs)

/-- The cases of a dispatcher: the prototypes that run another body than `base`. -/
def dispatchCases (m : Ir.Module) (method : String) (base : MethodBody) (args : List String) :
    Needs → List Ir.Layout → Except Error (Lines × Needs)
  | needs, [] => return ([], needs)
  | needs, l :: rest => do
    let body ← methodBody m l.name method
    if body.cName == base.cName then dispatchCases m method base args needs rest
    else
      let (text, needs) ← dispatchCall needs body base.ret args
      let (lines, needs) ← dispatchCases m method base args needs rest
      return (indent ("case " ++ toString l.id ++ ": " ++ text) :: lines, needs)

/-- The parameters of a dispatcher behind the receiver, numbered from one. -/
def dispatchParams (needs : Needs) (n : Nat) : List Ty → Except Error (List String × Needs)
  | [] => return ([], needs)
  | ty :: rest => do
    let (text, needs) ← needType needs ty
    let (params, needs) ← dispatchParams needs (n + 1) rest
    return ((text ++ " a" ++ toString n) :: params, needs)

/-- A dispatcher: its head and its definition. -/
def dispatcher (m : Ir.Module) (needs : Needs) (proto method : String) :
    Except Error (String × Lines × Needs) := do
  let base ← methodBody m proto method
  let (ret, needs) ← needType needs base.ret
  let (params, needs) ← dispatchParams needs 1 base.params.tail
  let args := (List.range base.params.tail.length).map fun n => "a" ++ toString (n + 1)
  let head := "static " ++ ret ++ " " ++ dispatcherName proto method ++ "(" ++
    commas ((spell (.named proto) ++ " self") :: params) ++ ")"
  let (cases, needs) ← dispatchCases m method base args needs (strictSubtypes m proto)
  let (text, needs) ← dispatchCall needs base base.ret args
  let body := [indent "switch (self->proto_id) \x7b"] ++ cases ++
    [indent ("default: " ++ text), indent "\x7d"]
  return (head, [head ++ " \x7b"] ++ body ++ ["\x7d"], needs)

/-- The dispatchers of methods. -/
def dispatchers (m : Ir.Module) (needs : Needs) :
    List (String × String) → Except Error (List String × List Lines × Needs)
  | [] => return ([], [], needs)
  | (proto, method) :: rest => do
    let (head, body, needs) ← dispatcher m needs proto method
    let (heads, bodies, needs) ← dispatchers m needs rest
    return (head :: heads, body :: bodies, needs)

/-! ## Prototypes -/

/-- The fields of a struct. -/
def fieldLines (needs : Needs) : List Ir.Field → Except Error (Lines × Needs)
  | [] => return ([], needs)
  | f :: rest => do
    let (text, needs) ← needType needs f.ty
    let (lines, needs) ← fieldLines needs rest
    return ((text ++ " " ++ fieldName f.name ++ ";") :: lines, needs)

/-- The structs of prototypes. -/
def structLines (needs : Needs) : List Ir.Layout → Except Error (Lines × Needs)
  | [] => return ([], needs)
  | l :: rest => do
    let (fields, needs) ← fieldLines needs l.fields
    let (lines, needs) ← structLines needs rest
    return (blockThen ("struct " ++ structName l.name) ("int32_t proto_id;" :: fields) ";" ++
      [""] ++ lines, needs)

/-- The number of the parent of a prototype, as a table entry. -/
def parentNumber (m : Ir.Module) (l : Ir.Layout) : Except Error (Option String) := do
  match l.parent with
  | none => return none
  | some parent => return some (toString (← layout m parent).id)

/-- The entry of a table at a number: the last one given for it. -/
def tableEntry (entries : List (Nat × String)) (default : String) (n : Nat) : String :=
  (entries.reverse.lookup n).getD default

/-- A table in C. -/
def table (ty name : String) (entries : List String) : String :=
  "static const " ++ ty ++ " " ++ name ++ "[" ++ toString entries.length ++ "] = " ++
    braces (commas entries) ++ ";"

/-- The tables of parents, names and sizes by the prototypes' numbers, and the functions that read
them. -/
def tableLines (m : Ir.Module) : Except Error Lines := do
  let parents ← m.layouts.mapM fun l => do return (l.id, ← parentNumber m l)
  let parents := parents.filterMap fun (n, parent) => parent.map fun p => (n, p)
  let names := m.layouts.map fun l => (l.id, stringLiteral l.name)
  let sizes := m.layouts.map fun l => (l.id, "sizeof(" ++ structName l.name ++ ")")
  let count := (m.layouts.map fun l => l.id + 1).foldl max 1
  let entries (given : List (Nat × String)) (default : String) : List String :=
    (List.range count).map (tableEntry given default)
  let size := toString count
  return [table "int32_t" "ps_proto_parents" (entries parents "-1"),
      table "char* const" "ps_proto_names" (entries names "\"?\""),
      table "size_t" "ps_proto_sizes" (entries sizes "sizeof(ps_header)"),
      ""] ++
    block "static const char* ps_proto_name(int32_t id)"
      ["return id >= 0 && id < " ++ size ++ " ? ps_proto_names[id] : \"?\";"] ++
    block "static bool ps_instance_of(void* object, int32_t proto_id)"
      (["int32_t id = object ? ((ps_header*)object)->proto_id : -1;"] ++
        block ("while (id >= 0 && id < " ++ size ++ ")")
          ["if (id == proto_id) return true;", "id = ps_proto_parents[id];"] ++
        ["return false;"]) ++
    [""]

/-- Exceptions of the module have a message. -/
def hasMessage (m : Ir.Module) : Bool :=
  match fieldType m Builtin.exception "message" with
  | .ok ty => ty.isString
  | .error _ => false

/-- The body of a function that gives the message of an exception. -/
def messageBody (m : Ir.Module) (object argument : String) : Lines :=
  if hasMessage m then ["return " ++ object ++ "->f_message;"]
  else ["(void)" ++ argument ++ ";", "return \"\";"]

/-- The built-in methods of the prototypes that the module has. -/
def defaultLines (m : Ir.Module) : Lines :=
  (if (layout? m Builtin.object).isSome then
      block "static ps_Object* psm_Object__clone(ps_Object* self)"
        ["size_t size = ps_proto_sizes[self->proto_id];", "ps_Object* copy = ps_alloc(size);",
          "memcpy(copy, self, size);", "return copy;"] ++
      block "static ps_str psm_Object__toString(ps_Object* self)"
        ["return ps_proto_name(self->proto_id);"]
    else []) ++
  (if (layout? m Builtin.exception).isSome then
      block "static ps_str psm_Exception__getMessage(ps_Exception* self)"
        (messageBody m "self" "self")
    else []) ++
  block "static const char* ps_exception_message(void* exception)"
    (messageBody m "((ps_Exception*)exception)" "exception") ++
  [""]

/-! ## Files -/

/-- The C entry point, if the module has a `main` without parameters. -/
def mainLines (m : Ir.Module) : Lines :=
  match m.function? "main" with
  | none => []
  | some f =>
    if !f.params.isEmpty then []
    else block "int main(void)" (match f.ret with
      | .prim .void => ["psf_main();", "return 0;"]
      | .prim .int => ["return (int)psf_main();"]
      | _ => ["(void)psf_main();", "return 0;"])

/-- The C file of a module. -/
def moduleLines (m : Ir.Module) (withPrelude : Bool) : Except Error Lines := do
  let (heads, bodies, needs) ← emitFunctions m {} m.functions
  let (dispatchHeads, dispatchBodies, needs) ← dispatchers m needs needs.dispatchers
  let (structs, needs) ← structLines needs m.layouts
  let tables ← tableLines m
  return ["/* generated from ProtoScript module `" ++ m.name ++ "` */"] ++
    (if withPrelude then preludeText else ["#include \"" ++ runtimeHeader ++ "\""]) ++ [""] ++
    (m.layouts.map fun l => "typedef struct " ++ structName l.name ++ " " ++ structName l.name ++ ";") ++
    [""] ++ needs.containers.text ++ structs ++ tables ++ defaultLines m ++
    needs.foreign.map (·.2) ++ (heads ++ dispatchHeads).map (· ++ ";") ++ [""] ++
    (dispatchBodies ++ bodies).flatMap (· ++ [""]) ++ mainLines m

/-- Generates the C file of a module, with the run-time support in it or included. -/
def generate (m : Ir.Module) (withPrelude : Bool) : Except Error String := do
  if m.isValid then return (← moduleLines m withPrelude).text
  else throw (.invalidModule m.defects)

end ProtoScript.C
