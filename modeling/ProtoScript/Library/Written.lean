import ProtoScript.Json.Reader
import ProtoScript.Json.Record
import ProtoScript.Library.Basic

set_option autoImplicit false

/-!
# Written libraries

A library is described by a JSON document. Lists that are left out are empty, entries that name no
field are passed over whatever they hold, and no field may be given twice.
-/

namespace ProtoScript

/-- A number that is no `int` is a float. -/
def LibraryValue.ofJson? : Json → Option LibraryValue
  | .bool b => some (.bool b)
  | .int n =>
    match Constant.fitInt? n with
    | some v => some (.int v)
    | none => (Json.float? (.int n)).map .float
  | .float x => some (.float x)
  | .str s => some (.text s)
  | _ => none

def LibraryFunction.ofJson? (j : Json) : Option LibraryFunction := do
  let f ← j.recordOnce? ["name", "params", "ret"]
  return { name := ← f.need "name" Json.str?
           params := ← f.getD "params" [] (Json.list? Json.ty?)
           ret := ← f.need "ret" Json.ty? }

def LibraryConstant.ofJson? (j : Json) : Option LibraryConstant := do
  let f ← j.recordOnce? ["name", "type", "value"]
  return { name := ← f.need "name" Json.str?
           ty := ← f.need "type" Json.ty?
           value := ← f.need "value" LibraryValue.ofJson? }

def LibraryModule.ofJson? (j : Json) : Option LibraryModule := do
  let f ← j.recordOnce? ["name", "functions", "constants"]
  return { name := ← f.need "name" Json.str?
           functions := ← f.getD "functions" [] (Json.list? LibraryFunction.ofJson?)
           constants := ← f.getD "constants" [] (Json.list? LibraryConstant.ofJson?) }

namespace Library

/-- The library a JSON value describes. -/
def ofJson? (j : Json) : Option Library := do
  let f ← j.recordOnce? ["modules"]
  return { modules := ← f.getD "modules" [] (Json.list? LibraryModule.ofJson?) }

/-- The parts of a description that matter. -/
def shape : Json.Shape :=
  let function : Json.Shape := .record [("name", .whole), ("params", .whole), ("ret", .whole)]
  let constant : Json.Shape := .record [("name", .whole), ("type", .whole), ("value", .whole)]
  let module : Json.Shape :=
    .record [("name", .whole), ("functions", .list function), ("constants", .list constant)]
  .record [("modules", .list module)]

/-- Reads the description of a library. -/
def read? (text : String) : Option Library := (Json.readAs? shape text).bind ofJson?

end Library

end ProtoScript
