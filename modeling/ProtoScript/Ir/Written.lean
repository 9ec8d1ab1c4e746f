import ProtoScript.Constant.Arith
import ProtoScript.Ir.Validate
import ProtoScript.Json.Reader
import ProtoScript.Json.Record
import ProtoScript.Json.Writer

set_option autoImplicit false

/-!
# The written form of modules

A module is stored as a JSON document with the name and version of the format. `Module.write`
writes well-formed modules only, and `Module.read` accepts well-formed modules only.
-/

namespace ProtoScript.Ir

/-! ## Writing -/

/-- A temporary. -/
def tempJson (t : Temp) : Json := .ofNat t

def tempsJson (ts : List Temp) : Json := .arr (ts.map tempJson)

def tyJson (t : Ty) : Json := .str t.render

/-- A constant, under the word for its type. -/
def constantJson : Constant → Json
  | .bool b => .obj [("bool", .bool b)]
  | .byte v => .obj [("byte", .ofNat v.toNat)]
  | .int v => .obj [("int", .int v.toInt)]
  | .float v => .obj [("float", .float v)]
  | .glyph c => .obj [("glyph", .str c.toString)]
  | .str s => .obj [("str", .str s)]

/-- The fields of a check. -/
def Check.fields : Check → Json.Fields
  | overflow op l r ty =>
    [("operator", .str op.word), ("left", tempJson l), ("right", tempJson r), ("ty", tyJson ty)]
  | negOverflow t ty => [("operand", tempJson t), ("ty", tyJson ty)]
  | divZero t => [("divisor", tempJson t)]
  | shiftRange t w => [("amount", tempJson t), ("width", .ofNat w)]
  | indexBounds o i => [("object", tempJson o), ("index", tempJson i)]
  | mapKey m k => [("map", tempJson m), ("key", tempJson k)]

/-- The fields of an instruction. -/
def Instr.fields : Instr → Json.Fields
  | const d v => [("dest", tempJson d), ("value", constantJson v)]
  | copy d s => [("dest", tempJson d), ("src", tempJson s)]
  | varDecl n ty => [("name", .str n), ("ty", tyJson ty)]
  | loadVar d n => [("dest", tempJson d), ("name", .str n)]
  | storeVar n s => [("name", .str n), ("src", tempJson s)]
  | binary d op l r =>
    [("dest", tempJson d), ("operator", .str op.word), ("left", tempJson l), ("right", tempJson r)]
  | unary d op t => [("dest", tempJson d), ("operator", .str op.word), ("operand", tempJson t)]
  | select d c a b =>
    [("dest", tempJson d), ("cond", tempJson c), ("then_val", tempJson a),
      ("else_val", tempJson b)]
  | cast d s t => [("dest", tempJson d), ("src", tempJson s), ("target", tyJson t)]
  | callStatic d g as =>
    [("dest", .ofOption tempJson d), ("func", .str g), ("args", tempsJson as)]
  | callMethod d r p m as =>
    [("dest", .ofOption tempJson d), ("receiver", tempJson r), ("proto", .str p),
      ("method", .str m), ("args", tempsJson as)]
  | callForeign d m g as t =>
    [("dest", .ofOption tempJson d), ("module", .str m), ("func", .str g), ("args", tempsJson as),
      ("ret", tyJson t)]
  | newObject d p => [("dest", tempJson d), ("proto", .str p)]
  | cloneObject d s p => [("dest", tempJson d), ("src", tempJson s), ("proto", .str p)]
  | fieldGet d o p n =>
    [("dest", tempJson d), ("object", tempJson o), ("proto", .str p), ("field", .str n)]
  | fieldSet o p n v =>
    [("object", tempJson o), ("proto", .str p), ("field", .str n), ("value", tempJson v)]
  | indexGet d o i => [("dest", tempJson d), ("object", tempJson o), ("index", tempJson i)]
  | indexSet o i v => [("object", tempJson o), ("index", tempJson i), ("value", tempJson v)]
  | makeList d t is => [("dest", tempJson d), ("elem", tyJson t), ("items", tempsJson is)]
  | makeMap d k v es =>
    [("dest", tempJson d), ("key", tyJson k), ("value", tyJson v),
      ("entries", .arr (es.map fun e => .arr [tempJson e.1, tempJson e.2]))]
  | makeView d s i j t | makeSlice d s i j t =>
    [("dest", tempJson d), ("source", tempJson s), ("start", tempJson i), ("end", tempJson j),
      ("elem", tyJson t)]
  | listPush l v => [("list", tempJson l), ("value", tempJson v)]
  | listPop d l => [("dest", tempJson d), ("list", tempJson l)]
  | listClear l => [("list", tempJson l)]
  | mapHas d m k => [("dest", tempJson d), ("map", tempJson m), ("key", tempJson k)]
  | mapRemove m k => [("map", tempJson m), ("key", tempJson k)]
  | length d o => [("dest", tempJson d), ("object", tempJson o)]
  | iterBegin d i k t =>
    [("dest", tempJson d), ("iterable", tempJson i), ("kind", .str k.word), ("elem", tyJson t)]
  | iterNext d i => [("dest", tempJson d), ("iter", tempJson i)]
  | print v => [("value", tempJson v)]
  | throw v => [("value", tempJson v)]
  | setupTry h => [("handler", .str h)]
  | endTry => []
  | catchValue d => [("dest", tempJson d)]
  | instanceOf d o p => [("dest", tempJson d), ("object", tempJson o), ("proto", .str p)]
  | check c => c.fields

def Instr.toJson (i : Instr) : Json := .obj (("op", .str i.opcode) :: i.fields)

/-- The fields of a terminator. -/
def Terminator.fields : Terminator → Json.Fields
  | ret t => [("value", tempJson t)]
  | retVoid => []
  | jump l => [("target", .str l)]
  | branch t a b => [("cond", tempJson t), ("then_target", .str a), ("else_target", .str b)]
  | branchIter t a b => [("iter", tempJson t), ("body", .str a), ("done", .str b)]
  | unreachable => []

def Terminator.toJson (t : Terminator) : Json := .obj (("op", .str t.opcode) :: t.fields)

def Block.toJson (b : Block) : Json :=
  .obj [("label", .str b.label), ("instructions", .arr (b.instrs.map Instr.toJson)),
    ("terminator", b.terminator.toJson)]

/-- A name with its type. -/
def typedJson (name : String) (ty : Ty) : Json := .obj [("name", .str name), ("ty", tyJson ty)]

def Function.toJson (f : Function) : Json :=
  .obj [("name", .str f.name), ("params", .arr (f.params.map fun p => typedJson p.name p.ty)),
    ("return_type", tyJson f.ret), ("blocks", .arr (f.blocks.map Block.toJson))]

def Layout.toJson (l : Layout) : Json :=
  .obj [("name", .str l.name), ("proto_id", .ofNat l.id), ("parent", .ofOption .str l.parent),
    ("fields", .arr (l.fields.map fun f => typedJson f.name f.ty))]

def Module.toJson (m : Module) : Json :=
  .obj [("name", .str m.name), ("functions", .arr (m.functions.map Function.toJson)),
    ("prototypes", .arr (m.layouts.map Layout.toJson))]

/-! ## Reading -/

/-- Reads a 32-bit number. -/
def word32? (j : Json) : Option Nat := j.natBelow? UInt32.size

def tempOf? (j : Json) : Option Temp := word32? j

def tempsOf? (j : Json) : Option (List Temp) := Json.list? tempOf? j

/-- Reads one of the words of an instruction. -/
def wordOf? {α : Type} (meaning : String → Option α) : Json → Option α :=
  Json.word Json.isNothing meaning

/-- Reads a constant whose type is given by its word. -/
def constantUnder? (word : String) (j : Json) : Option Constant :=
  match word with
  | "bool" => j.bool?.map .bool
  | "byte" => (j.natBelow? 256).map fun n => .byte (UInt8.ofNat n)
  | "int" => (j.int?.bind Constant.fitInt?).map .int
  | "float" => j.float?.map .float
  | "glyph" => j.char?.map .glyph
  | "str" => j.str?.map .str
  | _ => none

/-- Reads a constant: an object with one key, the word for the constant's type. -/
def constantOf? : Json → Option Constant
  | .obj entries =>
    entries.getLast?.bind fun (word, j) =>
      if entries.all fun e => e.1 == word then constantUnder? word j else none
  | _ => none

/-- Reads a check with the given opcode from its fields. -/
def Check.read? (op : String) (j : Json) : Option Check :=
  match op with
  | "check_overflow" => do
    let f ← j.record? ["operator", "left", "right", "ty"]
    return .overflow (← f.need "operator" (wordOf? BinaryOp.ofWord?)) (← f.need "left" tempOf?)
      (← f.need "right" tempOf?) (← f.need "ty" Json.ty?)
  | "check_neg_overflow" => do
    let f ← j.record? ["operand", "ty"]
    return .negOverflow (← f.need "operand" tempOf?) (← f.need "ty" Json.ty?)
  | "check_div_zero" => do
    let f ← j.record? ["divisor"]
    return .divZero (← f.need "divisor" tempOf?)
  | "check_shift_range" => do
    let f ← j.record? ["amount", "width"]
    return .shiftRange (← f.need "amount" tempOf?) (← f.need "width" word32?)
  | "check_index_bounds" => do
    let f ← j.record? ["object", "index"]
    return .indexBounds (← f.need "object" tempOf?) (← f.need "index" tempOf?)
  | "check_map_key" => do
    let f ← j.record? ["map", "key"]
    return .mapKey (← f.need "map" tempOf?) (← f.need "key" tempOf?)
  | _ => none

/-- Reads an instruction that computes a value. -/
def Instr.readValue? (op : String) (j : Json) : Option Instr :=
  match op with
  | "const" => do
    let f ← j.record? ["dest", "value"]
    return .const (← f.need "dest" tempOf?) (← f.need "value" constantOf?)
  | "copy" => do
    let f ← j.record? ["dest", "src"]
    return .copy (← f.need "dest" tempOf?) (← f.need "src" tempOf?)
  | "var_decl" => do
    let f ← j.record? ["name", "ty"]
    return .varDecl (← f.need "name" Json.str?) (← f.need "ty" Json.ty?)
  | "load_var" => do
    let f ← j.record? ["dest", "name"]
    return .loadVar (← f.need "dest" tempOf?) (← f.need "name" Json.str?)
  | "store_var" => do
    let f ← j.record? ["name", "src"]
    return .storeVar (← f.need "name" Json.str?) (← f.need "src" tempOf?)
  | "bin_op" => do
    let f ← j.record? ["dest", "operator", "left", "right"]
    return .binary (← f.need "dest" tempOf?) (← f.need "operator" (wordOf? BinaryOp.ofWord?))
      (← f.need "left" tempOf?) (← f.need "right" tempOf?)
  | "unary_op" => do
    let f ← j.record? ["dest", "operator", "operand"]
    return .unary (← f.need "dest" tempOf?) (← f.need "operator" (wordOf? UnaryOp.ofWord?))
      (← f.need "operand" tempOf?)
  | "select" => do
    let f ← j.record? ["dest", "cond", "then_val", "else_val"]
    return .select (← f.need "dest" tempOf?) (← f.need "cond" tempOf?)
      (← f.need "then_val" tempOf?) (← f.need "else_val" tempOf?)
  | "cast" => do
    let f ← j.record? ["dest", "src", "target"]
    return .cast (← f.need "dest" tempOf?) (← f.need "src" tempOf?) (← f.need "target" Json.ty?)
  | _ => none

/-- Reads an instruction that calls. -/
def Instr.readCall? (op : String) (j : Json) : Option Instr :=
  match op with
  | "call_static" => do
    let f ← j.record? ["dest", "func", "args"]
    return .callStatic (← f.opt "dest" tempOf?) (← f.need "func" Json.str?)
      (← f.need "args" tempsOf?)
  | "call_method" => do
    let f ← j.record? ["dest", "receiver", "proto", "method", "args"]
    return .callMethod (← f.opt "dest" tempOf?) (← f.need "receiver" tempOf?)
      (← f.need "proto" Json.str?) (← f.need "method" Json.str?) (← f.need "args" tempsOf?)
  | "call_extern" => do
    let f ← j.record? ["dest", "module", "func", "args", "ret"]
    return .callForeign (← f.opt "dest" tempOf?) (← f.need "module" Json.str?)
      (← f.need "func" Json.str?) (← f.need "args" tempsOf?) (← f.need "ret" Json.ty?)
  | _ => none

/-- Reads an instruction on prototype instances. -/
def Instr.readObject? (op : String) (j : Json) : Option Instr :=
  match op with
  | "new_object" => do
    let f ← j.record? ["dest", "proto"]
    return .newObject (← f.need "dest" tempOf?) (← f.need "proto" Json.str?)
  | "clone_object" => do
    let f ← j.record? ["dest", "src", "proto"]
    return .cloneObject (← f.need "dest" tempOf?) (← f.need "src" tempOf?)
      (← f.need "proto" Json.str?)
  | "field_get" => do
    let f ← j.record? ["dest", "object", "proto", "field"]
    return .fieldGet (← f.need "dest" tempOf?) (← f.need "object" tempOf?)
      (← f.need "proto" Json.str?) (← f.need "field" Json.str?)
  | "field_set" => do
    let f ← j.record? ["object", "proto", "field", "value"]
    return .fieldSet (← f.need "object" tempOf?) (← f.need "proto" Json.str?)
      (← f.need "field" Json.str?) (← f.need "value" tempOf?)
  | "instance_of" => do
    let f ← j.record? ["dest", "object", "proto"]
    return .instanceOf (← f.need "dest" tempOf?) (← f.need "object" tempOf?)
      (← f.need "proto" Json.str?)
  | _ => none

/-- The source, the two ends and the element type of a window. -/
def windowOf? (j : Json) : Option (Temp × Temp × Temp × Temp × Ty) := do
  let f ← j.record? ["dest", "source", "start", "end", "elem"]
  return (← f.need "dest" tempOf?, ← f.need "source" tempOf?, ← f.need "start" tempOf?,
    ← f.need "end" tempOf?, ← f.need "elem" Json.ty?)

/-- Reads an instruction on containers. -/
def Instr.readContainer? (op : String) (j : Json) : Option Instr :=
  match op with
  | "index_get" => do
    let f ← j.record? ["dest", "object", "index"]
    return .indexGet (← f.need "dest" tempOf?) (← f.need "object" tempOf?)
      (← f.need "index" tempOf?)
  | "index_set" => do
    let f ← j.record? ["object", "index", "value"]
    return .indexSet (← f.need "object" tempOf?) (← f.need "index" tempOf?)
      (← f.need "value" tempOf?)
  | "make_list" => do
    let f ← j.record? ["dest", "elem", "items"]
    return .makeList (← f.need "dest" tempOf?) (← f.need "elem" Json.ty?)
      (← f.need "items" tempsOf?)
  | "make_map" => do
    let f ← j.record? ["dest", "key", "value", "entries"]
    return .makeMap (← f.need "dest" tempOf?) (← f.need "key" Json.ty?) (← f.need "value" Json.ty?)
      (← f.need "entries" (Json.list? (Json.pair? tempOf? tempOf?)))
  | "make_view" => do
    let (d, s, i, k, t) ← windowOf? j
    return .makeView d s i k t
  | "make_slice" => do
    let (d, s, i, k, t) ← windowOf? j
    return .makeSlice d s i k t
  | "list_push" => do
    let f ← j.record? ["list", "value"]
    return .listPush (← f.need "list" tempOf?) (← f.need "value" tempOf?)
  | "list_pop" => do
    let f ← j.record? ["dest", "list"]
    return .listPop (← f.need "dest" tempOf?) (← f.need "list" tempOf?)
  | "list_clear" => do
    let f ← j.record? ["list"]
    return .listClear (← f.need "list" tempOf?)
  | "map_has" => do
    let f ← j.record? ["dest", "map", "key"]
    return .mapHas (← f.need "dest" tempOf?) (← f.need "map" tempOf?) (← f.need "key" tempOf?)
  | "map_remove" => do
    let f ← j.record? ["map", "key"]
    return .mapRemove (← f.need "map" tempOf?) (← f.need "key" tempOf?)
  | "length" => do
    let f ← j.record? ["dest", "object"]
    return .length (← f.need "dest" tempOf?) (← f.need "object" tempOf?)
  | "iter_begin" => do
    let f ← j.record? ["dest", "iterable", "kind", "elem"]
    return .iterBegin (← f.need "dest" tempOf?) (← f.need "iterable" tempOf?)
      (← f.need "kind" (wordOf? IterKind.ofWord?)) (← f.need "elem" Json.ty?)
  | "iter_next" => do
    let f ← j.record? ["dest", "iter"]
    return .iterNext (← f.need "dest" tempOf?) (← f.need "iter" tempOf?)
  | _ => none

/-- Reads an instruction that prints or deals with exceptions. -/
def Instr.readEffect? (op : String) (j : Json) : Option Instr :=
  match op with
  | "print" => do
    let f ← j.record? ["value"]
    return .print (← f.need "value" tempOf?)
  | "throw" => do
    let f ← j.record? ["value"]
    return .throw (← f.need "value" tempOf?)
  | "setup_try" => do
    let f ← j.record? ["handler"]
    return .setupTry (← f.need "handler" Json.str?)
  | "end_try" => j.noFields?.map fun _ => .endTry
  | "catch_value" => do
    let f ← j.record? ["dest"]
    return .catchValue (← f.need "dest" tempOf?)
  | _ => none

/-- Reads an instruction. The families have no opcode in common. -/
def Instr.ofJson? (j : Json) : Option Instr := do
  let (op, rest) ← j.tagged? "op"
  readValue? op rest <|> readCall? op rest <|> readObject? op rest <|> readContainer? op rest <|>
    readEffect? op rest <|> (Check.read? op rest).map .check

/-- Reads a terminator. -/
def Terminator.ofJson? (j : Json) : Option Terminator := do
  let (op, rest) ← j.tagged? "op"
  match op with
  | "ret" =>
    let f ← rest.record? ["value"]
    return .ret (← f.need "value" tempOf?)
  | "ret_void" => rest.noFields?.map fun _ => .retVoid
  | "jump" =>
    let f ← rest.record? ["target"]
    return .jump (← f.need "target" Json.str?)
  | "branch_if" =>
    let f ← rest.record? ["cond", "then_target", "else_target"]
    return .branch (← f.need "cond" tempOf?) (← f.need "then_target" Json.str?)
      (← f.need "else_target" Json.str?)
  | "branch_iter_has_next" =>
    let f ← rest.record? ["iter", "body", "done"]
    return .branchIter (← f.need "iter" tempOf?) (← f.need "body" Json.str?)
      (← f.need "done" Json.str?)
  | "unreachable" => rest.noFields?.map fun _ => .unreachable
  | _ => none

def Block.ofJson? (j : Json) : Option Block := do
  let f ← j.record? ["label", "instructions", "terminator"]
  return { label := ← f.need "label" Json.str?
           instrs := ← f.need "instructions" (Json.list? Instr.ofJson?)
           terminator := ← f.need "terminator" Terminator.ofJson? }

/-- Reads a name with its type. -/
def typedOf? (j : Json) : Option (String × Ty) := do
  let f ← j.record? ["name", "ty"]
  return (← f.need "name" Json.str?, ← f.need "ty" Json.ty?)

def Function.ofJson? (j : Json) : Option Function := do
  let f ← j.record? ["name", "params", "return_type", "blocks"]
  let params ← f.need "params" (Json.list? typedOf?)
  return { name := ← f.need "name" Json.str?
           params := params.map fun p => ⟨p.1, p.2⟩
           ret := ← f.need "return_type" Json.ty?
           blocks := ← f.need "blocks" (Json.list? Block.ofJson?) }

def Layout.ofJson? (j : Json) : Option Layout := do
  let f ← j.record? ["name", "proto_id", "parent", "fields"]
  let fields ← f.need "fields" (Json.list? typedOf?)
  return { name := ← f.need "name" Json.str?
           id := ← f.need "proto_id" word32?
           parent := ← f.opt "parent" Json.str?
           fields := fields.map fun p => ⟨p.1, p.2⟩ }

def Module.ofJson? (j : Json) : Option Module := do
  let f ← j.record? ["name", "functions", "prototypes"]
  return { name := ← f.need "name" Json.str?
           functions := ← f.need "functions" (Json.list? Function.ofJson?)
           layouts := ← f.need "prototypes" (Json.list? Layout.ofJson?) }

/-! ## Documents -/

/-- The name of the format. -/
def formatName : String := "ProtoScriptIR"

/-- The version of the format. -/
def formatVersion : Nat := 1

/-- The words for instructions in documents. -/
def instrOpcodes : List String :=
  ["const", "copy", "var_decl", "load_var", "store_var", "bin_op", "unary_op", "select", "cast",
    "call_static", "call_method", "call_extern", "new_object", "clone_object", "field_get",
    "field_set", "index_get", "index_set", "make_list", "make_map", "make_view", "make_slice",
    "list_push", "list_pop", "list_clear", "map_has", "map_remove", "length", "iter_begin",
    "iter_next", "print", "throw", "setup_try", "end_try", "catch_value", "instance_of",
    "check_overflow", "check_neg_overflow", "check_div_zero", "check_shift_range",
    "check_index_bounds", "check_map_key"]

/-- The words for terminators in documents. -/
def terminatorOpcodes : List String :=
  ["ret", "ret_void", "jump", "branch_if", "branch_iter_has_next", "unreachable"]

/-- Why a document is refused. -/
inductive ReadError where
  /-- The text is no JSON, or a part is missing or of the wrong kind. -/
  | malformed
  | wrongFormat (found : String)
  | unsupportedVersion (found : Nat)
  | unknownOpcode (function block opcode : String)
  | invalid (defects : List ModuleDefect)
  deriving DecidableEq, Repr

def ReadError.message : ReadError → String
  | malformed => "malformed IR JSON"
  | wrongFormat f =>
    "unexpected IR format '" ++ f ++ "' (expected '" ++ formatName ++ "')"
  | unsupportedVersion v => "unsupported IR version " ++ toString v
  | unknownOpcode f b op => "unknown opcode '" ++ op ++ "' in " ++ f ++ "/" ++ b
  | invalid ds => "invalid IR: " ++ defectsText ds

/-- The items of the array under a key; none if there is no such array. -/
def itemsAt (j : Json) (key : String) : List Json := ((j.get? key).bind Json.arr?).getD []

/-- The text under a key. -/
def textAt (j : Json) (key default : String) : String := ((j.get? key).bind Json.str?).getD default

/-- The first opcode of a block that is no opcode. -/
def unknownInBlock? (block : Json) : Option String :=
  let ops := (itemsAt block "instructions").map fun i => textAt i "op" ""
  match ops.find? fun op => !instrOpcodes.contains op with
  | some op => some op
  | none =>
    let last := ((block.get? "terminator").map fun t => textAt t "op" "").getD ""
    if terminatorOpcodes.contains last then none else some last

/-- The first opcode of a document that is no opcode, with its function and block. -/
def unknownOpcode? (doc : Json) : Option ReadError :=
  (itemsAt ((doc.get? "module").getD .null) "functions").findSome? fun f =>
    (itemsAt f "blocks").findSome? fun b =>
      (unknownInBlock? b).map (ReadError.unknownOpcode (textAt f "name" "?") (textAt b "label" "?"))

/-- The module of a document. -/
def Module.ofDocument (doc : Json) : Except ReadError Module := do
  let format := textAt doc "format" ""
  if format ≠ formatName then throw (.wrongFormat format)
  let version := ((doc.get? "ir_version").bind (Json.natBelow? UInt64.size)).getD 0
  if version ≠ formatVersion then throw (.unsupportedVersion version)
  if let some e := unknownOpcode? doc then throw e
  match (doc.get? "module").bind Module.ofJson? with
  | none => throw .malformed
  | some m => if m.isValid then return m else throw (.invalid m.defects)

/-- Reads a document. -/
def Module.read (text : String) : Except ReadError Module :=
  match Json.read? Json.documentDepth text with
  | none => .error .malformed
  | some doc => Module.ofDocument doc

/-- The document that holds a module. -/
def Module.toDocument (m : Module) : Json :=
  .obj [("ir_version", .ofNat formatVersion), ("format", .str formatName), ("module", m.toJson)]

/-- Writes a well-formed module as a document. -/
def Module.write (m : Module) : Except (List ModuleDefect) String :=
  if m.isValid then .ok m.toDocument.pretty else .error m.defects

end ProtoScript.Ir
