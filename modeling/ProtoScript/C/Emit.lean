import ProtoScript.C.Container
import ProtoScript.C.Infer
import ProtoScript.C.Text
import ProtoScript.Text.Suggest

set_option autoImplicit false

/-!
# Functions in C

Every temporary and variable of a function becomes a local variable at the top of the C function,
every block a label, and every instruction a few lines. In a function that handles exceptions the
locals are `volatile`, so that they keep their values when control comes back to the handler.
-/

namespace ProtoScript.C

/-- What the functions of a module need besides themselves. -/
structure Needs where
  containers : Containers := []
  /-- The functions outside the program, each name with its declaration, in the order of use. -/
  foreign : List (String × String) := []
  /-- The prototypes and methods for which a dispatcher is needed. -/
  dispatchers : List (String × String) := []

/-- What is fixed while a function is written. -/
structure Context where
  module : Ir.Module
  function : Ir.Function
  types : FunctionTypes

/-- A function being written. -/
structure Draft where
  needs : Needs
  /-- The lines of the body, in order. -/
  lines : Lines := []
  /-- The number of handlers installed so far. -/
  handlers : Nat := 0

/-- A step of writing a function. -/
abbrev Emit := ReaderT Context (StateT Draft (Except Error))

/-- The C type of a type; the containers it is built from are needed. -/
def needType (needs : Needs) (t : Ty) : Except Error (String × Needs) :=
  if isRepresentable t then
    .ok (spell t, { needs with containers := needs.containers.register t })
  else .error (.unsupportedType t)

/-- The C type of a type. -/
def cType (t : Ty) : Emit String := do
  let d ← get
  let (text, needs) ← needType d.needs t
  set { d with needs }
  return text

/-- Writes a line. -/
def line (text : String) : Emit Unit :=
  modify fun d => { d with lines := d.lines ++ [indent text] }

/-- Writes an assignment to a temporary. -/
def assign (dest : Ir.Temp) (value : String) : Emit Unit :=
  line (tempName dest ++ " = " ++ value ++ ";")

/-- The type of a temporary. -/
def tempType (t : Ir.Temp) : Emit Ty := do
  let c ← read
  match c.types.temp? t with
  | some ty => return ty
  | none => throw (.untypedTemp c.function.name t)

/-- The loop a temporary stands for. -/
def iteratorOf (t : Ir.Temp) : Emit Iterator := do
  let c ← read
  match c.types.iterator? t with
  | some i => return i
  | none => throw (.untypedTemp c.function.name t)

/-- The type of a variable. -/
def varType (name : String) : Emit Ty := do
  let c ← read
  match c.types.var? name with
  | some ty => return ty
  | none => throw (.unknownVariable c.function.name name)

/-- An operation that has no meaning on a type. -/
def unsupported {α : Type} (op : String) (ty : Ty) : Emit α := do
  throw (.unsupported (← read).function.name op ty)

/-! ## Expressions -/

/-- A value where one of another type is expected; only pointers to objects are converted. -/
def coerce (value : String) (source target : Ty) : String :=
  if source ≠ target && target.named?.isSome then "(" ++ spell target ++ ")(" ++ value ++ ")"
  else value

/-- A temporary where a value of the given type is expected. -/
def coerceTemp (t : Ir.Temp) (target : Ty) : Emit String := do
  return coerce (tempName t) (← tempType t) target

/-- The length of a container or string. -/
def lengthOf (object : String) (ty : Ty) : Emit String :=
  match ty with
  | .list _ | .map _ _ => pure (object ++ "->len")
  | .view _ | .slice _ => pure (object ++ ".len")
  | .prim .string => pure (call "ps_str_len" [object])
  | _ => unsupported "length" ty

/-- Two operands with an operator between them. -/
def infixText (l op r : String) : String := "(" ++ l ++ " " ++ op ++ " " ++ r ++ ")"

/-- A binary operation on operands of the given type, if it has a meaning. -/
def binaryText? (op : BinaryOp) (l r : String) (ty : Ty) : Option String :=
  let plain := infixText l op.symbol r
  match ty with
  | .named _ =>
    if op.isEquality then some (infixText ("(void*)" ++ l) op.symbol ("(void*)" ++ r)) else none
  | .prim .string =>
    if op = .add then some (call "ps_str_concat" [l, r])
    else if op.isComparison then some (infixText (call "ps_str_cmp" [l, r]) op.symbol "0")
    else none
  | .prim .float => some (if op = .mod then call "fmod" [l, r] else plain)
  | .prim .int =>
    some (match op with
      | .div => call "ps_div_int" [l, r]
      | .mod => call "ps_mod_int" [l, r]
      | .shiftLeft => call "ps_shl_int" [l, r]
      | _ => plain)
  | .prim .byte => some (if op.isComparison then plain else "(uint8_t)" ++ plain)
  | .prim _ => some plain
  | _ => none

/-- A unary operation on an operand of the given type. -/
def unaryText (op : UnaryOp) (x : String) (ty : Ty) : String :=
  match op, ty with
  | .not, _ => "!" ++ x
  | .neg, .prim .byte => "(uint8_t)(0 - " ++ x ++ ")"
  | .neg, _ => "-" ++ x
  | .bitNot, .prim .byte => "(uint8_t)~" ++ x
  | .bitNot, _ => "~" ++ x

/-- A value of one type as a value of another, if there is a conversion. -/
def castText? (value : String) (source target : Ty) : Option String :=
  if source = target then some value
  else
    match source, target with
    | .prim .int, .prim .float | .prim .byte, .prim .float => some ("(double)" ++ value)
    | .prim .byte, .prim .int => some ("(int64_t)" ++ value)
    | .prim .float, .prim .int => some (call "ps_float_to_int" [value])
    | .prim .float, .prim .byte => some (call "ps_float_to_byte" [value])
    | .prim .int, .prim .byte => some (call "ps_int_to_byte" [value])
    | _, _ => none

/-- The part of a check's name that tells the integer type. -/
def integerWord (ty : Ty) (op : String) : Emit String :=
  match ty with
  | .prim .int => pure "int"
  | .prim .byte => pure "byte"
  | _ => unsupported op ty

/-- A field of an object that is taken for a `proto`. -/
def fieldText (object : Ir.Temp) (proto field : String) : String :=
  "((" ++ spell (.named proto) ++ ")" ++ tempName object ++ ")->" ++ fieldName field

/-- A function of a container type. -/
def containerCall (ty : Ty) (function : String) (args : List String) : String :=
  call (containerName ty ++ "_" ++ function) args

/-! ## Calls -/

/-- The arguments of a call; those without a parameter stand for themselves. -/
def callArgs : List Ir.Temp → List Ty → Emit (List String)
  | [], _ => return []
  | t :: rest, [] => do return tempName t :: (← callArgs rest [])
  | t :: rest, param :: params => do
    let arg ← coerceTemp t param
    return arg :: (← callArgs rest params)

/-- Writes a call and stores its result. -/
def finishCall (dest : Option Ir.Temp) (text : String) (ret : Ty) : Emit Unit := do
  match dest with
  | none => line (text ++ ";")
  | some t => assign t (coerce text ret (← tempType t))

/-- The C types of temporaries. -/
def cTypes : List Ir.Temp → Emit (List String)
  | [] => return []
  | t :: rest => do
    let text ← cType (← tempType t)
    return text :: (← cTypes rest)

/-- Declares a function outside the program, unless it has been declared. -/
def declareForeign (name ret : String) (params : List String) : Emit Unit :=
  modify fun d =>
    if (d.needs.foreign.lookup name).isSome then d
    else
      let text := "extern " ++ ret ++ " " ++ name ++ "(" ++ paramList params ++ ");"
      { d with needs := { d.needs with foreign := d.needs.foreign ++ [(name, text)] } }

/-- Asks for the dispatcher of a method. -/
def needDispatcher (proto method : String) : Emit Unit :=
  modify fun d =>
    if (proto, method) ∈ d.needs.dispatchers then d
    else { d with needs := { d.needs with dispatchers := d.needs.dispatchers ++ [(proto, method)] } }

/-- Writes a call of a method, through a dispatcher if prototypes below differ. -/
def emitMethodCall (dest : Option Ir.Temp) (receiver : Ir.Temp) (proto method : String)
    (args : List Ir.Temp) : Emit Unit := do
  let m := (← read).module
  let base ← methodBody m proto method
  let (name, receiverType) ← if needsDispatch m proto method then do
      needDispatcher proto method
      pure (dispatcherName proto method, Ty.named proto)
    else pure (base.cName, base.params.head?.getD (.named proto))
  let self ← coerceTemp receiver receiverType
  let args ← callArgs args base.params.tail
  finishCall dest (call name (self :: args)) base.ret

/-! ## Objects and containers -/

/-- What a field of a new object starts with, if it is not zero: strings are empty, lists and maps
exist. -/
def initialField (ty : Ty) : Emit (Option String) := do
  match ty with
  | .list _ | .map _ _ =>
    let _ ← cType ty
    return some (containerCall ty "new" [])
  | .prim .string => return some "\"\""
  | _ => return none

/-- Writes the initial values of an object's fields. -/
def emitFields (object : Ir.Temp) : List Ir.Field → Emit Unit
  | [] => pure ()
  | f :: rest => do
    match ← initialField f.ty with
    | none => pure ()
    | some value => line (tempName object ++ "->" ++ fieldName f.name ++ " = " ++ value ++ ";")
    emitFields object rest

/-- Writes a new object. -/
def emitNewObject (dest : Ir.Temp) (proto : String) : Emit Unit := do
  let l ← layout (← read).module proto
  assign dest ("(" ++ spell (.named proto) ++ ")" ++
    call "ps_new_object" ["sizeof(" ++ structName proto ++ ")", toString l.id])
  emitFields dest l.fields

/-- Writes a window over a list, another window or a string. -/
def emitWindow (dest source start stop : Ir.Temp) (ty : Ty) : Emit Unit := do
  let sourceType ← tempType source
  let _ ← cType ty
  let text := tempName source
  let len ← lengthOf text sourceType
  let ptr ← match sourceType with
    | .list _ => pure (text ++ "->ptr")
    | .view _ | .slice _ => pure (text ++ ".ptr")
    | .prim .string => pure (call "ps_str_decode" [text])
    | _ => unsupported "make_view" sourceType
  let (s, e) := (tempName start, tempName stop)
  line (call "ps_check_range" [s, e, len] ++ ";")
  assign dest ("(" ++ containerName ty ++ ")" ++
    braces (ptr ++ " + " ++ s ++ ", " ++ e ++ " - " ++ s))

/-- Writes one line for each item of a list. -/
def emitItems (ty elem : Ty) (list : Ir.Temp) : List Ir.Temp → Emit Unit
  | [] => pure ()
  | t :: rest => do
    line (containerCall ty "push" [tempName list, ← coerceTemp t elem] ++ ";")
    emitItems ty elem list rest

/-- Writes one line for each entry of a map. -/
def emitEntries (ty key value : Ty) (map : Ir.Temp) : List (Ir.Temp × Ir.Temp) → Emit Unit
  | [] => pure ()
  | (k, v) :: rest => do
    let k ← coerceTemp k key
    let v ← coerceTemp v value
    line (containerCall ty "set" [tempName map, k, v] ++ ";")
    emitEntries ty key value map rest

/-- Writes the reading of an element. -/
def emitIndexGet (dest object index : Ir.Temp) : Emit Unit := do
  let ty ← tempType object
  let (o, i) := (tempName object, tempName index)
  match ty with
  | .list _ => assign dest (o ++ "->ptr[" ++ i ++ "]")
  | .view _ | .slice _ => assign dest (o ++ ".ptr[" ++ i ++ "]")
  | .map _ _ =>
    let _ ← cType ty
    assign dest (containerCall ty "get" [o, i])
  | .prim .string => assign dest (call "ps_str_at" [o, i])
  | _ => unsupported "index_get" ty

/-- Writes the storing of an element. -/
def emitIndexSet (object index value : Ir.Temp) : Emit Unit := do
  let ty ← tempType object
  let v ← coerceTemp value (ty.element?.getD .void)
  let (o, i) := (tempName object, tempName index)
  match ty with
  | .list _ => line (o ++ "->ptr[" ++ i ++ "] = " ++ v ++ ";")
  | .slice _ => line (o ++ ".ptr[" ++ i ++ "] = " ++ v ++ ";")
  | .map _ _ =>
    let _ ← cType ty
    line (containerCall ty "set" [o, i, v] ++ ";")
  | _ => unsupported "index_set" ty

/-- The next item of a loop and its type. -/
def nextItem (it : Iterator) (position : String) : Emit (String × Ty) := do
  let ty := it.iterableType
  let src := tempName it.iterable
  match it.kind, ty with
  | .keys, .map k _ => return (src ++ "->keys[" ++ position ++ "++]", k)
  | .keys, _ => return (position ++ "++", .int)
  | .values, .map _ v => return (src ++ "->values[" ++ position ++ "++]", v)
  | .values, .list t => return (src ++ "->ptr[" ++ position ++ "++]", t)
  | .values, .view t | .values, .slice t => return (src ++ ".ptr[" ++ position ++ "++]", t)
  | .values, .prim .string => return (call "ps_str_at" [src, position ++ "++"], .glyph)
  | .values, _ => unsupported "iter_next" ty

/-! ## Instructions -/

/-- Writes a safety check. -/
def emitCheck : Ir.Check → Emit Unit
  | .overflow op left right ty => do
    let word ← match op with
      | .add => pure "add"
      | .sub => pure "sub"
      | .mul => pure "mul"
      | _ => unsupported "check_overflow" ty
    let width ← integerWord ty "check_overflow"
    line (call ("ps_check_" ++ word ++ "_" ++ width) [tempName left, tempName right] ++ ";")
  | .negOverflow operand ty => do
    let width ← integerWord ty "check_neg_overflow"
    line (call ("ps_check_neg_" ++ width) [tempName operand] ++ ";")
  | .divZero divisor => line (call "ps_check_div_zero" [tempName divisor] ++ ";")
  | .shiftRange amount width =>
    line (call "ps_check_shift" [tempName amount, toString width] ++ ";")
  | .indexBounds object index => do
    let len ← lengthOf (tempName object) (← tempType object)
    line (call "ps_check_index" [tempName index, len] ++ ";")
  | .mapKey map key => do
    let ty ← tempType map
    let _ ← cType ty
    line (call "ps_check_key" [containerCall ty "has" [tempName map, tempName key]] ++ ";")

/-- Writes an instruction. -/
def emitInstr : Ir.Instr → Emit Unit
  | .const dest value => assign dest (constant value)
  | .copy dest src => do assign dest (← coerceTemp src (← tempType dest))
  | .varDecl _ _ => pure ()
  | .loadVar dest name => assign dest (varName name)
  | .storeVar name src => do
    let value ← coerceTemp src (← varType name)
    line (varName name ++ " = " ++ value ++ ";")
  | .binary dest op left right => do
    let ty ← tempType left
    match binaryText? op (tempName left) (tempName right) ty with
    | some value => assign dest value
    | none => unsupported "bin_op" ty
  | .unary dest op operand => do
    assign dest (unaryText op (tempName operand) (← tempType operand))
  | .select dest cond thenValue elseValue => do
    let ty ← tempType dest
    let a ← coerceTemp thenValue ty
    let b ← coerceTemp elseValue ty
    assign dest (tempName cond ++ " ? " ++ a ++ " : " ++ b)
  | .cast dest src target => do
    match castText? (tempName src) (← tempType src) target with
    | some value => assign dest value
    | none => unsupported "cast" target
  | .callStatic dest callee args => do
    let c ← read
    match function? c.module callee with
    | none => throw (.unknownFunction c.function.name callee)
    | some f =>
      let args ← callArgs args (f.params.map (·.ty))
      finishCall dest (call (functionName callee) args) f.ret
  | .callMethod dest receiver proto method args => emitMethodCall dest receiver proto method args
  | .callForeign dest module function args ret => do
    let name := foreignName module function
    let params ← cTypes args
    declareForeign name (← cType ret) params
    finishCall dest (call name (args.map tempName)) ret
  | .newObject dest proto => emitNewObject dest proto
  | .cloneObject dest src proto => do
    let _ ← layout (← read).module Builtin.object
    assign dest ("(" ++ spell (.named proto) ++ ")" ++
      call DefaultMethod.clone.cName
        ["(" ++ spell (.named Builtin.object) ++ ")" ++ tempName src])
  | .fieldGet dest object proto field => do
    let _ ← fieldType (← read).module proto field
    assign dest (fieldText object proto field)
  | .fieldSet object proto field value => do
    let ty ← fieldType (← read).module proto field
    let value ← coerceTemp value ty
    line (fieldText object proto field ++ " = " ++ value ++ ";")
  | .indexGet dest object index => emitIndexGet dest object index
  | .indexSet object index value => emitIndexSet object index value
  | .makeList dest elem items => do
    let ty := Ty.list elem
    let _ ← cType ty
    assign dest (containerCall ty "new" [])
    emitItems ty elem dest items
  | .makeMap dest key value entries => do
    let ty := Ty.map key value
    let _ ← cType ty
    assign dest (containerCall ty "new" [])
    emitEntries ty key value dest entries
  | .makeView dest source start stop elem => emitWindow dest source start stop (.view elem)
  | .makeSlice dest source start stop elem => emitWindow dest source start stop (.slice elem)
  | .listPush list value => do
    let ty ← tempType list
    let v ← coerceTemp value (ty.element?.getD .void)
    let _ ← cType ty
    line (containerCall ty "push" [tempName list, v] ++ ";")
  | .listPop dest list => do
    let ty ← tempType list
    let _ ← cType ty
    assign dest (containerCall ty "pop" [tempName list])
  | .listClear list => line (tempName list ++ "->len = 0;")
  | .mapHas dest map key => do
    let ty ← tempType map
    let _ ← cType ty
    assign dest (containerCall ty "has" [tempName map, tempName key])
  | .mapRemove map key => do
    let ty ← tempType map
    let _ ← cType ty
    line (containerCall ty "remove" [tempName map, tempName key] ++ ";")
  | .length dest object => do assign dest (← lengthOf (tempName object) (← tempType object))
  | .iterBegin dest _ _ _ => assign dest "0"
  | .iterNext dest iter => do
    let it ← iteratorOf iter
    let (value, ty) ← nextItem it (tempName iter)
    assign dest (coerce value ty it.elem)
  | .print value => do
    let ty ← tempType value
    match ty with
    | .prim p =>
      if p = .void then unsupported "print" ty
      else line (call ("ps_print_" ++ p.name) [tempName value] ++ ";")
    | _ => unsupported "print" ty
  | .throw value => line (call "ps_throw" [tempName value] ++ ";")
  | .setupTry handler => do
    let slot := "ps_try" ++ toString (← get).handlers
    modify fun d => { d with handlers := d.handlers + 1 }
    line (slot ++ ".prev = ps_handlers;")
    line ("ps_handlers = &" ++ slot ++ ";")
    line ("if (setjmp(" ++ slot ++ ".env)) goto " ++ labelName handler ++ ";")
  | .endTry => line "ps_handlers = ps_handlers->prev;"
  | .catchValue dest => do
    let c ← cType (← tempType dest)
    assign dest ("(" ++ c ++ ")ps_current_exception")
  | .instanceOf dest object proto => do
    let l ← layout (← read).module proto
    assign dest (call "ps_instance_of" [tempName object, toString l.id])
  | .check c => emitCheck c

/-- Writes a jump. -/
def emitGoto (label : String) : Emit Unit := line ("goto " ++ labelName label ++ ";")

/-- Writes a jump that depends on a condition. -/
def emitBranch (condition thenTarget elseTarget : String) : Emit Unit := do
  line ("if (" ++ condition ++ ") goto " ++ labelName thenTarget ++ ";")
  emitGoto elseTarget

/-- Writes a terminator. -/
def emitTerminator : Ir.Terminator → Emit Unit
  | .ret value => do
    let value ← coerceTemp value (← read).function.ret
    line ("return " ++ value ++ ";")
  | .retVoid => line "return;"
  | .jump target => emitGoto target
  | .branch cond thenTarget elseTarget => emitBranch (tempName cond) thenTarget elseTarget
  | .branchIter iter body done => do
    let it ← iteratorOf iter
    let len ← lengthOf (tempName it.iterable) it.iterableType
    emitBranch (tempName iter ++ " < " ++ len) body done
  | .unreachable => line "abort();"

/-- Writes the blocks of a function. -/
def emitBlocks : List Ir.Block → Emit Unit
  | [] => pure ()
  | b :: rest => do
    modify fun d => { d with lines := d.lines ++ [labelName b.label ++ ":;"] }
    b.instrs.forM emitInstr
    emitTerminator b.terminator
    emitBlocks rest

/-! ## Functions -/

/-- What a local variable of the given type starts with. -/
def zeroValue : Ty → String
  | .prim .bool => "false"
  | .prim .string => "\"\""
  | .prim _ => "0"
  | .named _ | .list _ | .map _ _ => "NULL"
  | .view _ | .slice _ => "\x7b0\x7d"

/-- The declarations of local variables, given by name in C and type. -/
def localLines (qualifier : String) : List (String × Ty) → Emit Lines
  | [] => return []
  | (name, ty) :: rest => do
    let c ← cType ty
    let text := indent (c ++ qualifier ++ " " ++ name ++ " = " ++ zeroValue ty ++ ";")
    return text :: (← localLines qualifier rest)

/-- The head of a C function. -/
def signature (needs : Needs) (f : Ir.Function) : Except Error (String × Needs) := do
  let (ret, needs) ← needType needs f.ret
  let (params, needs) ← f.params.foldlM (fun (params, needs) p => do
    let (text, needs) ← needType needs p.ty
    return (params ++ [text ++ " " ++ varName p.name], needs)) (([] : List String), needs)
  return ("static " ++ ret ++ " " ++ functionName f.name ++ "(" ++ paramList params ++ ")", needs)

/-- Temporaries in the order of their numbers. -/
def sortTemps {α : Type} (temps : List (Ir.Temp × α)) : List (Ir.Temp × α) :=
  temps.mergeSort fun a b => a.1 ≤ b.1

/-- The variables of a function that are no parameters, in the order of their names. -/
def localVariables (f : Ir.Function) (types : FunctionTypes) : List (String × Ty) :=
  (types.vars.filter fun v => !f.isParam v.1).mergeSort fun a b => !decide (b.1 < a.1)

/-- Writes the body of a function; gives the declarations of its local variables. -/
def emitBody : Emit Lines := do
  let c ← read
  emitBlocks c.function.blocks
  let handlers := (← get).handlers
  let qualifier := if handlers = 0 then "" else " volatile"
  let temps ← localLines qualifier ((sortTemps c.types.temps).map fun (t, ty) => (tempName t, ty))
  let iterators := (sortTemps c.types.iterators).map fun (t, _) =>
    indent ("int64_t" ++ qualifier ++ " " ++ tempName t ++ " = 0;")
  let vars ← localLines qualifier
    ((localVariables c.function c.types).map fun (name, ty) => (varName name, ty))
  let slots := (List.range handlers).map fun n => indent ("ps_handler ps_try" ++ toString n ++ ";")
  return temps ++ iterators ++ vars ++ slots

/-- The C definition of a function: its head and its lines. -/
def emitFunction (m : Ir.Module) (needs : Needs) (f : Ir.Function) :
    Except Error (String × Lines × Needs) := do
  let (head, needs) ← signature needs f
  let types ← inferFunction m f
  let (locals, draft) ← (emitBody.run { module := m, function := f, types }).run { needs }
  return (head, [head ++ " \x7b"] ++ locals ++ draft.lines ++ ["\x7d"], draft.needs)

end ProtoScript.C
