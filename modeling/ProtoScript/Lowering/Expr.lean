import ProtoScript.Constant.Arith
import ProtoScript.Lowering.Builder

set_option autoImplicit false

/-!
# Lowering expressions

An expression becomes instructions that leave its value in a temporary. Safety checks are written right
before the operation they guard. A new instance has to run the initial values of its fields, which
are expressions of other declarations; how to write one is therefore a parameter of `lowerExpr?`, and
`newInstance` supplies it up to a depth.
-/

namespace ProtoScript.Lowering

/-! ## Single operations -/

/-- The constant of a literal; a whole number is a `byte` where the checker made it one. -/
def literalConstant (ty? : Option Ty) (value : Literal) : Constant :=
  match value, ty? with
  | .int v, some (.prim .byte) => .byte ((Constant.fitByte? v.toInt).getD 0)
  | _, _ => value.toConstant

/-- The check that an operation on integers of the given type needs. -/
def checkFor? (op : BinaryOp) (left right : Ir.Temp) (ty : Ty) : Option Ir.Check :=
  if ty.isInteger then
    match op with
    | .add | .sub | .mul => some (.overflow op left right ty)
    | .div | .mod => some (.divZero right)
    | .shiftLeft | .shiftRight => some (.shiftRange right (if ty = .byte then 8 else 64))
    | _ => none
  else none

/-- Writes an operation on operands of the given type. -/
def emitBinary (op : BinaryOp) (left right : Ir.Temp) (ty : Ty) : Lower Ir.Temp := do
  match checkFor? op left right ty with
  | some c => emit (.check c)
  | none => pure ()
  emitValue (.binary · op left right)

/-- Writes a unary operation on an operand of the given type. -/
def emitUnary (op : UnaryOp) (operand : Ir.Temp) (ty : Ty) : Lower Ir.Temp := do
  if op == .neg && ty.isInteger then
    emit (.check (.negOverflow operand ty))
  emitValue (.unary · op operand)

/-- Writes the value of something that is no local variable. -/
def emitTarget (newInstance : String → Lower Ir.Temp) (name : String) :
    Option ValueTarget → Lower Ir.Temp
  | some (.constant value) => emitValue (.const · value)
  | some (.prototype proto) => newInstance proto
  | _ => fail (.unresolvedName name)

/-- The type is that of a map. -/
def isMap : Ty → Bool
  | .map _ _ => true
  | _ => false

/-- The check before an element is read. -/
def elementCheck (ty : Ty) (object index : Ir.Temp) : Ir.Check :=
  if isMap ty then .mapKey object index else .indexBounds object index

/-- The right operand of a logical operator can be computed whether it is needed or not. -/
def isTrivial : Expr → Lower Bool
  | .literal .. => pure true
  | .ident _ name => do return (← varOf? name).isSome
  | _ => pure false

/-- What a window or list of the given type holds. -/
def itemType (ty : Ty) : Ty := ty.element?.getD .void

/-- Writes a call of a container's method. -/
def emitContainerCall (n : Note) (method : ContainerMethod) (object : Ir.Temp)
    (args : List Ir.Temp) : Lower (Option Ir.Temp) := do
  match method, args with
  | .push, value :: _ =>
    emit (.listPush object value)
    return none
  | .pop, _ => return some (← emitValue (.listPop · object))
  | .length, _ => return some (← emitValue (.length · object))
  | .view, start :: stop :: _ =>
    match n.type? with
    | some ty => return some (← emitValue (.makeView · object start stop (itemType ty)))
    | none => fail (.missingType n.span)
  | .slice, start :: stop :: _ =>
    match n.type? with
    | some ty => return some (← emitValue (.makeSlice · object start stop (itemType ty)))
    | none => fail (.missingType n.span)
  | .clear, _ =>
    emit (.listClear object)
    return none
  | .has, key :: _ => return some (← emitValue (.mapHas · object key))
  | .remove, key :: _ =>
    emit (.mapRemove object key)
    return none
  | _, _ => fail (.unresolvedCall n.span)

/-- Writes one of the calls that take their arguments and no receiver of their own. -/
def emitPlainCall (n : Note) (target : CallTarget) (hasResult : Bool) (args : List Ir.Temp) :
    Lower (Option Ir.Temp) := do
  match target with
  | .function name => emitResult hasResult (.callStatic · name args)
  | .print =>
    args.forM fun value => emit (.print value)
    return none
  | .foreign module name ret => emitResult (!ret.isVoid) (.callForeign · module name args ret)
  | _ => fail (.unresolvedCall n.span)

/-- Writes a call on a receiver. -/
def emitMethodCall (n : Note) (target : CallTarget) (hasResult : Bool) (receiver : Ir.Temp)
    (args : List Ir.Temp) : Lower (Option Ir.Temp) := do
  match target with
  | .method proto method _ => emitResult hasResult (.callMethod · receiver proto method args)
  | .copyInstance proto => return some (← emitValue (.cloneObject · receiver proto))
  | .container method => emitContainerCall n method receiver args
  | _ => fail (.unresolvedCall n.span)

/-- The result of an expression that has to have one. -/
def valueOf (e : Expr) : Option Ir.Temp → Lower Ir.Temp
  | some t => pure t
  | none => fail (.voidValue e.span)

/-- The target of a call and whether it gives a value. -/
def callOf (n : Note) : Lower (CallTarget × Bool) :=
  match n.call?, n.type? with
  | none, _ => fail (.unresolvedCall n.span)
  | some _, none => fail (.missingType n.span)
  | some target, some ty => pure (target, !ty.isVoid)

/-- Writes the start of a logical operation whose right operand may not be computed: the value so
far goes into a variable, and control to the right operand or behind it. Gives the variable and the
two labels. -/
def startLogical (op : BinaryOp) (left : Ir.Temp) : Lower (String × String × String) := do
  let joined ← declareJoin .bool
  emit (.storeVar joined left)
  let rhs ← freshLabel "logic_rhs"
  let done ← freshLabel "logic_end"
  endWith (if op = .and then .branch left rhs done else .branch left done rhs)
  return (joined, rhs, done)

/-! ## Expressions -/

mutual

/-- Writes an expression; a call that gives no value leaves none. -/
def lowerExpr? (newInstance : String → Lower Ir.Temp) : Expr → Lower (Option Ir.Temp)
  | .literal n v => do return some (← emitValue (.const · (literalConstant n.type? v)))
  | .ident n name => do
    match ← varOf? name with
    | some var => return some (← emitValue (.loadVar · var))
    | none => return some (← emitTarget newInstance name n.value?)
  | .self _ => do return some (← emitValue (.loadVar · "self"))
  | .unary _ op e => do
    let ty ← typeOf e
    let t ← valueOf e (← lowerExpr? newInstance e)
    return some (← emitUnary op t ty)
  | .binary _ op l r => do
    if op.isLogical then
      let a ← valueOf l (← lowerExpr? newInstance l)
      if ← isTrivial r then
        let b ← valueOf r (← lowerExpr? newInstance r)
        return some (← emitValue fun t => if op = .and then .select t a b a else .select t a a b)
      else
        let (joined, rhs, done) ← startLogical op a
        startBlock rhs
        let b ← valueOf r (← lowerExpr? newInstance r)
        emit (.storeVar joined b)
        jump done
        startBlock done
        return some (← emitValue (.loadVar · joined))
    else
      let ty ← typeOf l
      let a ← valueOf l (← lowerExpr? newInstance l)
      let b ← valueOf r (← lowerExpr? newInstance r)
      return some (← emitBinary op a b ty)
  | .ternary n c x y => do
    let ty ← typeOf (.ternary n c x y)
    let cond ← valueOf c (← lowerExpr? newInstance c)
    let joined ← declareJoin ty
    let thenLabel ← freshLabel "tern_then"
    let elseLabel ← freshLabel "tern_else"
    let done ← freshLabel "tern_end"
    endWith (.branch cond thenLabel elseLabel)
    startBlock thenLabel
    let a ← valueOf x (← lowerExpr? newInstance x)
    emit (.storeVar joined a)
    jump done
    startBlock elseLabel
    let b ← valueOf y (← lowerExpr? newInstance y)
    emit (.storeVar joined b)
    jump done
    startBlock done
    return some (← emitValue (.loadVar · joined))
  | .call n _ args => do
    let (target, hasResult) ← callOf n
    match target with
    | .newInstance proto => return some (← newInstance proto)
    | .function _ | .print | .foreign .. =>
      emitPlainCall n target hasResult (← lowerExprs newInstance args)
    | _ => fail (.unresolvedCall n.span)
  | .methodCall n receiver _ args => do
    let (target, hasResult) ← callOf n
    match target with
    | .newInstance proto => return some (← newInstance proto)
    | .function _ | .print => emitPlainCall n target hasResult (← lowerExprs newInstance args)
    | .foreign .. =>
      -- A method of a handle gets the handle first; a module is no value.
      if receiver.type?.isSome then
        let handle ← valueOf receiver (← lowerExpr? newInstance receiver)
        emitPlainCall n target hasResult (handle :: (← lowerExprs newInstance args))
      else emitPlainCall n target hasResult (← lowerExprs newInstance args)
    | .copyInstance _ =>
      let object ← valueOf receiver (← lowerExpr? newInstance receiver)
      emitMethodCall n target hasResult object []
    | _ =>
      let object ← valueOf receiver (← lowerExpr? newInstance receiver)
      emitMethodCall n target hasResult object (← lowerExprs newInstance args)
  | .member n object name => do
    match n.value? with
    | some (.constant value) => return some (← emitValue (.const · value))
    | some (.field proto field) =>
      let t ← valueOf object (← lowerExpr? newInstance object)
      return some (← emitValue (.fieldGet · t proto field))
    | _ => fail (.unresolvedName name)
  | .index _ object i => do
    let ty ← typeOf object
    let a ← valueOf object (← lowerExpr? newInstance object)
    let b ← valueOf i (← lowerExpr? newInstance i)
    emit (.check (elementCheck ty a b))
    return some (← emitValue (.indexGet · a b))
  | .cast _ e target => do
    let t ← valueOf e (← lowerExpr? newInstance e)
    return some (← emitValue (.cast · t target))
  | .list n items => do
    let ty ← typeOf (.list n items)
    let ts ← lowerExprs newInstance items
    return some (← emitValue (.makeList · (itemType ty) ts))
  | .map n entries => do
    let ty ← typeOf (.map n entries)
    let ts ← lowerEntries newInstance entries
    return some (← emitValue (.makeMap · (ty.key?.getD .void) (itemType ty) ts))

/-- Writes expressions in order; each has to have a value. -/
def lowerExprs (newInstance : String → Lower Ir.Temp) : List Expr → Lower (List Ir.Temp)
  | [] => return []
  | e :: rest => do
    let t ← valueOf e (← lowerExpr? newInstance e)
    return t :: (← lowerExprs newInstance rest)

/-- Writes the entries of a map in order. -/
def lowerEntries (newInstance : String → Lower Ir.Temp) :
    List (Expr × Expr) → Lower (List (Ir.Temp × Ir.Temp))
  | [] => return []
  | (k, v) :: rest => do
    let a ← valueOf k (← lowerExpr? newInstance k)
    let b ← valueOf v (← lowerExpr? newInstance v)
    return (a, b) :: (← lowerEntries newInstance rest)

end

/-- Writes an expression that has to have a value. -/
def lowerExpr (newInstance : String → Lower Ir.Temp) (e : Expr) : Lower Ir.Temp := do
  valueOf e (← lowerExpr? newInstance e)

/-! ## New instances -/

/-- The initial value of a field. -/
def initialValue? (prototypes : List PrototypeDecl) (f : FieldInfo) : Option Expr := do
  let d ← prototypes.find? fun d => d.name == f.owner
  let field ← d.fields.find? fun g => g.name == f.name
  field.init

/-- Writes the initial values of fields into an object. -/
def initFields (newInstance : String → Lower Ir.Temp) (proto : String) (object : Ir.Temp) :
    List FieldInfo → Lower Unit
  | [] => pure ()
  | f :: rest => do
    match initialValue? (← read).prototypes f with
    | none => pure ()
    | some e =>
      let value ← withoutLocals (lowerExpr newInstance e)
      emit (.fieldSet object proto f.name value)
    initFields newInstance proto object rest

/-- Writes a new instance with the initial values of its fields, those of the root first. Initial
values that need new instances themselves are followed up to `depth` levels. -/
def newInstance : (depth : Nat) → (proto : String) → Lower Ir.Temp
  | 0, proto => fail (.endlessInstance proto)
  | depth + 1, proto => do
    let object ← emitValue (.newObject · proto)
    let layout := (← read).hierarchy.layout proto
    initFields (newInstance depth) proto object (layout.filter (·.hasInit))
    return object

end ProtoScript.Lowering
