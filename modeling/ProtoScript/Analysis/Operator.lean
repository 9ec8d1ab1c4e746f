import ProtoScript.Analysis.Name

set_option autoImplicit false

/-!
# Operators, elements and casts

The rules by which the type of an expression follows from the types of its parts. A part without a
type has been reported already, so nothing is said about what is built from it.
-/

namespace ProtoScript.Analysis

/-- Reports an expression that cannot be stored as a value of the given type. -/
def expectAssignable (e : Expr) (expected : Ty) : Check Unit := do
  match e.type? with
  | none => pure ()
  | some actual => expect (← isAssignable actual expected) (.typeMismatch expected actual) e.span

/-- Reports a condition that is no `bool`. -/
def expectCondition (e : Expr) : Check Unit :=
  match e.type? with
  | none => pure ()
  | some ty => expect ty.isBool (.conditionNotBool ty) e.span

/-- The note of a literal; a whole number is a `byte` where one is expected. -/
def noteLiteral (n : Note) (value : Literal) (expected : Option Ty) : Check Note := do
  match value, expected with
  | .int v, some (.prim .byte) =>
    expect (Constant.fitByte? v.toInt).isSome (.byteLiteral v.toInt) n.span
    return typed n .byte
  | _, _ => return typed n value.ty

/-- The note of the receiver. -/
def noteSelf (n : Note) : Check Note := do
  match (← read).proto? with
  | some proto => return typed n (.named proto)
  | none =>
    report .selfOutside n.span
    return n

/-! ## Operators -/

/-- A unary operator can be applied to a type. -/
def unaryApplies : UnaryOp → Ty → Bool
  | .neg, t => t.isNumeric
  | .not, t => t.isBool
  | .bitNot, t => t.isInteger

/-- The note of a unary operation. -/
def noteUnary (n : Note) (op : UnaryOp) (operand : Option Ty) : Check Note := do
  match operand with
  | none => return n
  | some t =>
    if unaryApplies op t then return typed n t
    else
      report (.operandType op.symbol t) n.span
      return n

/-- A binary operator, not a logical one, can be applied to two operands of one type. -/
def binaryApplies (op : BinaryOp) (t : Ty) : Bool :=
  if op.isEquality then t.isScalar || t.named?.isSome
  else if op.isComparison then t.isNumeric || t.isString || t == .glyph
  else if op.isArithmetic then t.isNumeric || (op == .add && t.isString)
  else t.isInteger

/-- The type of a binary operation on operands of given types. -/
def binaryResult? (op : BinaryOp) (left right : Ty) (span : Span) : Check (Option Ty) := do
  if op.isLogical then
    if left.isBool && right.isBool then return some .bool
    report (.logicalOperands op left right) span
    return none
  else if left ≠ right then
    let related := (← isAssignable left right) || (← isAssignable right left)
    if op.isEquality && related then return some .bool
    report (.operandsDiffer op left right) span
    return none
  else if binaryApplies op left then
    return some (if op.isComparison then .bool else left)
  else
    report (.operandType op.symbol left) span
    return none

/-- The note of a binary operation. -/
def noteBinary (n : Note) (op : BinaryOp) (left right : Option Ty) : Check Note := do
  match left, right with
  | some l, some r => return { n with type? := ← binaryResult? op l r n.span }
  | _, _ => return n

/-- The note of a choice between two values: the more general of their types. -/
def noteTernary (n : Note) (thenValue elseValue : Expr) : Check Note := do
  match thenValue.type?, elseValue.type? with
  | some a, some b =>
    if ← isAssignable b a then return typed n a
    else if ← isAssignable a b then return typed n b
    else
      report (.branchesDiffer a b) elseValue.span
      return n
  | _, _ => return n

/-! ## Elements -/

/-- What an index into a value of the given type is expected to be; positions stand for
themselves. -/
def expectedIndex : Ty → Option Ty
  | .map k _ => some k
  | _ => none

/-- The type of an element of a value of type `object`. -/
def elementAt? (object : Ty) (index : Expr) (span : Span) : Check (Option Ty) := do
  match object with
  | .map k v =>
    expectAssignable index k
    return some v
  | .prim .string | .list _ | .view _ | .slice _ =>
    match index.type? with
    | some t => expect (t == .int) (.indexType t) index.span
    | none => pure ()
    return object.element?
  | _ =>
    report (.notIndexable object) span
    return none

/-! ## Casts -/

/-- A name in a constant expression is that of a local variable. -/
def mentionsLocal (s : Scopes) : Expr → Bool
  | .ident _ name => (s.resolve? name).isSome
  | .member _ e _ | .unary _ _ e | .cast _ e _ => mentionsLocal s e
  | .binary _ _ l r => mentionsLocal s l || mentionsLocal s r
  | .ternary _ c a b => mentionsLocal s c || mentionsLocal s a || mentionsLocal s b
  | _ => false

/-- Reports a cast of a constant that its target type cannot represent. -/
def expectRepresentable (value : Expr) (target : Ty) (span : Span) : Check Unit := do
  if mentionsLocal (← get).scopes value then return
  match value.evaluate? (← read).consts with
  | none => pure ()
  | some v => expect (v.cast? target).isSome (.castRange v target) span

/-- The note of a cast. -/
def noteCast (n : Note) (value : Expr) (target : Ty) : Check Note := do
  match value.type? with
  | none => return n
  | some source =>
    if source.isNumeric && target.isNumeric then
      expectRepresentable value target n.span
      return typed n target
    else
      report (.invalidCast source target) n.span
      return n

/-! ## Literals of containers -/

/-- The type that all items have to have, once an item of a given type is met. -/
def unify (shared : Option Ty) (ty : Ty) (problem : Ty → Problem) (span : Span) :
    Check (Option Ty) := do
  match shared with
  | none => return some ty
  | some t =>
    expect (← isAssignable ty t) (problem t) span
    return some t

/-- The type of a list literal whose items have the type `elem`. -/
def listType? (items : List Expr) (elem : Option Ty) : Option Ty :=
  match items, elem with
  | _, some e => some (.list e)
  | [], none => some (.list .void)
  | _, none => none

/-- The type of a map literal whose keys and values have the given types. -/
def mapType? (entries : List (Expr × Expr)) (key value : Option Ty) : Option Ty :=
  match entries, key, value with
  | _, some k, some v => some (.map k v)
  | [], _, _ => some (.map .void .void)
  | _, _, _ => none

/-- The element type of an expected list. -/
def expectedItem : Option Ty → Option Ty
  | some (.list t) => some t
  | _ => none

/-- The key type and value type of an expected map. -/
def expectedEntry : Option Ty → Option Ty × Option Ty
  | some (.map k v) => (some k, some v)
  | _ => (none, none)

end ProtoScript.Analysis
