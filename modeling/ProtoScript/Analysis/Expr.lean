import ProtoScript.Analysis.Call
import ProtoScript.Analysis.Operator

set_option autoImplicit false

/-!
# Checking expressions

`checkExpr` gives every node the type it has and what it resolves to. It gets the type that the
context expects; only literals heed it: a whole number can be a `byte`, an empty list or map takes
the expected type.
-/

namespace ProtoScript.Analysis

/-- The expression is a whole number, which can adapt to the other operand. -/
def isIntLiteral : Expr → Bool
  | .literal _ (.int _) => true
  | _ => false

/-- Reports a call of `print` on anything but one scalar. -/
def expectPrintable : List Expr → Check Unit
  | [e] =>
    match e.type? with
    | none => pure ()
    | some ty => expect ty.isScalar (.notPrintable ty) e.span
  | _ => pure ()

mutual

/-- Checks an expression where the context expects a given type. -/
def checkExpr (expected : Option Ty) : Expr → Check Expr
  | .literal n v => do return .literal (← noteLiteral n v expected) v
  | .ident n name => do return .ident (← noteName n name) name
  | .self n => do return .self (← noteSelf n)
  | .unary n op e => do
    let e ← checkExpr none e
    return .unary (← noteUnary n op e.type?) op e
  | .binary n op l r => do
    if isIntLiteral l && !isIntLiteral r then
      let r ← checkExpr none r
      let l ← checkExpr r.type? l
      return .binary (← noteBinary n op l.type? r.type?) op l r
    else
      let l ← checkExpr none l
      let r ← checkExpr l.type? r
      return .binary (← noteBinary n op l.type? r.type?) op l r
  | .ternary n c a b => do
    let c ← checkExpr none c
    expectCondition c
    let a ← checkExpr expected a
    let b ← checkExpr (expected <|> a.type?) b
    return .ternary (← noteTernary n a b) c a b
  | .call n name args => do
    if ← isNotCallable name then
      report (.notFunction name) n.span
      return .call n name (← checkArgs [] args)
    else if name == Builtin.print then
      expect (args.length == 1) (.printArguments args.length) n.span
      let args ← checkArgs [] args
      expectPrintable args
      return .call { n with type? := some .void, call? := some .print } name args
    else
      let callee? ← functionCallee? name n.span
      let params ← expectedArgs callee? args.length n.span
      return .call (noteCall n callee?) name (← checkArgs params args)
  | .methodCall n e method args => do
    match ← receiver? e method with
    | some (.module module) =>
      let callee? ← moduleCallee? module method n.span
      let params ← expectedArgs callee? args.length n.span
      -- The name of a module has no type.
      return .methodCall (noteCall n callee?) e.untyped method (← checkArgs params args)
    | some (.prototype proto) =>
      expect args.isEmpty (.argumentCount method 0 args.length) n.span
      let e ← checkExpr none e
      let note := { n with type? := some (.named proto), call? := some (.newInstance proto) }
      return .methodCall note e method args
    | some (.group g) =>
      reportName (.groupMethod g.name) n.span method g.memberNames
      return .methodCall n e method args
    | none =>
      let e ← checkExpr none e
      match e.type? with
      | none => return .methodCall n e method (← checkArgs [] args)
      | some ty =>
        let callee? ← methodCallee? ty method n.span
        let params ← expectedArgs callee? args.length n.span
        let args ← checkArgs params args
        trackLength e callee? n.span
        return .methodCall (noteCall n callee?) e method args
  | .member n e name => do
    match ← owner? e with
    | some (.group g) => return .member (← noteGroupMember n g name) e name
    | some (.module module) => return .member (← noteModuleMember n module name) e name
    | none =>
      let e ← checkExpr none e
      match e.type? with
      | none => return .member n e name
      | some ty => return .member (← noteMember n ty name) e name
  | .index n e i => do
    let e ← checkExpr none e
    match e.type? with
    | none => return .index n e (← checkExpr none i)
    | some ty =>
      let i ← checkExpr (expectedIndex ty) i
      return .index { n with type? := ← elementAt? ty i n.span } e i
  | .cast n e target => do
    let e ← checkExpr none e
    return .cast (← noteCast n e target) e target
  | .list n items => do
    let (items, elem) ← checkItems (expectedItem expected) items
    return .list { n with type? := listType? items elem } items
  | .map n entries => do
    let (key, value) := expectedEntry expected
    let (entries, key, value) ← checkEntries key value entries
    return .map { n with type? := mapType? entries key value } entries

/-- Checks the arguments of a call, as many of them against a parameter as there are types. -/
def checkArgs : List Ty → List Expr → Check (List Expr)
  | _, [] => return []
  | [], e :: rest => do
    let e ← checkExpr none e
    return e :: (← checkArgs [] rest)
  | ty :: params, e :: rest => do
    let e ← checkExpr (some ty) e
    expectAssignable e ty
    escape e
    return e :: (← checkArgs params rest)

/-- Checks the items of a list; also gives the type they share. -/
def checkItems (elem : Option Ty) : List Expr → Check (List Expr × Option Ty)
  | [] => return ([], elem)
  | e :: rest => do
    let e ← checkExpr elem e
    let shared ← match e.type? with
      | none => pure elem
      | some ty => do
        let shared ← unify elem ty (.listElements · ty) e.span
        escape e
        pure shared
    let (rest, shared) ← checkItems shared rest
    return (e :: rest, shared)

/-- Checks the entries of a map; also gives the types that keys and values share. -/
def checkEntries (key value : Option Ty) :
    List (Expr × Expr) → Check (List (Expr × Expr) × Option Ty × Option Ty)
  | [] => return ([], key, value)
  | (k, v) :: rest => do
    let k ← checkExpr key k
    let keyTy ← match k.type? with
      | none => pure key
      | some ty => do
        expect ty.isScalar (.mapKeyScalar ty) k.span
        unify key ty (.mapEntries .key · ty) k.span
    let v ← checkExpr value v
    let valueTy ← match v.type? with
      | none => pure value
      | some ty => unify value ty (.mapEntries .value · ty) v.span
    escape v
    let (rest, keyTy, valueTy) ← checkEntries keyTy valueTy rest
    return ((k, v) :: rest, keyTy, valueTy)

end

/-- Checks an expression that is stored as a value of the given type. -/
def checkStored (ty : Ty) (e : Expr) : Check Expr := do
  let e ← checkExpr (some ty) e
  expectAssignable e ty
  return e

/-- Checks a condition. -/
def checkCondition (e : Expr) : Check Expr := do
  let e ← checkExpr none e
  expectCondition e
  return e

end ProtoScript.Analysis
