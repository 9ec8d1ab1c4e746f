import ProtoScript.Analysis.Expr

set_option autoImplicit false

/-!
# Checking statements

Statements are checked in order. Where paths meet, what is known on all of them remains: a branch
that surely jumps away counts for nothing behind a choice, a loop body may not have run at all, and
an exception may come before anything in its body has happened.
-/

namespace ProtoScript.Analysis

/-! ## Declarations and assignments -/

/-- The number of items of a list literal. -/
def literalLength? : Expr → Option Nat
  | .list _ items => some items.length
  | _ => none

/-- Checks an expression, against a type if there is one to check against. -/
def checkAgainst (ty? : Option Ty) (e : Expr) : Check Expr :=
  match ty? with
  | some ty => checkStored ty e
  | none => checkExpr none e

/-- Checks the declaration of a variable; gives the checked initial value. -/
def checkVarDecl (span : Span) (name : String) (ty : Ty) (isConst : Bool) (init : Option Expr) :
    Check (Option Expr) := do
  let known ← checkTy ty span
  expect (!ty.containsVoid) (.variableType name ty) span
  expect (!isConst || init.isSome) (.constWithoutInit name) span
  let b : Binding := { ty, span, isConst, initialized := init.isSome }
  let (init, b) ← match init with
    | none => pure (none, b)
    | some e => do
      let e ← checkAgainst (if known && !ty.containsVoid then some ty else none) e
      let isSelf ← aliasesSelf e
      escape e
      pure (some e, { b with length? := literalLength? e, isSelf })
  match ← define name b with
  | none => pure ()
  | some previous => report (.duplicateVariable name previous.line) span
  return init

/-- Checks a value that is assigned to a target of the given type. -/
def checkAssigned (span : Span) (target : Ty) (op : Option BinaryOp) (value : Expr) :
    Check Expr := do
  match op with
  | none => checkStored target value
  | some op =>
    let value ← checkExpr (some target) value
    match value.type? with
    | none => pure ()
    | some ty =>
      match ← binaryResult? op target ty span with
      | none => pure ()
      | some result => expect (result == target) (.compoundResult op result target) span
    return value

/-- What is wrong with an assignment to a name that is no local variable. -/
def assignProblem? (c : Context) (name : String) : Option Problem :=
  if c.groups.contains name then some (.assignGroup name)
  else if (c.imports.member? name).isSome then some (.assignImported name)
  else if c.hierarchy.contains name || (c.function? name).isSome ||
      (c.imports.namespace? name).isSome then
    some (.assignName name)
  else none

/-- Checks an assignment to a name; gives the note of the name and the checked value. -/
def checkAssignName (span : Span) (n : Note) (name : String) (op : Option BinaryOp)
    (value : Expr) : Check (Note × Expr) := do
  match ← local? name with
  | none =>
    match assignProblem? (← read) name with
    | some problem => report problem span
    | none => reportUndefined name n.span
    return (n, ← checkExpr none value)
  | some b =>
    expect (!b.isConst) (.assignConst name) span
    expect (op.isNone || b.initialized) (.uninitialized name) n.span
    let value ← checkAssigned span b.ty op value
    let length? := if op.isNone then literalLength? value else none
    let isSelf ← aliasesSelf value
    modifyScopes (Scopes.update name fun b => { b with initialized := true, length?, isSelf })
    return (typed n b.ty, value)

/-- Reports an assignment to a constant field. -/
def expectMutable (target : Expr) (span : Span) : Check Unit := do
  match target.note.value? with
  | some (.field proto field) =>
    let isConst := ((← read).hierarchy.field? proto field).any (·.isConst)
    expect (!isConst) (.assignConstField proto field) span
  | _ => pure ()

/-- Values of the type can be indexed but not written into. -/
def isReadOnly : Ty → Bool
  | .prim .string | .view _ => true
  | _ => false

/-- What is wrong with an assignment to a member of a group or module. -/
def Owner.assignProblem (object : Expr) (member : String) : Owner → Problem
  | .group g => .assignGroupMember g.name member
  | .module name => .assignModuleMember (object.ident?.getD name) member

/-- Checks an assignment to a member of a value; gives the checked target and value. -/
def checkAssignMember (span : Span) (target : Expr) (op : Option BinaryOp) (value : Expr) :
    Check (Expr × Expr) := do
  let target ← checkExpr none target
  match target.type? with
  | none => return (target, ← checkExpr none value)
  | some ty =>
    expectMutable target span
    let value ← checkAssigned span ty op value
    escape value
    return (target, value)

/-- Checks an assignment to an element; gives the checked target and value. -/
def checkAssignIndex (span : Span) (n : Note) (object index : Expr) (op : Option BinaryOp)
    (value : Expr) : Check (Expr × Expr) := do
  let object ← checkExpr none object
  match object.type? with
  | none =>
    let index ← checkExpr none index
    return (.index n object index, ← checkExpr none value)
  | some ty =>
    if isReadOnly ty then
      report (.writeInto ty) span
      let index ← checkExpr none index
      return (.index n object index, ← checkExpr none value)
    else
      let index ← checkExpr (expectedIndex ty) index
      let elem? ← elementAt? ty index n.span
      let value ← match elem? with
        | some elem => checkAssigned span elem op value
        | none => checkExpr none value
      escape value
      return (.index { n with type? := elem? } object index, value)

/-- Checks an assignment; gives the checked target and value. -/
def checkAssign (span : Span) (target : Expr) (op : Option BinaryOp) (value : Expr) :
    Check (Expr × Expr) := do
  match target with
  | .ident n name =>
    let (n, value) ← checkAssignName span n name op value
    escape value
    return (.ident n name, value)
  | .member _ object member =>
    match ← owner? object with
    | some owner =>
      report (owner.assignProblem object member) span
      return (target, ← checkExpr none value)
    | none => checkAssignMember span target op value
  | .index n object index => checkAssignIndex span n object index op value
  | _ =>
    report .notAssignable span
    let value ← checkExpr none value
    escape value
    return (target, value)

/-! ## Single statements -/

/-- Checks what is returned. -/
def checkReturn (span : Span) (value : Option Expr) : Check (Option Expr) := do
  let ret := (← read).ret
  match value with
  | none =>
    expect ret.isVoid (.missingReturnValue ret) span
    return none
  | some e =>
    if (← read).proto?.isSome then
      expect (!(← aliasesSelf e)) .returnSelf span
    if ret.isVoid then
      let e ← checkExpr none e
      report .returnFromVoid span
      escape e
      return some e
    else
      let e ← checkExpr (some ret) e
      match e.type? with
      | none => pure ()
      | some actual => expect (← isAssignable actual ret) (.returnType ret actual) e.span
      escape e
      return some e

/-- Checks what is thrown. -/
def checkThrow (span : Span) (value : Expr) : Check Expr := do
  let value ← checkExpr none value
  match value.type? with
  | none => pure ()
  | some ty =>
    let h := (← read).hierarchy
    expect (ty.named?.any h.isException) (.throwNonException ty) span
  return value

/-- What a loop over a value of the given type visits. -/
def visited? (kind : IterKind) (ty : Ty) : Option Ty :=
  match kind with
  | .keys => ty.key?
  | .values => ty.element?

/-- The type of the variable of a loop over a container. -/
def loopVariable (span : Span) (kind : IterKind) (declared : Option Ty) (name : String)
    (iterable : Expr) : Check Ty := do
  let elem? ← match iterable.type? with
    | none => pure none
    | some ty => do
      expect (visited? kind ty).isSome (.notIterable ty) iterable.span
      pure (visited? kind ty)
  match declared, elem? with
  | some ty, some elem =>
    if ← checkTy ty span then
      expect (ty == elem) (.loopVariable name ty elem) span
    return ty
  | some ty, none => return ty
  | none, some elem => return elem
  | none, none => return .void

/-- Checks the prototype of a catch clause. -/
def checkCatchable (span : Span) (proto : String) : Check Unit := do
  let h := (← read).hierarchy
  if h.contains proto then expect (h.isException proto) (.notCatchable proto) span
  else reportName (.undefinedPrototype proto) span proto h.names

/-- Checks the value a switch compares. -/
def checkSwitched (value : Expr) : Check Expr := do
  let value ← checkExpr none value
  match value.type? with
  | none => pure ()
  | some ty => expect ty.isScalar (.notSwitchable ty) value.span
  return value

/-- Runs a step in a scope of its own. -/
def inScope {α : Type} (kind : ScopeKind) (step : Check α) : Check α := do
  modifyScopes (Scopes.enter kind)
  let a ← step
  modifyScopes Scopes.leave
  return a

/-- Runs a step that may happen any number of times: lengths are not known in it or behind it, and
values given in it do not count behind it. -/
def repeated {α : Type} (step : Check α) : Check α := do
  let before ← snapshot
  modifyScopes Scopes.forgetLengths
  let a ← step
  restore before
  modifyScopes Scopes.forgetLengths
  return a

/-- What is known behind a choice of two branches, given what is known behind each and whether it
jumps away. -/
def afterBranches (afterThen afterElse : FlowSnapshot) (thenJumps elseJumps : Bool) :
    FlowSnapshot :=
  match thenJumps, elseJumps with
  | true, false => afterElse
  | false, true => afterThen
  | _, _ => afterThen.join afterElse

/-- What is known behind some paths of which the first few are already joined. -/
def joinPath (merged : Option FlowSnapshot) (path : FlowSnapshot) : FlowSnapshot :=
  match merged with
  | none => path
  | some m => m.join path

/-! ## Bodies -/

mutual

/-- Checks a statement. -/
def checkStmt : Stmt → Check Stmt
  | .varDecl s name ty isConst init => do
    return .varDecl s name ty isConst (← checkVarDecl s name ty isConst init)
  | .assign s target op value => do
    let (target, value) ← checkAssign s target op value
    return .assign s target op value
  | .expr s e => do return .expr s (← checkExpr none e)
  | .ifThen s c body => do
    let c ← checkCondition c
    let before ← snapshot
    let jumps := endsInJump body
    let body ← inScope .block (checkStmts body)
    restore (afterBranches (← snapshot) before jumps false)
    return .ifThen s c body
  | .ifElse s c thenBody elseBody => do
    let c ← checkCondition c
    let before ← snapshot
    let thenJumps := endsInJump thenBody
    let elseJumps := endsInJump elseBody
    let thenBody ← inScope .block (checkStmts thenBody)
    let afterThen ← snapshot
    restore before
    let elseBody ← inScope .block (checkStmts elseBody)
    restore (afterBranches afterThen (← snapshot) thenJumps elseJumps)
    return .ifElse s c thenBody elseBody
  | .while s c body => do
    modifyScopes Scopes.forgetLengths
    let c ← checkCondition c
    return .while s c (← repeated (inScope .loop (checkStmts body)))
  | .doWhile s body c => do
    -- The body runs at least once, so the values given in it count.
    modifyScopes Scopes.forgetLengths
    let body ← inScope .loop (checkStmts body)
    let c ← checkCondition c
    modifyScopes Scopes.forgetLengths
    return .doWhile s body c
  | .for s init c update body => inScope .block do
    let init ← checkStmt? init
    repeated do
      let c ← match c with
        | none => pure none
        | some e => do pure (some (← checkCondition e))
      inScope .loop do
        let body ← checkStmts body
        let update ← checkStmt? update
        return .for s init c update body
  | .forEach s kind ty name e body => do
    let e ← checkExpr none e
    let visited ← loopVariable s kind ty name e
    repeated do
      inScope .loop do
        let _ ← define name { ty := visited, span := s }
        return .forEach s kind ty name e (← checkStmts body)
  | .switch s value arms => do
    let value ← checkSwitched value
    let before ← snapshot
    let hasDefault := arms.any fun arm => arm.test.isNone
    let (arms, merged) ← checkArms value.type? before none arms
    restore (if hasDefault then merged.getD before else joinPath merged before)
    return .switch s value arms
  | .break s => do
    expect (← get).scopes.canBreak .breakOutside s
    return .break s
  | .continue s => do
    expect (← get).scopes.inLoop .continueOutside s
    return .continue s
  | .ret s value => do return .ret s (← checkReturn s value)
  | .throw s value => do return .throw s (← checkThrow s value)
  | .try s body clauses => do
    let before ← snapshot
    let body ← inScope .block (checkStmts body)
    let (clauses, merged) ← checkClauses before (← snapshot) clauses
    restore merged
    return .try s body clauses
  | .block s body => do return .block s (← inScope .block (checkStmts body))

/-- Checks statements in order. -/
def checkStmts : List Stmt → Check (List Stmt)
  | [] => return []
  | stmt :: rest => do
    let stmt ← checkStmt stmt
    return stmt :: (← checkStmts rest)

/-- Checks a statement that may be missing. -/
def checkStmt? : Option Stmt → Check (Option Stmt)
  | none => return none
  | some stmt => do return some (← checkStmt stmt)

/-- Checks the arms of a switch over a value of type `ty?`; also gives what is known behind them, of
which `merged` is known behind the arms before. -/
def checkArms (ty? : Option Ty) (before : FlowSnapshot) (merged : Option FlowSnapshot) :
    List SwitchArm → Check (List SwitchArm × Option FlowSnapshot)
  | [] => return ([], merged)
  | .mk s test body fallsThrough :: rest => do
    let test ← match test with
      | none => pure none
      | some e => do pure (some (← checkAgainst ty? e))
    restore before
    let jumps := endsInJump body
    let body ← inScope .switch (checkStmts body)
    expect (fallsThrough || jumps) .armFallsThrough s
    let (rest, merged) ← checkArms ty? before (some (joinPath merged (← snapshot))) rest
    return (.mk s test body fallsThrough :: rest, merged)

/-- Checks the catch clauses of a body that began in `before`; also gives what is known behind them
all. -/
def checkClauses (before merged : FlowSnapshot) :
    List CatchClause → Check (List CatchClause × FlowSnapshot)
  | [] => return ([], merged)
  | .mk s proto binding body :: rest => do
    restore before
    checkCatchable s proto
    let body ← inScope .block do
      let _ ← define binding { ty := .named proto, span := s }
      checkStmts body
    let (rest, merged) ← checkClauses before (merged.join (← snapshot)) rest
    return (.mk s proto binding body :: rest, merged)

end

end ProtoScript.Analysis
