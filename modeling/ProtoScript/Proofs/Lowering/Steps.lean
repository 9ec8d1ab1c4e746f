import ProtoScript.Lowering.Stmt

set_option autoImplicit false

/-!
# How a statement is lowered

What lowering writes before it comes to a part of a statement, as steps of their own. The equations say that
lowering a statement is these steps with the parts between them, so that whoever follows lowering from a
statement into its parts need not look into `lowerStmt`.
-/

namespace ProtoScript.Lowering

section

variable (newInstance : String → Lower Ir.Temp)

/-! ## Choices between values -/

/-- Writes what comes before the first branch of a choice between values; gives the variable of the value,
the label of the second branch and the one behind both. -/
def openTernary (n : Note) (e x y : Expr) : Lower (String × String × String) := do
  let ty ← typeOf (.ternary n e x y)
  let cond ← lowerExpr newInstance e
  let joined ← declareJoin ty
  let thenLabel ← freshLabel "tern_then"
  let elseLabel ← freshLabel "tern_else"
  let done ← freshLabel "tern_end"
  endWith (.branch cond thenLabel elseLabel)
  startBlock thenLabel
  return (joined, elseLabel, done)

/-- Writes what comes before the second branch of a choice between values. -/
def openTernaryElse (n : Note) (e x y : Expr) : Lower (String × String) := do
  let (joined, elseLabel, done) ← openTernary newInstance n e x y
  let a ← lowerExpr newInstance x
  emit (.storeVar joined a)
  jump done
  startBlock elseLabel
  return (joined, done)

theorem lowerExpr?_ternary (n : Note) (e x y : Expr) :
    lowerExpr? newInstance (.ternary n e x y) = (do
      let (joined, done) ← openTernaryElse newInstance n e x y
      let b ← lowerExpr newInstance y
      emit (.storeVar joined b)
      jump done
      startBlock done
      return some (← emitValue (.loadVar · joined))) := by
  rw [lowerExpr?]
  simp only [openTernaryElse, openTernary, lowerExpr, bind_assoc, pure_bind]

/-! ## Declarations -/

/-- Writes the declaration of a variable and gives the variable. -/
def lowerDeclared (name : String) (ty : Ty) : Option Expr → Lower String
  | none => declareVar name ty
  | some e => do
    let value ← lowerExpr newInstance e
    let var ← declareVar name ty
    emit (.storeVar var value)
    return var

theorem lowerStmt_varDecl (sp : Span) (x : String) (ty : Ty) (isConst : Bool) (init : Option Expr) :
    lowerStmt newInstance (.varDecl sp x ty isConst init) =
      (do let _ ← lowerDeclared newInstance x ty init) := by
  rw [lowerStmt]
  cases init with
  | none => rfl
  | some e => simp only [lowerVarDecl, lowerDeclared, bind_assoc, pure_bind, bind_pure_unit]

/-! ## Assignments -/

/-- Reads what the target of an assignment holds, if its operator needs that. -/
def lowerCurrent (op : Option BinaryOp) (current : Lower Ir.Temp) : Lower (Option Ir.Temp) :=
  match op with
  | none => return none
  | some _ => do return some (← current)

/-- Reads the element of a container that is assigned to; a key of a map has to be there. -/
def lowerElement (ty : Ty) (object index : Ir.Temp) : Lower Ir.Temp := do
  if isMap ty then
    emit (.check (.mapKey object index))
  emitValue (.indexGet · object index)

/-- Writes what comes before the value that is assigned to an element; gives the container and the
index. -/
def openElement (ty : Ty) (object i : Expr) : Lower (Ir.Temp × Ir.Temp) := do
  let a ← lowerExpr newInstance object
  let b ← lowerExpr newInstance i
  if !isMap ty then
    emit (.check (.indexBounds a b))
  return (a, b)

/-- Writes what is stored, behind what the target holds. -/
def lowerStored (target : Expr) (value : Expr) (op : Option BinaryOp) (current : Option Ir.Temp) :
    Lower Ir.Temp := do
  let new ← lowerExpr newInstance value
  match op, current with
  | some op, some old => emitBinary op old new (← typeOf target)
  | _, _ => return new

theorem lowerAssigned_eq (target : Expr) (op : Option BinaryOp) (value : Expr) (current : Lower Ir.Temp) :
    lowerAssigned newInstance target op value current =
      (do lowerStored newInstance target value op (← lowerCurrent op current)) := by
  cases op with
  | none => simp only [lowerAssigned, lowerCurrent, lowerStored, pure_bind, bind_pure]
  | some op => simp only [lowerAssigned, lowerCurrent, lowerStored, bind_assoc, pure_bind]

theorem lowerAssign_index (n : Note) (object i : Expr) (op : Option BinaryOp) (value : Expr) :
    lowerAssign newInstance (.index n object i) op value = (do
      let ty ← typeOf object
      let (a, b) ← openElement newInstance ty object i
      let t ← lowerAssigned newInstance (.index n object i) op value (lowerElement ty a b)
      emit (.indexSet a b t)) := by
  simp only [lowerAssign, openElement, lowerElement, bind_assoc]
  refine congrArg _ (funext fun ty => congrArg _ (funext fun a => congrArg _ (funext fun b => ?_)))
  cases isMap ty with
  | true => simp only [Bool.not_true, Bool.false_eq_true, if_false, pure_bind]
  | false => simp only [Bool.not_false, if_true, bind_assoc, pure_bind]

/-! ## Choices -/

/-- Writes what comes before the body of a choice; gives the label behind it. -/
def openIf (e : Expr) : Lower String := do
  let cond ← lowerExpr newInstance e
  let thenLabel ← freshLabel "if_then"
  let done ← freshLabel "if_end"
  endWith (.branch cond thenLabel done)
  startBlock thenLabel
  return done

/-- Writes what comes before the first branch of a choice; gives the label of the second and the one
behind both. -/
def openIfElse (e : Expr) : Lower (String × String) := do
  let cond ← lowerExpr newInstance e
  let thenLabel ← freshLabel "if_then"
  let done ← freshLabel "if_end"
  let elseLabel ← freshLabel "if_else"
  endWith (.branch cond thenLabel elseLabel)
  startBlock thenLabel
  return (elseLabel, done)

/-- Writes what comes before the second branch of a choice; gives the label behind it. -/
def openElse (e : Expr) (thenBody : List Stmt) : Lower String := do
  let (elseLabel, done) ← openIfElse newInstance e
  inScope (lowerStmts newInstance thenBody)
  jump done
  startBlock elseLabel
  return done

theorem lowerStmt_ifThen_eq (sp : Span) (e : Expr) (body : List Stmt) :
    lowerStmt newInstance (.ifThen sp e body) = (do
      let done ← openIf newInstance e
      inScope (lowerStmts newInstance body)
      jump done
      startBlock done) := by
  rw [lowerStmt]
  simp only [openIf, bind_assoc, pure_bind]

theorem lowerStmt_ifElse_eq (sp : Span) (e : Expr) (a b : List Stmt) :
    lowerStmt newInstance (.ifElse sp e a b) = (do
      let done ← openElse newInstance e a
      inScope (lowerStmts newInstance b)
      jump done
      startBlock done) := by
  rw [lowerStmt]
  simp only [openElse, openIfElse, bind_assoc, pure_bind]

/-! ## Loops -/

/-- Enters a loop or switch. -/
def enterLoop (breakLabel : String) (continueLabel : Option String) : Lower Unit :=
  modify fun b => { b with jumps := ⟨breakLabel, continueLabel, b.tryDepth⟩ :: b.jumps }

/-- Leaves a loop or switch. -/
def leaveLoop : Lower Unit := modify fun b => { b with jumps := b.jumps.tail }

theorem withJumps_eq (breakLabel : String) (continueLabel : Option String) (m : Lower Unit) :
    withJumps breakLabel continueLabel m =
      (do enterLoop breakLabel continueLabel; m; leaveLoop; return ()) := rfl

/-- Writes what comes before the condition of a loop; gives its label, that of the body and the one behind
the loop. -/
def openWhile : Lower (String × String × String) := do
  let condLabel ← freshLabel "while_cond"
  let bodyLabel ← freshLabel "while_body"
  let done ← freshLabel "while_done"
  jump condLabel
  startBlock condLabel
  return (condLabel, bodyLabel, done)

/-- Writes what comes before the body of a loop; gives the labels of its condition and behind it. -/
def openWhileBody (e : Expr) : Lower (String × String) := do
  let (condLabel, bodyLabel, done) ← openWhile
  let cond ← lowerExpr newInstance e
  endWith (.branch cond bodyLabel done)
  startBlock bodyLabel
  return (condLabel, done)

theorem lowerStmt_while_eq (sp : Span) (e : Expr) (body : List Stmt) :
    lowerStmt newInstance (.while sp e body) = (do
      let (condLabel, done) ← openWhileBody newInstance e
      withJumps done (some condLabel) (inScope (lowerStmts newInstance body))
      jump condLabel
      startBlock done) := by
  rw [lowerStmt]
  simp only [openWhileBody, openWhile, bind_assoc, pure_bind]

/-- Writes what comes before the body of a loop that runs at least once; gives the labels of its condition,
of the body and behind it. -/
def openDo : Lower (String × String × String) := do
  let bodyLabel ← freshLabel "do_body"
  let condLabel ← freshLabel "do_cond"
  let done ← freshLabel "do_done"
  jump bodyLabel
  startBlock bodyLabel
  return (condLabel, bodyLabel, done)

/-- Writes such a loop up to its condition; gives the labels of the body and behind it. -/
def openDoTest (body : List Stmt) : Lower (String × String) := do
  let (condLabel, bodyLabel, done) ← openDo
  withJumps done (some condLabel) (inScope (lowerStmts newInstance body))
  jump condLabel
  startBlock condLabel
  return (bodyLabel, done)

theorem lowerStmt_doWhile_eq (sp : Span) (body : List Stmt) (e : Expr) :
    lowerStmt newInstance (.doWhile sp body e) = (do
      let (bodyLabel, done) ← openDoTest newInstance body
      let cond ← lowerExpr newInstance e
      endWith (.branch cond bodyLabel done)
      startBlock done) := by
  rw [lowerStmt]
  simp only [openDoTest, openDo, bind_assoc, pure_bind]

/-- The labels of a `for` loop. -/
structure ForLabels where
  condLabel : String
  bodyLabel : String
  stepLabel : String
  done : String

/-- Writes what comes between the first statement of a `for` loop and its condition. -/
def openFor : Lower ForLabels := do
  let condLabel ← freshLabel "for_cond"
  let bodyLabel ← freshLabel "for_body"
  let stepLabel ← freshLabel "for_step"
  let done ← freshLabel "for_done"
  jump condLabel
  startBlock condLabel
  return ⟨condLabel, bodyLabel, stepLabel, done⟩

/-- Writes what comes between the first statement of a `for` loop and its body. -/
def openForBody (e : Option Expr) : Lower ForLabels := do
  let labels ← openFor
  match e with
  | none => jump labels.bodyLabel
  | some e =>
    let cond ← lowerExpr newInstance e
    endWith (.branch cond labels.bodyLabel labels.done)
  startBlock labels.bodyLabel
  return labels

/-- Writes what comes between the first statement of a `for` loop and its step. -/
def openForStep (e : Option Expr) (body : List Stmt) : Lower ForLabels := do
  let labels ← openForBody newInstance e
  withJumps labels.done (some labels.stepLabel) (inScope (lowerStmts newInstance body))
  jump labels.stepLabel
  startBlock labels.stepLabel
  return labels

/-- The step is written outside of the scope of the body. -/
theorem lowerStmt_for_eq (sp : Span) (init : Option Stmt) (e : Option Expr) (update : Option Stmt)
    (body : List Stmt) :
    lowerStmt newInstance (.for sp init e update body) = (inScope do
      lowerStmt? newInstance init
      let labels ← openForStep newInstance e body
      lowerStmt? newInstance update
      jump labels.condLabel
      startBlock labels.done) := by
  rw [lowerStmt]
  cases e with
  | none => simp only [openForStep, openForBody, openFor, bind_assoc, pure_bind]
  | some e => simp only [openForStep, openForBody, openFor, bind_assoc, pure_bind]

/-- Writes what comes before the scope of a loop over a container; gives the iterator, the type of what is
visited and the labels of the head and behind the loop. -/
def openForEach (kind : IterKind) (declared : Option Ty) (e : Expr) :
    Lower (Ir.Temp × Ty × String × String) := do
  let elem := visitedType kind declared (← typeOf e)
  let iterable ← lowerExpr newInstance e
  let iter ← emitValue (.iterBegin · iterable kind elem)
  let head ← freshLabel "each_head"
  let bodyLabel ← freshLabel "each_body"
  let done ← freshLabel "each_done"
  jump head
  startBlock head
  endWith (.branchIter iter bodyLabel done)
  startBlock bodyLabel
  return (iter, elem, head, done)

/-- Writes the iterator of a loop over a container; gives it and the type of what is visited. -/
def openIterator (kind : IterKind) (declared : Option Ty) (e : Expr) : Lower (Ir.Temp × Ty) := do
  let elem := visitedType kind declared (← typeOf e)
  let iterable ← lowerExpr newInstance e
  let iter ← emitValue (.iterBegin · iterable kind elem)
  return (iter, elem)

/-- Writes what comes between the iterator and the body of the loop; gives the labels of the head and behind
the loop. -/
def openEach (iter : Ir.Temp) : Lower (String × String) := do
  let head ← freshLabel "each_head"
  let bodyLabel ← freshLabel "each_body"
  let done ← freshLabel "each_done"
  jump head
  startBlock head
  endWith (.branchIter iter bodyLabel done)
  startBlock bodyLabel
  return (head, done)

theorem openForEach_eq (kind : IterKind) (declared : Option Ty) (e : Expr) :
    openForEach newInstance kind declared e = (do
      let (iter, elem) ← openIterator newInstance kind declared e
      let (head, done) ← openEach iter
      return (iter, elem, head, done)) := by
  simp only [openForEach, openIterator, openEach, bind_assoc, pure_bind]

end

/-- Writes the variable of a loop over a container, and gives it. -/
def lowerVisited (name : String) (iter : Ir.Temp) (elem : Ty) : Lower String := do
  let item ← emitValue (.iterNext · iter)
  let var ← declareVar name elem
  emit (.storeVar var item)
  return var

section

variable (newInstance : String → Lower Ir.Temp)

theorem lowerStmt_forEach_eq (sp : Span) (kind : IterKind) (declared : Option Ty) (x : String)
    (e : Expr) (body : List Stmt) :
    lowerStmt newInstance (.forEach sp kind declared x e body) = (do
      let (iter, elem, head, done) ← openForEach newInstance kind declared e
      inScope do
        let _ ← lowerVisited x iter elem
        withJumps done (some head) (inScope (lowerStmts newInstance body))
      jump head
      startBlock done) := by
  rw [lowerStmt]
  simp only [openForEach, lowerVisited, bind_assoc, pure_bind]

/-! ## Switches -/

/-- Writes what comes before the tests of a switch; gives the value, the label behind the switch and those
of the arms. -/
def openSwitch (e : Expr) (count : Nat) : Lower (Ir.Temp × String × List String) := do
  let value ← lowerExpr newInstance e
  let done ← freshLabel "switch_done"
  let labels ← freshLabels "case_body" count
  return (value, done, labels)

/-- Writes a switch up to its arms; gives the label behind it and those of the arms. -/
def openArms (e : Expr) (arms : List SwitchArm) : Lower (String × List String) := do
  let (value, done, labels) ← openSwitch newInstance e arms.length
  lowerTests newInstance value (defaultLabel arms labels done) (armTests arms labels)
  return (done, labels)

theorem lowerStmt_switch_eq (sp : Span) (e : Expr) (arms : List SwitchArm) :
    lowerStmt newInstance (.switch sp e arms) = (do
      let (done, labels) ← openArms newInstance e arms
      lowerArms newInstance done labels arms
      startBlock done) := by
  rw [lowerStmt]
  simp only [openArms, openSwitch, bind_assoc, pure_bind]

/-- Writes a switch from its value up to its arms; gives the label behind it and those of the arms. -/
def openTests (value : Ir.Temp) (arms : List SwitchArm) : Lower (String × List String) := do
  let done ← freshLabel "switch_done"
  let labels ← freshLabels "case_body" arms.length
  lowerTests newInstance value (defaultLabel arms labels done) (armTests arms labels)
  return (done, labels)

theorem openArms_eq (e : Expr) (arms : List SwitchArm) :
    openArms newInstance e arms = (do openTests newInstance (← lowerExpr newInstance e) arms) := by
  simp only [openArms, openSwitch, openTests, bind_assoc, pure_bind]

/-- Writes a test that others come behind. -/
def lowerTest (value : Ir.Temp) (label : String) (e : Expr) : Lower Unit := do
  let t ← lowerExpr newInstance e
  let same ← emitValue (.binary · .equal value t)
  let next ← freshLabel "case_test"
  endWith (.branch same label next)
  startBlock next

theorem lowerTests_cons_cons (value : Ir.Temp) (otherwise label : String) (e : Expr)
    (test : String × Expr) (rest : List (String × Expr)) :
    lowerTests newInstance value otherwise ((label, e) :: test :: rest) = (do
      lowerTest newInstance value label e
      lowerTests newInstance value otherwise (test :: rest)) := by
  rw [lowerTests]
  · simp only [lowerTest, bind_assoc]
  · exact List.cons_ne_nil test rest

/-- Writes the body of an arm and the jump behind it. -/
def lowerArm (done : String) (label : String) (labels : List String) (body : List Stmt)
    (fallsThrough : Bool) : Lower Unit := do
  startBlock label
  withJumps done none (inScope (lowerStmts newInstance body))
  jump (if fallsThrough then labels.head?.getD done else done)

theorem lowerArms_cons (done label : String) (labels : List String) (sp : Span) (test : Option Expr)
    (body : List Stmt) (fallsThrough : Bool) (rest : List SwitchArm) :
    lowerArms newInstance done (label :: labels) (.mk sp test body fallsThrough :: rest) = (do
      lowerArm newInstance done label labels body fallsThrough
      lowerArms newInstance done labels rest) := by
  rw [lowerArms]
  simp only [lowerArm, bind_assoc]

end

/-! ## Regions -/

/-- Writes what comes before the body of a `try` region; gives the labels of the handler and behind the
region. -/
def openTry : Lower (String × String) := do
  let handler ← freshLabel "try_handler"
  let done ← freshLabel "try_done"
  emit (.setupTry handler)
  modify fun b => { b with tryDepth := b.tryDepth + 1 }
  return (handler, done)

/-- Opens a `try` region. -/
def enterTry (handler : String) : Lower Unit := do
  emit (.setupTry handler)
  modify fun b => { b with tryDepth := b.tryDepth + 1 }

/-- Closes a `try` region behind its body, unless control has left it before. -/
def leaveTry : Lower Unit := do
  modify fun b => { b with tryDepth := b.tryDepth - 1 }
  if ← isOpen then
    emit .endTry

theorem openTry_eq : openTry = (do
    let handler ← freshLabel "try_handler"
    let done ← freshLabel "try_done"
    enterTry handler
    return (handler, done)) := by
  simp only [openTry, enterTry, bind_assoc]

section

variable (newInstance : String → Lower Ir.Temp)

/-- Writes a `try` region up to its clauses; gives the exception and the label behind the region. -/
def openClauses (body : List Stmt) : Lower (Ir.Temp × String) := do
  let (handler, done) ← openTry
  inScope (lowerStmts newInstance body)
  modify fun b => { b with tryDepth := b.tryDepth - 1 }
  if ← isOpen then
    emit .endTry
  jump done
  startBlock handler
  let exception ← emitValue .catchValue
  return (exception, done)

theorem openClauses_eq (body : List Stmt) :
    openClauses newInstance body = (do
      let (handler, done) ← openTry
      inScope (lowerStmts newInstance body)
      leaveTry
      jump done
      startBlock handler
      let exception ← emitValue .catchValue
      return (exception, done)) := by
  simp only [openClauses, leaveTry, bind_assoc]
  refine congrArg _ (funext fun labels => congrArg _ (funext fun _ => congrArg _ (funext fun _ => ?_)))
  refine congrArg _ (funext fun isOpen => ?_)
  cases isOpen with
  | true => rfl
  | false => rfl

theorem lowerStmt_try_eq (sp : Span) (body : List Stmt) (clauses : List CatchClause) :
    lowerStmt newInstance (.try sp body clauses) = (do
      let (exception, done) ← openClauses newInstance body
      lowerClauses newInstance exception done clauses
      emit (.throw exception)
      endWith .unreachable
      startBlock done) := by
  rw [lowerStmt]
  simp only [openClauses, openTry, bind_assoc, pure_bind]
  refine congrArg _ (funext fun handler => congrArg _ (funext fun done => ?_))
  refine congrArg _ (funext fun _ => congrArg _ (funext fun _ => congrArg _ (funext fun _ => ?_)))
  refine congrArg _ (funext fun _ => congrArg _ (funext fun isOpen => ?_))
  cases isOpen with
  | true => simp only [if_true, bind_assoc, pure_bind]
  | false => simp only [Bool.false_eq_true, if_false, bind_assoc, pure_bind]

end

/-- Writes what comes before the scope of a catch clause; gives the label of the next one. -/
def openClause (exception : Ir.Temp) (proto : String) : Lower String := do
  let caught ← emitValue (.instanceOf · exception proto)
  let bodyLabel ← freshLabel "catch_body"
  let next ← freshLabel "catch_next"
  endWith (.branch caught bodyLabel next)
  startBlock bodyLabel
  return next

/-- Writes the variable of a catch clause, and gives it. -/
def lowerCaught (exception : Ir.Temp) (name proto : String) : Lower String := do
  let var ← declareVar name (.named proto)
  emit (.storeVar var exception)
  return var

section

variable (newInstance : String → Lower Ir.Temp)

/-- Writes a catch clause, up to the next one. -/
def lowerClause (exception : Ir.Temp) (done proto name : String) (body : List Stmt) : Lower Unit := do
  let next ← openClause exception proto
  inScope do
    let _ ← lowerCaught exception name proto
    lowerStmts newInstance body
  jump done
  startBlock next

theorem lowerClauses_cons (exception : Ir.Temp) (done : String) (sp : Span) (proto x : String)
    (body : List Stmt) (rest : List CatchClause) :
    lowerClauses newInstance exception done (.mk sp proto x body :: rest) = (do
      lowerClause newInstance exception done proto x body
      lowerClauses newInstance exception done rest) := by
  rw [lowerClauses]
  simp only [lowerClause, openClause, lowerCaught, bind_assoc, pure_bind]

end

end ProtoScript.Lowering
