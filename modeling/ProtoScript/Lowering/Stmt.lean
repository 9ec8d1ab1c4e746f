import ProtoScript.Lowering.Expr

set_option autoImplicit false

/-!
# Lowering statements

A statement becomes blocks that end in jumps. Where control can come together a new block is
started, also if nothing jumps to it. Statements behind a jump are not written.
-/

namespace ProtoScript.Lowering

/-! ## Declarations and assignments -/

section

variable (newInstance : String → Lower Ir.Temp)

/-- Writes the declaration of a variable; the initial value sees what the name stood for before. -/
def lowerVarDecl (name : String) (ty : Ty) (init : Option Expr) : Lower Unit := do
  match init with
  | none =>
    let _ ← declareVar name ty
  | some e =>
    let value ← lowerExpr newInstance e
    let var ← declareVar name ty
    emit (.storeVar var value)

/-- Writes the value that an assignment stores, where `current` reads what the target holds. -/
def lowerAssigned (target : Expr) (op : Option BinaryOp) (value : Expr) (current : Lower Ir.Temp) :
    Lower Ir.Temp := do
  match op with
  | none => lowerExpr newInstance value
  | some op =>
    let old ← current
    let new ← lowerExpr newInstance value
    let ty ← typeOf target
    emitBinary op old new ty

/-- Writes an assignment. -/
def lowerAssign (target : Expr) (op : Option BinaryOp) (value : Expr) : Lower Unit := do
  match target with
  | .ident _ name =>
    match ← varOf? name with
    | none => fail (.unresolvedName name)
    | some var =>
      let t ← lowerAssigned newInstance target op value (emitValue (.loadVar · var))
      emit (.storeVar var t)
  | .member n object name =>
    match n.value? with
    | some (.field proto _) =>
      let a ← lowerExpr newInstance object
      let t ← lowerAssigned newInstance target op value (emitValue (.fieldGet · a proto name))
      emit (.fieldSet a proto name t)
    | _ => fail (.unresolvedName name)
  | .index _ object i =>
    let ty ← typeOf object
    let a ← lowerExpr newInstance object
    let b ← lowerExpr newInstance i
    -- A new key of a map can be written but not read.
    if !isMap ty then
      emit (.check (.indexBounds a b))
    let t ← lowerAssigned newInstance target op value do
      if isMap ty then
        emit (.check (.mapKey a b))
      emitValue (.indexGet · a b)
    emit (.indexSet a b t)
  | _ => fail (.unresolvedName "<assignment target>")

/-! ## Jumps -/

/-- Writes a return, which leaves all `try` regions. -/
def lowerReturn (value : Option Expr) : Lower Unit := do
  match value with
  | none =>
    unwindTo 0
    endWith .retVoid
  | some e =>
    let t ← lowerExpr newInstance e
    unwindTo 0
    endWith (.ret t)

end

/-- Writes a `break`. -/
def lowerBreak : Lower Unit := do
  match (← get).jumps with
  | [] => fail (.strayJump "break")
  | t :: _ =>
    unwindTo t.tryDepth
    jump t.breakLabel

/-- Writes a `continue`. -/
def lowerContinue : Lower Unit := do
  match (← get).jumps.findSome? fun t => t.continueLabel.map fun label => (label, t.tryDepth) with
  | none => fail (.strayJump "continue")
  | some (label, depth) =>
    unwindTo depth
    jump label

/-! ## Switches -/

/-- Labels with the same stem. -/
def freshLabels (stem : String) : Nat → Lower (List String)
  | 0 => return []
  | n + 1 => do
    let label ← freshLabel stem
    return label :: (← freshLabels stem n)

/-- The tests of a switch's arms, each with the label of its arm. -/
def armTests (arms : List SwitchArm) (labels : List String) : List (String × Expr) :=
  (labels.zip arms).filterMap fun (label, arm) => arm.test.map fun e => (label, e)

/-- Where a switch goes if no test holds: to its first default arm, or behind it. -/
def defaultLabel (arms : List SwitchArm) (labels : List String) (done : String) : String :=
  ((labels.zip arms).findSome? fun (label, arm) =>
    if arm.test.isNone then some label else none).getD done

/-- Writes the tests of a switch one behind the other. -/
def lowerTests (newInstance : String → Lower Ir.Temp) (value : Ir.Temp) (otherwise : String) :
    List (String × Expr) → Lower Unit
  | [] => jump otherwise
  | [(label, test)] => do
    let t ← lowerExpr newInstance test
    let same ← emitValue (.binary · .equal value t)
    endWith (.branch same label otherwise)
  | (label, test) :: rest => do
    let t ← lowerExpr newInstance test
    let same ← emitValue (.binary · .equal value t)
    let next ← freshLabel "case_test"
    endWith (.branch same label next)
    startBlock next
    lowerTests newInstance value otherwise rest

/-! ## Statements -/

/-- The type of what a loop visits, unless it is declared. -/
def visitedType (kind : IterKind) (declared : Option Ty) (iterable : Ty) : Ty :=
  match declared, kind with
  | some ty, _ => ty
  | none, .keys => iterable.key?.getD .void
  | none, .values => iterable.element?.getD .void

mutual

/-- Writes a statement. -/
def lowerStmt (newInstance : String → Lower Ir.Temp) : Stmt → Lower Unit
  | .varDecl _ name ty _ init => lowerVarDecl newInstance name ty init
  | .assign _ target op value => lowerAssign newInstance target op value
  | .expr _ e => do
    let _ ← lowerExpr? newInstance e
  | .ifThen _ c body => do
    let cond ← lowerExpr newInstance c
    let thenLabel ← freshLabel "if_then"
    let done ← freshLabel "if_end"
    endWith (.branch cond thenLabel done)
    startBlock thenLabel
    inScope (lowerStmts newInstance body)
    jump done
    startBlock done
  | .ifElse _ c thenBody elseBody => do
    let cond ← lowerExpr newInstance c
    let thenLabel ← freshLabel "if_then"
    let done ← freshLabel "if_end"
    let elseLabel ← freshLabel "if_else"
    endWith (.branch cond thenLabel elseLabel)
    startBlock thenLabel
    inScope (lowerStmts newInstance thenBody)
    jump done
    startBlock elseLabel
    inScope (lowerStmts newInstance elseBody)
    jump done
    startBlock done
  | .while _ c body => do
    let condLabel ← freshLabel "while_cond"
    let bodyLabel ← freshLabel "while_body"
    let done ← freshLabel "while_done"
    jump condLabel
    startBlock condLabel
    let cond ← lowerExpr newInstance c
    endWith (.branch cond bodyLabel done)
    startBlock bodyLabel
    withJumps done (some condLabel) (inScope (lowerStmts newInstance body))
    jump condLabel
    startBlock done
  | .doWhile _ body c => do
    let bodyLabel ← freshLabel "do_body"
    let condLabel ← freshLabel "do_cond"
    let done ← freshLabel "do_done"
    jump bodyLabel
    startBlock bodyLabel
    withJumps done (some condLabel) (inScope (lowerStmts newInstance body))
    jump condLabel
    startBlock condLabel
    let cond ← lowerExpr newInstance c
    endWith (.branch cond bodyLabel done)
    startBlock done
  | .for _ init c update body => inScope do
    lowerStmt? newInstance init
    let condLabel ← freshLabel "for_cond"
    let bodyLabel ← freshLabel "for_body"
    let stepLabel ← freshLabel "for_step"
    let done ← freshLabel "for_done"
    jump condLabel
    startBlock condLabel
    match c with
    | none => jump bodyLabel
    | some e =>
      let cond ← lowerExpr newInstance e
      endWith (.branch cond bodyLabel done)
    startBlock bodyLabel
    withJumps done (some stepLabel) (inScope (lowerStmts newInstance body))
    jump stepLabel
    startBlock stepLabel
    lowerStmt? newInstance update
    jump condLabel
    startBlock done
  | .forEach _ kind declared name e body => do
    let elem := visitedType kind declared (← typeOf e)
    let iterable ← lowerExpr newInstance e
    let iter ← emitValue (.iterBegin · iterable kind elem)
    let head ← freshLabel "each_head"
    let bodyLabel ← freshLabel "each_body"
    let done ← freshLabel "each_done"
    jump head
    startBlock head
    endWith (.branchIter iter bodyLabel done)
    startBlock bodyLabel
    inScope do
      let item ← emitValue (.iterNext · iter)
      let var ← declareVar name elem
      emit (.storeVar var item)
      withJumps done (some head) (inScope (lowerStmts newInstance body))
    jump head
    startBlock done
  | .switch _ e arms => do
    let value ← lowerExpr newInstance e
    let done ← freshLabel "switch_done"
    let labels ← freshLabels "case_body" arms.length
    lowerTests newInstance value (defaultLabel arms labels done) (armTests arms labels)
    lowerArms newInstance done labels arms
    startBlock done
  | .break _ => lowerBreak
  | .continue _ => lowerContinue
  | .ret _ value => lowerReturn newInstance value
  | .throw _ e => do
    let t ← lowerExpr newInstance e
    emit (.throw t)
    endWith .unreachable
  | .try _ body clauses => do
    let handler ← freshLabel "try_handler"
    let done ← freshLabel "try_done"
    emit (.setupTry handler)
    modify fun b => { b with tryDepth := b.tryDepth + 1 }
    inScope (lowerStmts newInstance body)
    modify fun b => { b with tryDepth := b.tryDepth - 1 }
    if ← isOpen then
      emit .endTry
    jump done
    startBlock handler
    let exception ← emitValue .catchValue
    lowerClauses newInstance exception done clauses
    -- No clause has caught the exception.
    emit (.throw exception)
    endWith .unreachable
    startBlock done
  | .block _ body => inScope (lowerStmts newInstance body)

/-- Writes statements in order, as far as they can be reached. -/
def lowerStmts (newInstance : String → Lower Ir.Temp) : List Stmt → Lower Unit
  | [] => pure ()
  | s :: rest => do
    if ← isOpen then
      lowerStmt newInstance s
      lowerStmts newInstance rest

/-- Writes a statement that may be missing, if it can be reached. -/
def lowerStmt? (newInstance : String → Lower Ir.Temp) : Option Stmt → Lower Unit
  | none => pure ()
  | some s => do
    if ← isOpen then
      lowerStmt newInstance s

/-- Writes the bodies of a switch's arms; an arm falls through to the label behind its own. -/
def lowerArms (newInstance : String → Lower Ir.Temp) (done : String) :
    List String → List SwitchArm → Lower Unit
  | label :: labels, .mk _ _ body fallsThrough :: rest => do
    startBlock label
    withJumps done none (inScope (lowerStmts newInstance body))
    jump (if fallsThrough then labels.head?.getD done else done)
    lowerArms newInstance done labels rest
  | _, _ => pure ()

/-- Writes the clauses that may catch an exception, one behind the other. -/
def lowerClauses (newInstance : String → Lower Ir.Temp) (exception : Ir.Temp) (done : String) :
    List CatchClause → Lower Unit
  | [] => pure ()
  | .mk _ proto binding body :: rest => do
    let caught ← emitValue (.instanceOf · exception proto)
    let bodyLabel ← freshLabel "catch_body"
    let next ← freshLabel "catch_next"
    endWith (.branch caught bodyLabel next)
    startBlock bodyLabel
    inScope do
      let var ← declareVar binding (.named proto)
      emit (.storeVar var exception)
      lowerStmts newInstance body
    jump done
    startBlock next
    lowerClauses newInstance exception done rest

end

end ProtoScript.Lowering
