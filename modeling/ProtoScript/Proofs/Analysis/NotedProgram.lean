import ProtoScript.Proofs.Analysis.NotedExpr
import ProtoScript.Proofs.Analysis.TypedProgram

set_option autoImplicit false

/-!
# What the checker notes on the nodes of a program

Checking a statement or a declaration only puts checked expressions in the place of expressions. So what holds of all
nodes of a checked expression holds of all nodes of a checked program (`Establishes.program`).
-/

namespace ProtoScript.Analysis.Establishes

variable {c : Context} {p : Expr → Prop}

section

variable (h : Establishes c p)

include h

/-! ## Parts of statements -/

theorem checkStored (ty : Ty) {e : Expr} (he : ArePlain e.nodes) :
    Results c (fun e => ∀ x ∈ e.nodes, p x) (checkStored ty e) :=
  (h.checkExpr _ e he).bind fun _ he => results_then fun _ => results_pure he

theorem checkCondition {e : Expr} (he : ArePlain e.nodes) :
    Results c (fun e => ∀ x ∈ e.nodes, p x) (checkCondition e) :=
  (h.checkExpr _ e he).bind fun _ he => results_then fun _ => results_pure he

theorem checkAgainst (ty? : Option Ty) {e : Expr} (he : ArePlain e.nodes) :
    Results c (fun e => ∀ x ∈ e.nodes, p x) (checkAgainst ty? e) := by
  unfold Analysis.checkAgainst
  split
  · exact h.checkStored _ he
  · exact h.checkExpr _ e he

theorem checkSwitched {e : Expr} (he : ArePlain e.nodes) :
    Results c (fun e => ∀ x ∈ e.nodes, p x) (checkSwitched e) := by
  refine (h.checkExpr _ e he).bind fun _ he => ?_
  split
  · exact results_pure he
  · exact results_then fun _ => results_pure he

theorem checkThrow (span : Span) {e : Expr} (he : ArePlain e.nodes) :
    Results c (fun e => ∀ x ∈ e.nodes, p x) (checkThrow span e) := by
  refine (h.checkExpr _ e he).bind fun _ he => ?_
  split
  · exact results_pure he
  · exact results_then fun _ => results_then fun _ => results_pure he

omit h in
theorem checkDeclared (span : Span) (name : String) (b : Binding) {init : Option Expr}
    (hinit : ∀ x ∈ nodes? init, p x) :
    Results c (fun init => ∀ x ∈ nodes? init, p x) (checkDeclared span name b init) := by
  refine results_then fun _ => ?_
  split
  · exact results_pure hinit
  · exact results_then fun _ => results_pure hinit

theorem checkVarDecl (span : Span) (name : String) (ty : Ty) (isConst : Bool) {init : Option Expr}
    (hinit : ArePlain (nodes? init)) :
    Results c (fun init => ∀ x ∈ nodes? init, p x) (checkVarDecl span name ty isConst init) := by
  refine results_then fun known => results_then fun _ => results_then fun _ => ?_
  dsimp only
  split
  · exact checkDeclared span name _ (h.nodes hinit)
  · rename_i e
    refine (h.checkAgainst _ hinit).bind fun _ he => results_then fun _ => results_then fun _ => ?_
    exact checkDeclared span name _ he

theorem checkAssigned (span : Span) (target : Ty) (op : Option BinaryOp) {value : Expr}
    (hvalue : ArePlain value.nodes) :
    Results c (fun e => ∀ x ∈ e.nodes, p x) (checkAssigned span target op value) := by
  unfold Analysis.checkAssigned
  split
  · exact h.checkStored _ hvalue
  · refine (h.checkExpr _ value hvalue).bind fun _ he => ?_
    split
    · exact results_pure he
    · refine results_then fun _ => ?_
      split
      · exact results_pure he
      · exact results_then fun _ => results_pure he

theorem checkAssignName (span : Span) {n : Note} (hn : n.IsPlain) (name : String) (op : Option BinaryOp)
    {value : Expr} (hvalue : ArePlain value.nodes) :
    Results c (fun r => r.1.IsPlain ∧ ∀ x ∈ r.2.nodes, p x) (checkAssignName span n name op value) := by
  refine results_then fun _ => ?_
  split
  · refine results_read ?_
    split
    · exact results_then fun _ => (h.checkExpr _ value hvalue).bind fun _ he => results_pure ⟨hn, he⟩
    · exact results_then fun _ => (h.checkExpr _ value hvalue).bind fun _ he => results_pure ⟨hn, he⟩
  · refine results_then fun _ => results_then fun _ => ?_
    refine (h.checkAssigned _ _ _ hvalue).bind fun _ he => results_then fun _ => ?_
    exact results_then fun _ => results_pure ⟨hn, he⟩

theorem checkAssignMember (span : Span) {target : Expr} (htarget : ArePlain target.nodes) (op : Option BinaryOp)
    {value : Expr} (hvalue : ArePlain value.nodes) :
    Results c (fun r => (∀ x ∈ r.1.nodes, p x) ∧ ∀ x ∈ r.2.nodes, p x) (checkAssignMember span target op value) := by
  refine (h.checkExpr _ target htarget).bind fun _ ht => ?_
  split
  · exact (h.checkExpr _ value hvalue).bind fun _ he => results_pure ⟨ht, he⟩
  · refine results_then fun _ => (h.checkAssigned _ _ _ hvalue).bind fun _ he => ?_
    exact results_then fun _ => results_pure ⟨ht, he⟩

theorem checkAssignIndex (span : Span) {n : Note} {object index : Expr}
    (htarget : ArePlain (Expr.index n object index).nodes) (op : Option BinaryOp) {value : Expr}
    (hvalue : ArePlain value.nodes) :
    Results c (fun r => (∀ x ∈ r.1.nodes, p x) ∧ ∀ x ∈ r.2.nodes, p x)
      (checkAssignIndex span n object index op value) := by
  obtain ⟨hn, hparts⟩ := List.forall_mem_cons.1 htarget
  obtain ⟨hobject, hindex⟩ := List.forall_mem_append.1 hparts
  have hnode {o i : Expr} (n' : Note) (hn' : n'.IsPlain) (ho : ∀ x ∈ o.nodes, p x) (hi : ∀ x ∈ i.nodes, p x) :
      ∀ x ∈ (Expr.index n' o i).nodes, p x :=
    List.forall_mem_cons.2 ⟨h.plain _ hn', List.forall_mem_append.2 ⟨ho, hi⟩⟩
  refine (h.checkExpr _ object hobject).bind fun _ ho => ?_
  split
  · refine (h.checkExpr _ index hindex).bind fun _ hi => (h.checkExpr _ value hvalue).bind fun _ he => ?_
    exact results_pure ⟨hnode _ hn ho hi, he⟩
  · split
    · refine results_then fun _ => (h.checkExpr _ index hindex).bind fun _ hi => ?_
      exact (h.checkExpr _ value hvalue).bind fun _ he => results_pure ⟨hnode _ hn ho hi, he⟩
    · refine (h.checkExpr _ index hindex).bind fun _ hi => results_then fun _ => ?_
      split
      · refine (h.checkAssigned _ _ _ hvalue).bind fun _ he => ?_
        exact results_then fun _ => results_pure ⟨hnode _ hn ho hi, he⟩
      · refine (h.checkExpr _ value hvalue).bind fun _ he => ?_
        exact results_then fun _ => results_pure ⟨hnode _ hn ho hi, he⟩

theorem checkAssign (span : Span) {target : Expr} (htarget : ArePlain target.nodes) (op : Option BinaryOp)
    {value : Expr} (hvalue : ArePlain value.nodes) :
    Results c (fun r => (∀ x ∈ r.1.nodes, p x) ∧ ∀ x ∈ r.2.nodes, p x) (checkAssign span target op value) := by
  unfold Analysis.checkAssign
  split
  · refine (h.checkAssignName span (htarget _ List.mem_cons_self) _ op hvalue).bind fun _ hr => ?_
    exact results_then fun _ => results_pure ⟨List.forall_mem_singleton.2 (h.plain _ hr.1), hr.2⟩
  · refine results_then fun _ => ?_
    split
    · refine results_then fun _ => (h.checkExpr _ value hvalue).bind fun _ he => ?_
      exact results_pure ⟨h.nodes htarget, he⟩
    · exact h.checkAssignMember span htarget op hvalue
  · exact h.checkAssignIndex span htarget op hvalue
  · refine results_then fun _ => (h.checkExpr _ value hvalue).bind fun _ he => ?_
    exact results_then fun _ => results_pure ⟨h.nodes htarget, he⟩

theorem checkReturned (span : Span) (ret : Ty) {e : Expr} (he : ArePlain e.nodes) :
    Results c (fun e => ∀ x ∈ nodes? e, p x) (checkReturned span ret e) := by
  unfold Analysis.checkReturned
  split
  · refine (h.checkExpr _ e he).bind fun _ he => results_then fun _ => ?_
    exact results_then fun _ => results_pure he
  · refine (h.checkExpr _ e he).bind fun _ he => ?_
    split
    · exact results_then fun _ => results_pure he
    · exact results_then fun _ => results_then fun _ => results_then fun _ => results_pure he

theorem checkReturn (span : Span) {value : Option Expr} (hvalue : ArePlain (nodes? value)) :
    Results c (fun e => ∀ x ∈ nodes? e, p x) (checkReturn span value) := by
  refine results_read ?_
  dsimp only
  split
  · exact results_then fun _ => results_pure (List.forall_mem_nil p)
  · refine results_read ?_
    split
    · exact results_then fun _ => results_then fun _ => h.checkReturned span c.ret hvalue
    · exact h.checkReturned span c.ret hvalue

end

/-! ## Statements -/

mutual

/-- All nodes of a checked statement have the property. -/
theorem checkStmt (h : Establishes c p) : (stmt : Stmt) → ArePlain stmt.nodes →
    Results c (fun stmt => ∀ x ∈ stmt.nodes, p x) (checkStmt stmt)
  | .varDecl s name ty isConst init, hp => by
      rw [Analysis.checkStmt]
      exact (h.checkVarDecl s name ty isConst hp).bind fun _ hinit => results_pure hinit
  | .assign s target op value, hp => by
      rw [Analysis.checkStmt]
      obtain ⟨ht, he⟩ := List.forall_mem_append.1 hp
      exact (h.checkAssign s ht op he).bind fun _ hr => results_pure (List.forall_mem_append.2 hr)
  | .expr s e, hp => by
      rw [Analysis.checkStmt]
      exact (h.checkExpr _ e hp).bind fun _ he => results_pure he
  | .ifThen s e body, hp => by
      rw [Analysis.checkStmt]
      obtain ⟨he, hbody⟩ := List.forall_mem_append.1 hp
      refine (h.checkCondition he).bind fun _ he => results_then fun _ => ?_
      refine ((h.checkStmts body hbody).inScope _).bind fun _ hbody => ?_
      exact results_then fun _ => results_then fun _ => results_pure (List.forall_mem_append.2 ⟨he, hbody⟩)
  | .ifElse s e a b, hp => by
      rw [Analysis.checkStmt]
      obtain ⟨he, hp⟩ := List.forall_mem_append.1 hp
      obtain ⟨ha, hb⟩ := List.forall_mem_append.1 hp
      refine (h.checkCondition he).bind fun _ he => results_then fun _ => ?_
      refine ((h.checkStmts a ha).inScope _).bind fun _ ha => results_then fun _ => results_then fun _ => ?_
      refine ((h.checkStmts b hb).inScope _).bind fun _ hb => results_then fun _ => results_then fun _ => ?_
      exact results_pure (List.forall_mem_append.2 ⟨he, List.forall_mem_append.2 ⟨ha, hb⟩⟩)
  | .while s e body, hp => by
      rw [Analysis.checkStmt]
      obtain ⟨he, hbody⟩ := List.forall_mem_append.1 hp
      refine results_then fun _ => (h.checkCondition he).bind fun _ he => ?_
      refine (((h.checkStmts body hbody).inScope _).repeated).bind fun _ hbody => ?_
      exact results_pure (List.forall_mem_append.2 ⟨he, hbody⟩)
  | .doWhile s body e, hp => by
      rw [Analysis.checkStmt]
      obtain ⟨he, hbody⟩ := List.forall_mem_append.1 hp
      refine results_then fun _ => ((h.checkStmts body hbody).inScope _).bind fun _ hbody => ?_
      refine (h.checkCondition he).bind fun _ he => results_then fun _ => ?_
      exact results_pure (List.forall_mem_append.2 ⟨he, hbody⟩)
  | .for s init e update body, hp => by
      obtain ⟨hinit, hp⟩ := List.forall_mem_append.1 hp
      obtain ⟨he, hp⟩ := List.forall_mem_append.1 hp
      obtain ⟨hupdate, hbody⟩ := List.forall_mem_append.1 hp
      -- The body is checked before the step, and the step stands in front of it.
      have hloop : ∀ (init : Option Stmt) (e : Option Expr), (∀ x ∈ stmtNodes? init, p x) → (∀ x ∈ nodes? e, p x) →
          Results c (fun stmt => ∀ x ∈ stmt.nodes, p x) (Analysis.inScope .loop (do
            let body ← Analysis.checkStmts body
            let update ← Analysis.checkStmt? update
            return Stmt.for s init e update body)) := by
        intro init e hinit he
        refine Results.inScope ((h.checkStmts body hbody).bind fun _ hbody => ?_) _
        refine (h.checkStmt? update hupdate).bind fun _ hupdate => results_pure ?_
        refine List.forall_mem_append.2 ⟨hinit, List.forall_mem_append.2 ⟨he, ?_⟩⟩
        exact List.forall_mem_append.2 ⟨hupdate, hbody⟩
      rw [Analysis.checkStmt]
      refine Results.inScope ((h.checkStmt? init hinit).bind fun _ hinit => Results.repeated ?_) _
      split
      · exact hloop _ none hinit nofun
      · exact (h.checkCondition he).bind fun _ he => hloop _ (some _) hinit he
  | .forEach s kind ty name e body, hp => by
      rw [Analysis.checkStmt]
      obtain ⟨he, hbody⟩ := List.forall_mem_append.1 hp
      refine (h.checkExpr _ e he).bind fun _ he => results_then fun _ => ?_
      refine Results.repeated (Results.inScope (results_then fun _ => ?_) _)
      exact (h.checkStmts body hbody).bind fun _ hbody => results_pure (List.forall_mem_append.2 ⟨he, hbody⟩)
  | .switch s value arms, hp => by
      rw [Analysis.checkStmt]
      obtain ⟨he, harms⟩ := List.forall_mem_append.1 hp
      refine (h.checkSwitched he).bind fun _ he => results_then fun _ => ?_
      refine (h.checkArms _ _ _ arms harms).bind fun _ harms => results_then fun _ => ?_
      exact results_pure (List.forall_mem_append.2 ⟨he, harms⟩)
  | .break s, _ => by
      rw [Analysis.checkStmt]
      exact results_then fun _ => results_then fun _ => results_pure nofun
  | .continue s, _ => by
      rw [Analysis.checkStmt]
      exact results_then fun _ => results_then fun _ => results_pure nofun
  | .ret s value, hp => by
      rw [Analysis.checkStmt]
      exact (h.checkReturn s hp).bind fun _ he => results_pure he
  | .throw s value, hp => by
      rw [Analysis.checkStmt]
      exact (h.checkThrow s hp).bind fun _ he => results_pure he
  | .try s body clauses, hp => by
      rw [Analysis.checkStmt]
      obtain ⟨hbody, hclauses⟩ := List.forall_mem_append.1 hp
      refine results_then fun _ => ((h.checkStmts body hbody).inScope _).bind fun _ hbody => results_then fun _ => ?_
      refine (h.checkClauses _ _ clauses hclauses).bind fun _ hclauses => results_then fun _ => ?_
      exact results_pure (List.forall_mem_append.2 ⟨hbody, hclauses⟩)
  | .block s body, hp => by
      rw [Analysis.checkStmt]
      exact ((h.checkStmts body hp).inScope _).bind fun _ hbody => results_pure hbody

theorem checkStmts (h : Establishes c p) : (stmts : List Stmt) → ArePlain (stmtNodes stmts) →
    Results c (fun stmts => ∀ x ∈ stmtNodes stmts, p x) (checkStmts stmts)
  | [], _ => by
      rw [Analysis.checkStmts]
      exact results_pure nofun
  | stmt :: rest, hp => by
      rw [Analysis.checkStmts]
      obtain ⟨hstmt, hrest⟩ := List.forall_mem_append.1 hp
      refine (h.checkStmt stmt hstmt).bind fun _ hstmt => (h.checkStmts rest hrest).bind fun _ hrest => ?_
      exact results_pure (List.forall_mem_append.2 ⟨hstmt, hrest⟩)

theorem checkStmt? (h : Establishes c p) : (stmt? : Option Stmt) → ArePlain (stmtNodes? stmt?) →
    Results c (fun stmt? => ∀ x ∈ stmtNodes? stmt?, p x) (checkStmt? stmt?)
  | none, _ => by
      rw [Analysis.checkStmt?]
      exact results_pure nofun
  | some stmt, hp => by
      rw [Analysis.checkStmt?]
      exact (h.checkStmt stmt hp).bind fun _ hstmt => results_pure hstmt

theorem checkArms (h : Establishes c p) : (ty? : Option Ty) → (before : FlowSnapshot) →
    (merged : Option FlowSnapshot) → (arms : List SwitchArm) → ArePlain (armNodes arms) →
    Results c (fun r => ∀ x ∈ armNodes r.1, p x) (checkArms ty? before merged arms)
  | _, _, _, [], _ => by
      rw [Analysis.checkArms]
      exact results_pure nofun
  | ty?, before, merged, .mk s test body fallsThrough :: rest, hp => by
      obtain ⟨htest, hp⟩ := List.forall_mem_append.1 hp
      obtain ⟨hbody, hrest⟩ := List.forall_mem_append.1 hp
      -- With or without a test, the arm goes on with its body and the arms behind it.
      have hfrom : ∀ test, (∀ x ∈ nodes? test, p x) → Results c (fun r => ∀ x ∈ armNodes r.1, p x)
          (checkArmsFrom ty? before merged s test body fallsThrough rest) := by
        intro test htest
        refine results_then fun _ => ((h.checkStmts body hbody).inScope _).bind fun _ hbody => ?_
        refine results_then fun _ => results_then fun _ => (h.checkArms _ _ _ rest hrest).bind fun _ hrest => ?_
        exact results_pure (List.forall_mem_append.2 ⟨htest, List.forall_mem_append.2 ⟨hbody, hrest⟩⟩)
      cases test with
      | none =>
          rw [Analysis.checkArms]
          exact hfrom none nofun
      | some e =>
          rw [Analysis.checkArms]
          exact (h.checkAgainst _ htest).bind fun e' he => hfrom (some e') he

theorem checkClauses (h : Establishes c p) : (before merged : FlowSnapshot) → (clauses : List CatchClause) →
    ArePlain (clauseNodes clauses) →
    Results c (fun r => ∀ x ∈ clauseNodes r.1, p x) (checkClauses before merged clauses)
  | _, _, [], _ => by
      rw [Analysis.checkClauses]
      exact results_pure nofun
  | before, merged, .mk s proto binding body :: rest, hp => by
      rw [Analysis.checkClauses]
      obtain ⟨hbody, hrest⟩ := List.forall_mem_append.1 hp
      refine results_then fun _ => results_then fun _ => ?_
      refine Results.bind (Results.inScope (results_then fun _ => h.checkStmts body hbody) _) fun _ hbody => ?_
      refine results_then fun _ => (h.checkClauses _ _ rest hrest).bind fun _ hrest => ?_
      exact results_pure (List.forall_mem_append.2 ⟨hbody, hrest⟩)

end

/-! ## Declarations -/

section

variable (h : Establishes c p)

include h

theorem checkFunction (proto? : Option String) {f : FunctionDecl} (hf : ArePlain (stmtNodes f.body)) :
    Results c (fun f => ∀ x ∈ stmtNodes f.body, p x) (checkFunction proto? f) := by
  refine results_withReader (results_then fun _ => Results.inScope (results_then fun _ => ?_) _)
  refine ((h.body proto? f.ret).checkStmts f.body hf).bind fun _ hbody => ?_
  exact results_then fun _ => results_pure hbody

theorem checkField (proto : String) {f : FieldDecl} (hf : ArePlain (nodes? f.init)) :
    Results c (fun f => ∀ x ∈ nodes? f.init, p x) (checkField proto f) := by
  refine results_then fun known => results_then fun _ => ?_
  split
  · exact results_pure (h.nodes hf)
  · rename_i e he
    rw [he] at hf
    refine results_withReader ?_
    exact (Results.inScope ((h.body none c.ret).checkAgainst _ hf) _).bind fun _ he => results_pure he

theorem checkPrototype {d : PrototypeDecl} (hd : ArePlain d.nodes) :
    Results c (fun d => ∀ x ∈ d.nodes, p x) (checkPrototype d) := by
  obtain ⟨hfields, hmethods⟩ := List.forall_mem_append.1 hd
  have hmethod : ∀ m ∈ d.methods, Results c (fun m : MethodDecl => ∀ x ∈ stmtNodes m.function.body, p x) (do
      return { m with function := ← Analysis.checkFunction (some d.name) m.function }) := by
    intro m hm
    exact (h.checkFunction _ (List.forall_mem_flatMap.1 hmethods m hm)).bind fun _ hf => results_pure hf
  refine results_read ?_
  split
  · refine (results_mapM fun f hf => h.checkField d.name (List.forall_mem_flatMap.1 hfields f hf)).bind ?_
    refine fun fields hfields => (results_mapM hmethod).bind fun methods hmethods => results_pure ?_
    exact List.forall_mem_append.2 ⟨List.forall_mem_flatMap.2 hfields, List.forall_mem_flatMap.2 hmethods⟩
  · exact results_pure (h.nodes hd)

theorem checkDecl {d : Decl} (hd : ArePlain d.nodes) :
    Results c (fun d => ∀ x ∈ d.nodes, p x) (checkDecl d) := by
  unfold Analysis.checkDecl
  split
  · exact (h.checkFunction _ hd).bind fun _ hf => results_pure hf
  · exact (h.checkPrototype hd).bind fun _ hd => results_pure hd
  · exact results_pure (h.nodes hd)

end

/-- All nodes of a checked program have the property, if on none of them a constant was noted before. -/
theorem program {q : ProtoScript.Program} {library : Library} {p : Expr → Prop}
    (h : Establishes (q.context library) p) (hq : ArePlain q.nodes) :
    ∀ e ∈ (q.analyze library).program.nodes, p e := by
  have hdecls := results_mapM (fun d hd => h.checkDecl (List.forall_mem_flatMap.1 hq d hd)) {}
  exact List.forall_mem_flatMap.2 hdecls

end ProtoScript.Analysis.Establishes
