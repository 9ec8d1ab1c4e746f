import ProtoScript.Proofs.Analysis.TypedProgram

set_option autoImplicit false

/-!
# Statements that jump, before and after checking

Whether a statement surely jumps, and whether it surely leaves the function, is seen from its form alone,
which checking does not change. So a function with a result that comes out of checking without a report is
one whose last statement surely leaves it (`passes_function_leaves`).
-/

namespace ProtoScript

theorem alwaysLeaves_cons (s : Stmt) (rest : List Stmt) :
    alwaysLeaves (s :: rest) = if rest.isEmpty then s.leaves else alwaysLeaves rest := by
  cases rest with
  | nil => rfl
  | cons t rest => rfl

theorem endsInJump_cons (s : Stmt) (rest : List Stmt) :
    endsInJump (s :: rest) = if rest.isEmpty then s.isJump else endsInJump rest := by
  cases rest with
  | nil => rfl
  | cons t rest => rfl

namespace Analysis

/-- Both statements surely jump or neither does, and both surely leave the function or neither does. -/
def SameJumps (stmt stmt' : Stmt) : Prop := stmt'.isJump = stmt.isJump ∧ stmt'.leaves = stmt.leaves

/-- The same of the last of the statements. -/
def SameEnd (body body' : List Stmt) : Prop :=
  body'.length = body.length ∧ endsInJump body' = endsInJump body ∧ alwaysLeaves body' = alwaysLeaves body

theorem SameEnd.cons {stmt stmt' : Stmt} {rest rest' : List Stmt} (hstmt : SameJumps stmt stmt')
    (hrest : SameEnd rest rest') : SameEnd (stmt :: rest) (stmt' :: rest') := by
  obtain ⟨hlength, hjumps, hleaves⟩ := hrest
  have hempty : rest'.isEmpty = rest.isEmpty := by
    rw [Bool.eq_iff_iff, List.isEmpty_iff_length_eq_zero, List.isEmpty_iff_length_eq_zero, hlength]
  refine ⟨congrArg Nat.succ hlength, ?_, ?_⟩
  · rw [endsInJump_cons, endsInJump_cons, hempty, hstmt.1, hjumps]
  · rw [alwaysLeaves_cons, alwaysLeaves_cons, hempty, hstmt.2, hleaves]

variable {c : Context}

mutual

/-- Checking leaves the form of a statement. -/
theorem sameJumps_of_passes : (stmt : Stmt) → {stmt' : Stmt} → {s s' : State} →
    Passes (checkStmt stmt) c s stmt' s' → SameJumps stmt stmt'
  | .varDecl .., _, _, _, h => by
      obtain ⟨_, _, _, rfl, _⟩ := passes_varDecl h
      exact ⟨rfl, rfl⟩
  | .assign .., _, _, _, h => by
      obtain ⟨_, _, _, rfl⟩ := passes_assign h
      exact ⟨rfl, rfl⟩
  | .expr .., _, _, _, h => by
      obtain ⟨_, _, rfl⟩ := passes_expr h
      exact ⟨rfl, rfl⟩
  | .ifThen .., _, _, _, h => by
      obtain ⟨_, _, _, _, _, _, rfl, _⟩ := passes_ifThen h
      exact ⟨rfl, rfl⟩
  | .ifElse sp e x y, _, _, _, h => by
      obtain ⟨_, _, x', _, y', _, _, hx, hy, rfl, _⟩ := passes_ifElse h
      obtain ⟨_, hxjumps, hxleaves⟩ := sameEnd_of_passes x hx
      obtain ⟨_, hyjumps, hyleaves⟩ := sameEnd_of_passes y hy
      constructor
      · rw [Stmt.isJump, Stmt.isJump, hxjumps, hyjumps]
      · rw [Stmt.leaves, Stmt.leaves, hxleaves, hyleaves]
  | .while .., _, _, _, h => by
      obtain ⟨_, _, _, _, _, _, rfl, _⟩ := passes_while h
      exact ⟨rfl, rfl⟩
  | .doWhile .., _, _, _, h => by
      obtain ⟨_, _, _, _, _, _, rfl, _⟩ := passes_doWhile h
      exact ⟨rfl, rfl⟩
  | .for .., _, _, _, h => by
      obtain ⟨_, _, _, _, _, _, _, _, _, _, _, _, rfl, _⟩ := passes_for h
      exact ⟨rfl, rfl⟩
  | .forEach .., _, _, _, h => by
      obtain ⟨_, _, _, _, _, _, _, _, _, _, _, _, rfl, _⟩ := passes_forEach h
      exact ⟨rfl, rfl⟩
  | .switch sp e arms, _, _, _, h => by
      obtain ⟨_, _, arms', _, _, _, harms, rfl, _⟩ := passes_switch h
      obtain ⟨htests, hleaves⟩ := sameEnd_of_passes_arms arms harms
      refine ⟨rfl, ?_⟩
      rw [Stmt.leaves, Stmt.leaves, htests, hleaves]
  | .break _, _, _, _, h => by
      obtain ⟨_, rfl, _⟩ := passes_break h
      exact ⟨rfl, rfl⟩
  | .continue _, _, _, _, h => by
      obtain ⟨_, rfl, _⟩ := passes_continue h
      exact ⟨rfl, rfl⟩
  | .ret .., _, _, _, h => by
      obtain ⟨_, _, rfl⟩ := passes_ret h
      exact ⟨rfl, rfl⟩
  | .throw .., _, _, _, h => by
      obtain ⟨_, _, rfl⟩ := passes_throw h
      exact ⟨rfl, rfl⟩
  | .try sp body clauses, _, _, _, h => by
      obtain ⟨body', _, clauses', _, _, hbody, hclauses, rfl, _⟩ := passes_try h
      refine ⟨rfl, ?_⟩
      rw [Stmt.leaves, Stmt.leaves, (sameEnd_of_passes body hbody).2.2,
        clausesLeave_of_passes clauses hclauses]
  | .block sp body, _, _, _, h => by
      obtain ⟨body', _, hbody, rfl, _⟩ := passes_block h
      exact (sameEnd_of_passes body hbody).2
termination_by structural x => x

theorem sameEnd_of_passes : (body : List Stmt) → {body' : List Stmt} → {s s' : State} →
    Passes (checkStmts body) c s body' s' → SameEnd body body'
  | [], _, _, _, h => by
      obtain ⟨rfl, _⟩ := passes_stmts_nil h
      exact ⟨rfl, rfl, rfl⟩
  | stmt :: rest, _, _, _, h => by
      obtain ⟨stmt', _, rest', hstmt, hrest, rfl⟩ := passes_stmts_cons h
      exact .cons (sameJumps_of_passes stmt hstmt) (sameEnd_of_passes rest hrest)
termination_by structural x => x

theorem sameEnd_of_passes_arms : (arms : List SwitchArm) → {ty? : Option Ty} → {before : FlowSnapshot} →
    {merged merged' : Option FlowSnapshot} → {arms' : List SwitchArm} → {s s' : State} →
    Passes (checkArms ty? before merged arms) c s (arms', merged') s' →
    (arms'.any fun arm => arm.test.isNone) = (arms.any fun arm => arm.test.isNone) ∧
      armsLeave arms' = armsLeave arms
  | [], _, _, _, _, _, _, _, h => by
      obtain ⟨rfl, _⟩ := passes_arms_nil h
      exact ⟨rfl, rfl⟩
  | .mk sp test body falls :: rest, _, _, _, _, _, _, _, h => by
      obtain ⟨test', _, body', _, rest', htest, hbody, hrest, rfl⟩ := passes_arms_cons h
      obtain ⟨htests, hleaves⟩ := sameEnd_of_passes_arms rest hrest
      have hsome : test'.isNone = test.isNone := by
        cases test with
        | none =>
            cases htest.run
            rfl
        | some e =>
            obtain ⟨e', s₁, _, hpure⟩ := run_step htest.run
            cases hpure
            rfl
      constructor
      · rw [List.any_cons, List.any_cons, htests]
        exact congrArg (· || _) hsome
      · rw [armsLeave, armsLeave, (sameEnd_of_passes body hbody).2.2, hleaves]
termination_by structural x => x

theorem clausesLeave_of_passes : (clauses : List CatchClause) → {before merged merged' : FlowSnapshot} →
    {clauses' : List CatchClause} → {s s' : State} →
    Passes (checkClauses before merged clauses) c s (clauses', merged') s' →
    clausesLeave clauses' = clausesLeave clauses
  | [], _, _, _, _, _, _, h => by
      obtain ⟨rfl, _⟩ := passes_clauses_nil h
      rfl
  | .mk sp proto x body :: rest, _, _, _, _, _, _, h => by
      obtain ⟨_, _, body', _, rest', _, _, _, hbody, hrest, rfl⟩ := passes_clauses_cons h
      rw [clausesLeave, clausesLeave, (sameEnd_of_passes body hbody).2.2, clausesLeave_of_passes rest hrest]
termination_by structural x => x

end

/-- A function that gives a value surely leaves by its last statement. -/
theorem passes_function_leaves {proto? : Option String} {f f' : FunctionDecl} {s s' : State}
    (h : Passes (checkFunction proto? f) c s f' s') (hret : f'.ret.isVoid = false) :
    alwaysLeaves f'.body := by
  obtain ⟨h, hsilent⟩ := h
  have hrun : (checkTy f.ret f.span >>= fun _ => inScope .function (do
      checkParams f.params
      let body ← checkStmts f.body
      expect (f.ret.isVoid || alwaysLeaves f.body) (.missingReturn f.name f.ret) f.span
      return { f with body })) { c with proto?, ret := f.ret } s = (f', s') := h
  obtain ⟨_, s₁, h₁, hrest⟩ := run_step hrun
  have l₁ := (namesKept.keeps_checkTy f.ret f.span).count_le h₁
  obtain ⟨t, ⟨hinner, hle⟩, rfl⟩ := Passes.inScope (s := s₁) ⟨hrest, by omega⟩
  obtain ⟨_, s₃, h₃, hinner⟩ := run_step hinner
  obtain ⟨body, s₄, h₄, hinner⟩ := run_step hinner
  obtain ⟨_, s₅, h₅, hinner⟩ := run_step hinner
  cases hinner
  have l₃ := (namesKept.grows_checkParams f.params).count_le h₃
  have l₄ := (grows_checkStmts f.body).count_le h₄
  have l₅ := (namesKept.keeps_expect _ _ _).count_le h₅
  obtain ⟨hleaves, _⟩ := expect_silent h₅ (by omega)
  have hbody : Passes (checkStmts f.body) { c with proto?, ret := f.ret } s₃ body s₄ := ⟨h₄, by omega⟩
  rw [show f.ret.isVoid = false from hret, Bool.false_or] at hleaves
  exact (sameEnd_of_passes f.body hbody).2.2.trans hleaves

end Analysis

end ProtoScript
