import ProtoScript.Proofs.Analysis.TypedExpr

set_option autoImplicit false

/-!
# How a statement is checked

For every form of statement, the steps that checking one takes if it reports nothing: the parts that are
checked, the states they are checked in, and how the results are put together. Everything that is proved about
checked statements follows from these; nothing else looks into `checkStmt`.
-/

namespace ProtoScript.Analysis

/-! ## Silent steps -/

/-- The step leads from one state to the other with the given result, and reports nothing. -/
structure Passes {α : Type} (m : Check α) (c : Context) (s : State) (a : α) (s' : State) : Prop where
  run : m c s = (a, s')
  silent : s'.count ≤ s.count

/-- The state in a scope of its own. -/
def State.enter (s : State) (kind : ScopeKind) : State := { s with scopes := s.scopes.enter kind }

/-- The state behind the innermost scope. -/
def State.leave (s : State) : State := { s with scopes := s.scopes.leave }

/-- The state without what was known of the lengths of lists. -/
def State.forget (s : State) : State := { s with scopes := s.scopes.forgetLengths }

/-- The state with the knowledge of a snapshot. -/
def State.restored (s : State) (snap : FlowSnapshot) : State :=
  { s with scopes := s.scopes.restore snap }

section

variable {α : Type} {m : Check α} {c : Context} {s s' : State} {a : α}

theorem Passes.unique {s₂ : State} {a₂ : α} (h : Passes m c s a s') (h₂ : Passes m c s a₂ s₂) :
    a = a₂ ∧ s' = s₂ := Prod.mk.inj (h.run.symm.trans h₂.run)

theorem Passes.inScope {kind : ScopeKind} (h : Passes (Analysis.inScope kind m) c s a s') :
    ∃ s₁, Passes m c (s.enter kind) a s₁ ∧ s' = s₁.leave := by
  obtain ⟨h, hsilent⟩ := h
  obtain ⟨_, s₁, h₁, h⟩ := run_step h
  obtain ⟨a', s₂, h₂, h⟩ := run_step h
  obtain ⟨_, s₃, h₃, h⟩ := run_step h
  cases h₁
  cases h₃
  cases h
  exact ⟨s₂, ⟨h₂, hsilent⟩, rfl⟩

theorem Passes.repeated (h : Passes (Analysis.repeated m) c s a s') :
    ∃ s₁, Passes m c s.forget a s₁ ∧ s' = (s₁.restored s.scopes.snapshot).forget := by
  obtain ⟨h, hsilent⟩ := h
  obtain ⟨_, s₁, h₁, h⟩ := run_step h
  obtain ⟨_, s₂, h₂, h⟩ := run_step h
  obtain ⟨a', s₃, h₃, h⟩ := run_step h
  obtain ⟨_, s₄, h₄, h⟩ := run_step h
  obtain ⟨_, s₅, h₅, h⟩ := run_step h
  cases h₁
  cases h₂
  cases h₄
  cases h₅
  cases h
  exact ⟨s₃, ⟨h₃, hsilent⟩, rfl⟩

end

variable {c : Context} {s s' : State}

/-! ## Statements in a row -/

theorem passes_stmts_nil {body' : List Stmt} (h : Passes (checkStmts []) c s body' s') :
    body' = [] ∧ s' = s := by
  obtain ⟨h, _⟩ := h
  rw [checkStmts] at h
  cases h
  exact ⟨rfl, rfl⟩

theorem passes_stmts_cons {stmt : Stmt} {rest body' : List Stmt}
    (h : Passes (checkStmts (stmt :: rest)) c s body' s') :
    ∃ stmt' s₁ rest', Passes (checkStmt stmt) c s stmt' s₁ ∧
      Passes (checkStmts rest) c s₁ rest' s' ∧ body' = stmt' :: rest' := by
  obtain ⟨h, hsilent⟩ := h
  rw [checkStmts] at h
  obtain ⟨stmt', s₁, h₁, h⟩ := run_step h
  obtain ⟨rest', s₂, h₂, h⟩ := run_step h
  cases h
  have l₁ := (namesKept.grows_checkStmt stmt).count_le h₁
  have l₂ := (grows_checkStmts rest).count_le h₂
  exact ⟨stmt', s₁, rest', ⟨h₁, by omega⟩, ⟨h₂, by omega⟩, rfl⟩

theorem passes_stmt?_none {stmt' : Option Stmt} (h : Passes (checkStmt? none) c s stmt' s') :
    stmt' = none ∧ s' = s := by
  obtain ⟨h, _⟩ := h
  rw [checkStmt?] at h
  cases h
  exact ⟨rfl, rfl⟩

theorem passes_stmt?_some {stmt : Stmt} {r : Option Stmt}
    (h : Passes (checkStmt? (some stmt)) c s r s') :
    ∃ stmt', Passes (checkStmt stmt) c s stmt' s' ∧ r = some stmt' := by
  obtain ⟨h, hsilent⟩ := h
  rw [checkStmt?] at h
  obtain ⟨stmt', s₁, h₁, h⟩ := run_step h
  cases h
  exact ⟨stmt', ⟨h₁, hsilent⟩, rfl⟩

/-! ## Declarations and assignments -/

/-- What is checked before the name of a declaration is bound. -/
theorem passes_varDecl {sp : Span} {x : String} {ty : Ty} {isConst : Bool} {init : Option Expr}
    {stmt' : Stmt} (h : Passes (checkStmt (.varDecl sp x ty isConst init)) c s stmt' s') :
    ∃ init' s₁ b, stmt' = .varDecl sp x ty isConst init' ∧ b.ty = ty ∧ b.initialized = init'.isSome ∧
      s₁.count ≤ s.count ∧ unknownPrototype? c.hierarchy ty = none ∧ ty.containsVoid = false ∧
      define x b c s₁ = (none, s') ∧
      match init with
      | none => init' = none ∧ s₁ = s
      | some e => ∃ e' s₂, Passes (checkStored ty e) c s e' s₂ ∧ init' = some e' ∧
          s₁.scopes.forgetLengths = s₂.scopes.forgetLengths := by
  obtain ⟨h, hsilent⟩ := h
  rw [checkStmt] at h
  obtain ⟨init', s₁, h₁, h⟩ := run_step h
  cases h
  obtain ⟨known, s₂, h₂, h₁⟩ := run_step h₁
  obtain ⟨_, s₃, h₃, h₁⟩ := run_step h₁
  obtain ⟨_, s₄, h₄, h₁⟩ := run_step h₁
  have hdeclared : ∀ {b : Binding} {init init' : Option Expr} {s₅ : State},
      checkDeclared sp x b init c s₅ = (init', s') → s'.count ≤ s₅.count →
      init' = init ∧ define x b c s₅ = (none, s') := by
    intro b init init' s₅ h hle
    obtain ⟨previous, s₆, h₆, h⟩ := run_step h
    have l₆ := (grows_define x b).count_le h₆
    cases previous with
    | some previous =>
        have := count_lt_of_report_pure h
        omega
    | none =>
        cases h
        exact ⟨rfl, h₆⟩
  have l₂ := (namesKept.keeps_checkTy ty sp).count_le h₂
  have l₃ := (namesKept.keeps_expect _ _ _).count_le h₃
  have l₄ := (namesKept.keeps_expect _ _ _).count_le h₄
  cases init with
  | none =>
      have l₅ := (namesKept.grows_checkDeclared sp x _ none).count_le h₁
      obtain ⟨rfl, hdefine⟩ := hdeclared h₁ (by omega)
      obtain ⟨hunknown, rfl, rfl⟩ := checkTy_silent h₂ (by omega)
      obtain ⟨hvoid, rfl⟩ := expect_silent h₃ (by omega)
      obtain ⟨_, rfl⟩ := expect_silent h₄ (by omega)
      exact ⟨none, _, _, rfl, rfl, rfl, Nat.le_refl _, hunknown, by simpa using hvoid, hdefine, rfl,
        rfl⟩
  | some e =>
      obtain ⟨e', s₅, h₅, h₁⟩ := run_step h₁
      obtain ⟨_, s₆, h₆, h₁⟩ := run_step h₁
      obtain ⟨_, s₇, h₇, h₁⟩ := run_step h₁
      have l₅ := (namesKept.looks_checkAgainst _ e).count_le h₅
      have l₆ := (namesKept.keeps_aliasesSelf e').count_le h₆
      have l₇ := (namesKept.keeps_escape e').count_le h₇
      have l₈ := (namesKept.grows_checkDeclared sp x _ _).count_le h₁
      obtain ⟨rfl, hdefine⟩ := hdeclared h₁ (by omega)
      obtain ⟨hunknown, rfl, rfl⟩ := checkTy_silent h₂ (by omega)
      obtain ⟨hvoid, rfl⟩ := expect_silent h₃ (by omega)
      obtain ⟨_, rfl⟩ := expect_silent h₄ (by omega)
      have hvoid : ty.containsVoid = false := by simpa using hvoid
      rw [hvoid] at h₅
      have hscopes : s₇.scopes.forgetLengths = s₅.scopes.forgetLengths := by
        have h₆ := congrArg (fun r => r.2.scopes.forgetLengths) h₆
        have h₇ := congrArg (fun r => r.2.scopes.forgetLengths) h₇
        exact h₇.symm.trans (((namesKept.looks_escape e' c s₆).scopes).trans
          (h₆.symm.trans (namesKept.looks_aliasesSelf e' c s₅).scopes))
      exact ⟨some e', s₇, _, rfl, rfl, rfl, by omega, hunknown, hvoid, hdefine, e', s₅,
        ⟨h₅, by omega⟩, rfl, hscopes⟩

theorem passes_assign {sp : Span} {target e : Expr} {op : Option BinaryOp} {stmt' : Stmt}
    (h : Passes (checkStmt (.assign sp target op e)) c s stmt' s') :
    ∃ target' e', Passes (checkAssign sp target op e) c s (target', e') s' ∧
      stmt' = .assign sp target' op e' := by
  obtain ⟨h, hsilent⟩ := h
  rw [checkStmt] at h
  obtain ⟨⟨target', e'⟩, s₁, h₁, h⟩ := run_step h
  cases h
  exact ⟨target', e', ⟨h₁, hsilent⟩, rfl⟩

theorem passes_expr {sp : Span} {e : Expr} {stmt' : Stmt}
    (h : Passes (checkStmt (.expr sp e)) c s stmt' s') :
    ∃ e', Passes (checkExpr none e) c s e' s' ∧ stmt' = .expr sp e' := by
  obtain ⟨h, hsilent⟩ := h
  rw [checkStmt] at h
  obtain ⟨e', s₁, h₁, h⟩ := run_step h
  cases h
  exact ⟨e', ⟨h₁, hsilent⟩, rfl⟩

/-! ## Choices and loops -/

theorem passes_ifThen {sp : Span} {e : Expr} {body : List Stmt} {stmt' : Stmt}
    (h : Passes (checkStmt (.ifThen sp e body)) c s stmt' s') :
    ∃ e' s₁ body' s₂, Passes (checkCondition e) c s e' s₁ ∧
      Passes (checkStmts body) c (s₁.enter .block) body' s₂ ∧ stmt' = .ifThen sp e' body' ∧
      s' = s₂.leave.restored (afterBranches s₂.leave.scopes.snapshot s₁.scopes.snapshot
        (endsInJump body) false) := by
  obtain ⟨h, hsilent⟩ := h
  rw [checkStmt] at h
  obtain ⟨e', s₁, h₁, h⟩ := run_step h
  obtain ⟨_, s₂, h₂, h⟩ := run_step h
  obtain ⟨body', s₃, h₃, h⟩ := run_step h
  obtain ⟨_, s₄, h₄, h⟩ := run_step h
  obtain ⟨_, s₅, h₅, h⟩ := run_step h
  cases h
  cases h₂
  cases h₄
  have l₁ := (namesKept.looks_checkCondition e).count_le h₁
  have l₃ := ((grows_checkStmts body).inScope _).count_le h₃
  have l₅ := (namesKept.keeps_restore _).count_le h₅
  obtain ⟨t₁, hbody, rfl⟩ := Passes.inScope ⟨h₃, by omega⟩
  cases h₅
  exact ⟨e', s₁, body', t₁, ⟨h₁, by omega⟩, hbody, rfl, rfl⟩

theorem passes_ifElse {sp : Span} {e : Expr} {a b : List Stmt} {stmt' : Stmt}
    (h : Passes (checkStmt (.ifElse sp e a b)) c s stmt' s') :
    ∃ e' s₁ a' s₂ b' s₃, Passes (checkCondition e) c s e' s₁ ∧
      Passes (checkStmts a) c (s₁.enter .block) a' s₂ ∧
      Passes (checkStmts b) c ((s₂.leave.restored s₁.scopes.snapshot).enter .block) b' s₃ ∧
      stmt' = .ifElse sp e' a' b' ∧
      s' = s₃.leave.restored (afterBranches s₂.leave.scopes.snapshot s₃.leave.scopes.snapshot
        (endsInJump a) (endsInJump b)) := by
  obtain ⟨h, hsilent⟩ := h
  rw [checkStmt] at h
  obtain ⟨e', s₁, h₁, h⟩ := run_step h
  obtain ⟨_, s₂, h₂, h⟩ := run_step h
  obtain ⟨a', s₃, h₃, h⟩ := run_step h
  obtain ⟨_, s₄, h₄, h⟩ := run_step h
  obtain ⟨_, s₅, h₅, h⟩ := run_step h
  obtain ⟨b', s₆, h₆, h⟩ := run_step h
  obtain ⟨_, s₇, h₇, h⟩ := run_step h
  obtain ⟨_, s₈, h₈, h⟩ := run_step h
  cases h
  cases h₂
  cases h₄
  cases h₇
  cases h₅
  have l₁ := (namesKept.looks_checkCondition e).count_le h₁
  have l₃ := ((grows_checkStmts a).inScope _).count_le h₃
  have l₆ := ((grows_checkStmts b).inScope _).count_le h₆
  have l₈ := (namesKept.keeps_restore _).count_le h₈
  have l₅ : (s₃.restored s₁.scopes.snapshot).count = s₃.count := rfl
  change (s₃.restored s₁.scopes.snapshot).count ≤ _ at l₆
  obtain ⟨t₁, ha, rfl⟩ := Passes.inScope ⟨h₃, by omega⟩
  obtain ⟨t₂, hb, rfl⟩ := Passes.inScope (s := t₁.leave.restored s₁.scopes.snapshot) ⟨h₆, by omega⟩
  cases h₈
  exact ⟨e', s₁, a', t₁, b', t₂, ⟨h₁, by omega⟩, ha, hb, rfl, rfl⟩

theorem passes_while {sp : Span} {e : Expr} {body : List Stmt} {stmt' : Stmt}
    (h : Passes (checkStmt (.while sp e body)) c s stmt' s') :
    ∃ e' s₁ body' s₂, Passes (checkCondition e) c s.forget e' s₁ ∧
      Passes (checkStmts body) c (s₁.forget.enter .loop) body' s₂ ∧ stmt' = .while sp e' body' ∧
      s' = (s₂.leave.restored s₁.scopes.snapshot).forget := by
  obtain ⟨h, hsilent⟩ := h
  rw [checkStmt] at h
  obtain ⟨_, s₁, h₁, h⟩ := run_step h
  obtain ⟨e', s₂, h₂, h⟩ := run_step h
  obtain ⟨body', s₃, h₃, h⟩ := run_step h
  cases h
  cases h₁
  have l₂ := (namesKept.looks_checkCondition e).count_le h₂
  have l₃ := ((grows_checkStmts body).inScope _).repeated.count_le h₃
  change s.count ≤ _ at l₂
  obtain ⟨t₁, hloop, rfl⟩ := Passes.repeated ⟨h₃, by omega⟩
  obtain ⟨t₂, hbody, rfl⟩ := hloop.inScope
  exact ⟨e', s₂, body', t₂, ⟨h₂, show _ ≤ s.count by omega⟩, hbody, rfl, rfl⟩

theorem passes_doWhile {sp : Span} {e : Expr} {body : List Stmt} {stmt' : Stmt}
    (h : Passes (checkStmt (.doWhile sp body e)) c s stmt' s') :
    ∃ body' s₁ e' s₂, Passes (checkStmts body) c (s.forget.enter .loop) body' s₁ ∧
      Passes (checkCondition e) c s₁.leave e' s₂ ∧ stmt' = .doWhile sp body' e' ∧ s' = s₂.forget := by
  obtain ⟨h, hsilent⟩ := h
  rw [checkStmt] at h
  obtain ⟨_, s₁, h₁, h⟩ := run_step h
  obtain ⟨body', s₂, h₂, h⟩ := run_step h
  obtain ⟨e', s₃, h₃, h⟩ := run_step h
  obtain ⟨_, s₄, h₄, h⟩ := run_step h
  cases h
  cases h₁
  have l₂ := ((grows_checkStmts body).inScope _).count_le h₂
  have l₃ := (namesKept.looks_checkCondition e).count_le h₃
  have l₄ := namesKept.keeps_forgetLengths.count_le h₄
  obtain ⟨t₁, hbody, rfl⟩ := Passes.inScope (s := s.forget) ⟨h₂, show _ ≤ s.count by omega⟩
  change s.count ≤ _ at l₂
  cases h₄
  exact ⟨body', t₁, e', s₃, hbody, ⟨h₃, by omega⟩, rfl, rfl⟩

/-- Checks a condition that may be missing. -/
def checkCondition? : Option Expr → Check (Option Expr)
  | none => return none
  | some e => do return some (← checkCondition e)

theorem inspects_checkCondition? (e : Option Expr) : Inspects (checkCondition? e) := by
  cases e with
  | none => exact inspects_pure _
  | some e => exact (namesKept.looks_checkCondition e).bind fun _ => inspects_pure _

theorem passes_condition?_none {r : Option Expr} (h : Passes (checkCondition? none) c s r s') :
    r = none ∧ s' = s := by
  obtain ⟨h, _⟩ := h
  cases h
  exact ⟨rfl, rfl⟩

theorem passes_condition?_some {e : Expr} {r : Option Expr}
    (h : Passes (checkCondition? (some e)) c s r s') :
    ∃ e', Passes (checkCondition e) c s e' s' ∧ r = some e' := by
  obtain ⟨h, hsilent⟩ := h
  obtain ⟨e', s₁, h₁, h⟩ := run_step h
  cases h
  exact ⟨e', ⟨h₁, hsilent⟩, rfl⟩

/-- The step is checked in the scope of the body, behind it. -/
theorem passes_for {sp : Span} {init update : Option Stmt} {e : Option Expr} {body : List Stmt}
    {stmt' : Stmt} (h : Passes (checkStmt (.for sp init e update body)) c s stmt' s') :
    ∃ init' s₁ e' s₂ body' s₃ update' s₄, Passes (checkStmt? init) c (s.enter .block) init' s₁ ∧
      Passes (checkCondition? e) c s₁.forget e' s₂ ∧
      Passes (checkStmts body) c (s₂.enter .loop) body' s₃ ∧
      Passes (checkStmt? update) c s₃ update' s₄ ∧ stmt' = .for sp init' e' update' body' ∧
      s' = (s₄.leave.restored s₁.scopes.snapshot).forget.leave := by
  obtain ⟨h, hsilent⟩ := h
  rw [checkStmt] at h
  obtain ⟨t, ⟨hinner, hle⟩, rfl⟩ := Passes.inScope ⟨h, hsilent⟩
  clear h hsilent
  obtain ⟨init', s₁, h₁, h⟩ := run_step hinner
  have l₁ := (namesKept.grows_checkStmt? init).count_le h₁
  have hstep : ∀ {init' e' stmt' s₂ t₂}, inScope .loop (do
      let body ← checkStmts body
      let update ← checkStmt? update
      return Stmt.for sp init' e' update body) c s₂ = (stmt', t₂) → t₂.count ≤ s₂.count →
      ∃ body' s₃ update' s₄, Passes (checkStmts body) c (s₂.enter .loop) body' s₃ ∧
        Passes (checkStmt? update) c s₃ update' s₄ ∧ stmt' = .for sp init' e' update' body' ∧
        t₂ = s₄.leave := by
    intro init' e' stmt' s₂ t₂ h hle
    obtain ⟨t₃, ⟨hinner, hle⟩, rfl⟩ := Passes.inScope ⟨h, hle⟩
    obtain ⟨body', s₃, h₃, hinner⟩ := run_step hinner
    obtain ⟨update', s₄, h₄, hinner⟩ := run_step hinner
    cases hinner
    have l₃ := (grows_checkStmts body).count_le h₃
    have l₄ := (namesKept.grows_checkStmt? update).count_le h₄
    exact ⟨body', s₃, update', t₃, ⟨h₃, by omega⟩, ⟨h₄, by omega⟩, rfl, rfl⟩
  have hkeeps : ∀ init' e', Keeps (inScope .loop (do
      let body ← checkStmts body
      let update ← checkStmt? update
      return Stmt.for sp init' e' update body)) := fun _ _ =>
    Grows.inScope ((grows_checkStmts body).bind fun _ => (namesKept.grows_checkStmt? update).bind fun _ =>
      (keeps_pure _).grows) _
  cases e with
  | none =>
      have lrest := (hkeeps init' none).repeated.count_le h
      change (s.enter .block).count ≤ _ at l₁
      obtain ⟨t₁, ⟨hloop, hcount⟩, rfl⟩ := Passes.repeated ⟨h, show _ by omega⟩
      obtain ⟨body', s₃, update', s₄, hbody, hupdate, rfl, rfl⟩ := hstep hloop hcount
      exact ⟨init', s₁, none, s₁.forget, body', s₃, update', s₄, ⟨h₁, by omega⟩,
        ⟨rfl, Nat.le_refl _⟩, hbody, hupdate, rfl, rfl⟩
  | some e =>
      have lrest := (Keeps.repeated ((namesKept.looks_checkCondition e).keeps.bind fun e' =>
        hkeeps init' (some e'))).count_le h
      obtain ⟨t₁, ⟨hloop, hcount⟩, rfl⟩ := Passes.repeated ⟨h, show _ by omega⟩
      obtain ⟨e', s₂, h₂, hloop⟩ := run_step hloop
      have l₂ := (namesKept.looks_checkCondition e).count_le h₂
      have l₃ := (hkeeps init' (some e')).count_le hloop
      obtain ⟨body', s₃, update', s₄, hbody, hupdate, rfl, rfl⟩ := hstep hloop (by omega)
      refine ⟨init', s₁, some e', s₂, body', s₃, update', s₄, ⟨h₁, by omega⟩, ⟨?_, by omega⟩,
        hbody, hupdate, rfl, rfl⟩
      show (some (checkCondition e c s₁.forget).1, (checkCondition e c s₁.forget).2) = _
      rw [h₂]

theorem passes_forEach {sp : Span} {kind : IterKind} {ty : Option Ty} {x : String} {e : Expr}
    {body : List Stmt} {stmt' : Stmt}
    (h : Passes (checkStmt (.forEach sp kind ty x e body)) c s stmt' s') :
    ∃ e' s₁ elem s₂ r s₃ body' s₄, Passes (checkExpr none e) c s e' s₁ ∧
      Passes (loopVariable sp kind ty x e') c s₁ elem s₂ ∧
      define x { ty := elem, span := sp } c (s₂.forget.enter .loop) = (r, s₃) ∧
      Passes (checkStmts body) c s₃ body' s₄ ∧ stmt' = .forEach sp kind ty x e' body' ∧
      s' = (s₄.leave.restored s₂.scopes.snapshot).forget := by
  obtain ⟨h, hsilent⟩ := h
  rw [checkStmt] at h
  obtain ⟨e', s₁, h₁, h⟩ := run_step h
  obtain ⟨elem, s₂, h₂, h⟩ := run_step h
  have l₁ := (inspects_checkExpr none e).count_le h₁
  have l₂ := (namesKept.looks_loopVariable _ _ _ _ _).count_le h₂
  have lrest := (Grows.inScope ((grows_define x { ty := elem, span := sp }).bind fun _ =>
    (grows_checkStmts body).bind fun body' =>
      (keeps_pure (Stmt.forEach sp kind ty x e' body')).grows) .loop).repeated.count_le h
  obtain ⟨t₁, hloop, rfl⟩ := Passes.repeated ⟨h, by omega⟩
  obtain ⟨t₂, ⟨hinner, hle⟩, rfl⟩ := hloop.inScope
  obtain ⟨r, s₃, h₃, hinner⟩ := run_step hinner
  obtain ⟨body', s₄, h₄, hinner⟩ := run_step hinner
  cases hinner
  have l₃ := (grows_define _ _).count_le h₃
  have l₄ := (grows_checkStmts body).count_le h₄
  exact ⟨e', s₁, elem, s₂, r, s₃, body', t₂, ⟨h₁, by omega⟩, ⟨h₂, by omega⟩, h₃,
    ⟨h₄, by omega⟩, rfl, rfl⟩

/-! ## Switches -/

theorem passes_switch {sp : Span} {e : Expr} {arms : List SwitchArm} {stmt' : Stmt}
    (h : Passes (checkStmt (.switch sp e arms)) c s stmt' s') :
    ∃ e' s₁ arms' merged s₂, Passes (checkSwitched e) c s e' s₁ ∧
      Passes (checkArms e'.type? s₁.scopes.snapshot none arms) c s₁ (arms', merged) s₂ ∧
      stmt' = .switch sp e' arms' ∧
      s' = s₂.restored (if arms.any fun arm => arm.test.isNone then merged.getD s₁.scopes.snapshot
        else joinPath merged s₁.scopes.snapshot) := by
  obtain ⟨h, hsilent⟩ := h
  rw [checkStmt] at h
  obtain ⟨e', s₁, h₁, h⟩ := run_step h
  obtain ⟨before, s₂, h₂, h⟩ := run_step h
  obtain ⟨⟨arms', merged⟩, s₃, h₃, h⟩ := run_step h
  obtain ⟨_, s₄, h₄, h⟩ := run_step h
  cases h
  cases h₂
  have l₁ := (namesKept.looks_checkSwitched e).count_le h₁
  have l₃ := (namesKept.keeps_checkArms _ _ _ arms).count_le h₃
  have l₄ := (namesKept.keeps_restore _).count_le h₄
  cases h₄
  exact ⟨e', s₁, arms', merged, s₃, ⟨h₁, by omega⟩, ⟨h₃, by omega⟩, rfl, rfl⟩

/-- Checks the test of an arm, if it has one. -/
def checkTest (ty? : Option Ty) : Option Expr → Check (Option Expr)
  | none => return none
  | some e => do return some (← checkAgainst ty? e)

theorem inspects_checkTest (ty? : Option Ty) (e : Option Expr) : Inspects (checkTest ty? e) := by
  cases e with
  | none => exact inspects_pure _
  | some e => exact (namesKept.looks_checkAgainst ty? e).bind fun _ => inspects_pure _

theorem passes_arms_nil {ty? : Option Ty} {before : FlowSnapshot} {merged merged' : Option FlowSnapshot}
    {arms' : List SwitchArm} (h : Passes (checkArms ty? before merged []) c s (arms', merged') s') :
    arms' = [] ∧ s' = s ∧ merged' = merged := by
  obtain ⟨h, _⟩ := h
  rw [checkArms] at h
  cases h
  exact ⟨rfl, rfl, rfl⟩

theorem passes_arms_cons {ty? : Option Ty} {before : FlowSnapshot}
    {merged merged' : Option FlowSnapshot} {sp : Span} {test : Option Expr} {body : List Stmt}
    {falls : Bool} {rest arms' : List SwitchArm}
    (h : Passes (checkArms ty? before merged (.mk sp test body falls :: rest)) c s (arms', merged') s') :
    ∃ test' s₁ body' s₂ rest', Passes (checkTest ty? test) c s test' s₁ ∧
      Passes (checkStmts body) c ((s₁.restored before).enter .switch) body' s₂ ∧
      Passes (checkArms ty? before (some (joinPath merged s₂.leave.scopes.snapshot)) rest) c s₂.leave
        (rest', merged') s' ∧
      arms' = .mk sp test' body' falls :: rest' := by
  obtain ⟨h, hsilent⟩ := h
  have hfrom : ∀ {test' s₁}, checkArmsFrom ty? before merged sp test' body falls rest c s₁ =
      ((arms', merged'), s') → s'.count ≤ s₁.count →
      ∃ body' s₂ rest',
        Passes (checkStmts body) c ((s₁.restored before).enter .switch) body' s₂ ∧
        Passes (checkArms ty? before (some (joinPath merged s₂.leave.scopes.snapshot)) rest) c s₂.leave
          (rest', merged') s' ∧
        arms' = .mk sp test' body' falls :: rest' := by
    intro test' s₁ h hle
    obtain ⟨_, s₂, h₂, h⟩ := run_step h
    obtain ⟨body', s₃, h₃, h⟩ := run_step h
    obtain ⟨_, s₄, h₄, h⟩ := run_step h
    obtain ⟨_, s₅, h₅, h⟩ := run_step h
    obtain ⟨⟨rest', _⟩, s₆, h₆, h⟩ := run_step h
    cases h
    cases h₂
    cases h₅
    have l₃ := ((grows_checkStmts body).inScope _).count_le h₃
    have l₄ := (namesKept.keeps_expect _ _ _).count_le h₄
    have l₆ := (namesKept.keeps_checkArms _ _ _ rest).count_le h₆
    change s₁.count ≤ _ at l₃
    obtain ⟨_, rfl⟩ := expect_silent h₄ (by omega)
    obtain ⟨t₁, hbody, rfl⟩ := Passes.inScope (s := s₁.restored before) ⟨h₃, show _ ≤ s₁.count by omega⟩
    exact ⟨body', t₁, rest', hbody, ⟨h₆, by omega⟩, rfl⟩
  have hkeeps : ∀ test', Keeps (checkArmsFrom ty? before merged sp test' body falls rest) :=
    fun test' => namesKept.keeps_checkArmsFrom ty? before merged sp test' body falls rest
      (grows_checkStmts body) fun merged => namesKept.keeps_checkArms ty? before merged rest
  cases test with
  | none =>
      rw [checkArms] at h
      obtain ⟨body', s₂, rest', hbody, hrest, rfl⟩ := hfrom h hsilent
      exact ⟨none, s, body', s₂, rest', ⟨rfl, Nat.le_refl _⟩, hbody, hrest, rfl⟩
  | some e =>
      rw [checkArms] at h
      obtain ⟨e', s₁, h₁, h⟩ := run_step h
      have l₁ := (namesKept.looks_checkAgainst ty? e).count_le h₁
      have lrest := (hkeeps (some e')).count_le h
      obtain ⟨body', s₂, rest', hbody, hrest, rfl⟩ := hfrom h (by omega)
      refine ⟨some e', s₁, body', s₂, rest', ⟨?_, by omega⟩, hbody, hrest, rfl⟩
      show (some (checkAgainst ty? e c s).1, (checkAgainst ty? e c s).2) = _
      rw [h₁]

/-! ## Jumps -/

theorem passes_break {sp : Span} {stmt' : Stmt} (h : Passes (checkStmt (.break sp)) c s stmt' s') :
    s.scopes.canBreak ∧ stmt' = .break sp ∧ s' = s := by
  obtain ⟨h, hsilent⟩ := h
  rw [checkStmt] at h
  obtain ⟨_, s₁, h₁, h⟩ := run_step h
  obtain ⟨_, s₂, h₂, h⟩ := run_step h
  cases h
  cases h₁
  obtain ⟨hwithin, rfl⟩ := expect_silent h₂ hsilent
  exact ⟨hwithin, rfl, rfl⟩

theorem passes_continue {sp : Span} {stmt' : Stmt}
    (h : Passes (checkStmt (.continue sp)) c s stmt' s') :
    s.scopes.inLoop ∧ stmt' = .continue sp ∧ s' = s := by
  obtain ⟨h, hsilent⟩ := h
  rw [checkStmt] at h
  obtain ⟨_, s₁, h₁, h⟩ := run_step h
  obtain ⟨_, s₂, h₂, h⟩ := run_step h
  cases h
  cases h₁
  obtain ⟨hwithin, rfl⟩ := expect_silent h₂ hsilent
  exact ⟨hwithin, rfl, rfl⟩

theorem passes_ret {sp : Span} {e stmt' : _} (h : Passes (checkStmt (.ret sp e)) c s stmt' s') :
    ∃ e', Passes (checkReturn sp e) c s e' s' ∧ stmt' = .ret sp e' := by
  obtain ⟨h, hsilent⟩ := h
  rw [checkStmt] at h
  obtain ⟨e', s₁, h₁, h⟩ := run_step h
  cases h
  exact ⟨e', ⟨h₁, hsilent⟩, rfl⟩

theorem passes_throw {sp : Span} {e : Expr} {stmt' : Stmt}
    (h : Passes (checkStmt (.throw sp e)) c s stmt' s') :
    ∃ e', Passes (checkThrow sp e) c s e' s' ∧ stmt' = .throw sp e' := by
  obtain ⟨h, hsilent⟩ := h
  rw [checkStmt] at h
  obtain ⟨e', s₁, h₁, h⟩ := run_step h
  cases h
  exact ⟨e', ⟨h₁, hsilent⟩, rfl⟩

/-! ## Regions and blocks -/

theorem passes_try {sp : Span} {body : List Stmt} {clauses : List CatchClause} {stmt' : Stmt}
    (h : Passes (checkStmt (.try sp body clauses)) c s stmt' s') :
    ∃ body' s₁ clauses' merged s₂, Passes (checkStmts body) c (s.enter .block) body' s₁ ∧
      Passes (checkClauses s.scopes.snapshot s₁.leave.scopes.snapshot clauses) c s₁.leave
        (clauses', merged) s₂ ∧ stmt' = .try sp body' clauses' ∧ s' = s₂.restored merged := by
  obtain ⟨h, hsilent⟩ := h
  rw [checkStmt] at h
  obtain ⟨_, s₁, h₁, h⟩ := run_step h
  obtain ⟨body', s₂, h₂, h⟩ := run_step h
  obtain ⟨_, s₃, h₃, h⟩ := run_step h
  obtain ⟨⟨clauses', merged⟩, s₄, h₄, h⟩ := run_step h
  obtain ⟨_, s₅, h₅, h⟩ := run_step h
  cases h
  cases h₁
  cases h₃
  have l₂ := ((grows_checkStmts body).inScope _).count_le h₂
  have l₄ := (namesKept.keeps_checkClauses _ _ clauses).count_le h₄
  have l₅ := (namesKept.keeps_restore _).count_le h₅
  obtain ⟨t₁, hbody, rfl⟩ := Passes.inScope ⟨h₂, by omega⟩
  cases h₅
  exact ⟨body', t₁, clauses', merged, s₄, hbody, ⟨h₄, by omega⟩, rfl, rfl⟩

theorem passes_clauses_nil {before merged merged' : FlowSnapshot} {clauses' : List CatchClause}
    (h : Passes (checkClauses before merged []) c s (clauses', merged') s') :
    clauses' = [] ∧ s' = s ∧ merged' = merged := by
  obtain ⟨h, _⟩ := h
  rw [checkClauses] at h
  cases h
  exact ⟨rfl, rfl, rfl⟩

theorem passes_clauses_cons {before merged merged' : FlowSnapshot} {sp : Span} {proto x : String}
    {body : List Stmt} {rest clauses' : List CatchClause}
    (h : Passes (checkClauses before merged (.mk sp proto x body :: rest)) c s (clauses', merged') s') :
    ∃ r s₁ body' s₂ rest', c.hierarchy.contains proto ∧ c.hierarchy.isException proto ∧
      define x { ty := .named proto, span := sp } c ((s.restored before).enter .block) = (r, s₁) ∧
      Passes (checkStmts body) c s₁ body' s₂ ∧
      Passes (checkClauses before (merged.join s₂.leave.scopes.snapshot) rest) c s₂.leave
        (rest', merged') s' ∧
      clauses' = .mk sp proto x body' :: rest' := by
  obtain ⟨h, hsilent⟩ := h
  rw [checkClauses] at h
  obtain ⟨_, s₁, h₁, h⟩ := run_step h
  obtain ⟨_, s₂, h₂, h⟩ := run_step h
  obtain ⟨body', s₃, h₃, h⟩ := run_step h
  obtain ⟨_, s₄, h₄, h⟩ := run_step h
  obtain ⟨⟨rest', _⟩, s₅, h₅, h⟩ := run_step h
  cases h
  cases h₁
  cases h₄
  have hkeeps : Keeps (inScope .block (do
      let _ ← define x { ty := .named proto, span := sp }
      checkStmts body)) :=
    Grows.inScope ((grows_define _ _).bind fun _ => grows_checkStmts body) _
  have l₂ := (namesKept.looks_checkCatchable sp proto).count_le h₂
  have l₃ := hkeeps.count_le h₃
  have l₅ := (namesKept.keeps_checkClauses _ _ rest).count_le h₅
  change s.count ≤ _ at l₂
  have hcatch : c.hierarchy.contains proto ∧ c.hierarchy.isException proto ∧
      s₂ = s.restored before := by
    obtain ⟨_, _, h₆, h₂⟩ := run_step h₂
    cases h₆
    by_cases hproto : c.hierarchy.contains proto
    · dsimp only at h₂
      rw [if_pos hproto] at h₂
      obtain ⟨hexception, hsame⟩ := expect_silent h₂ (show s₂.count ≤ s.count by omega)
      exact ⟨hproto, hexception, hsame⟩
    · dsimp only at h₂
      rw [if_neg hproto] at h₂
      have : (s.restored before).count < s₂.count := count_lt_of_reportName h₂
      change s.count < _ at this
      omega
  obtain ⟨hproto, hexception, rfl⟩ := hcatch
  obtain ⟨t₁, ⟨hbody, hle⟩, rfl⟩ := Passes.inScope ⟨h₃, show _ ≤ s.count by omega⟩
  obtain ⟨r, s₆, h₆, hbody⟩ := run_step hbody
  have l₆ := (grows_define x { ty := .named proto, span := sp }).count_le h₆
  have l₇ := (grows_checkStmts body).count_le hbody
  exact ⟨r, s₆, body', t₁, rest', hproto, hexception, h₆, ⟨hbody, by omega⟩,
    ⟨h₅, by omega⟩, rfl⟩

theorem passes_block {sp : Span} {body : List Stmt} {stmt' : Stmt}
    (h : Passes (checkStmt (.block sp body)) c s stmt' s') :
    ∃ body' s₁, Passes (checkStmts body) c (s.enter .block) body' s₁ ∧ stmt' = .block sp body' ∧
      s' = s₁.leave := by
  obtain ⟨h, hsilent⟩ := h
  rw [checkStmt] at h
  obtain ⟨body', s₁, h₁, h⟩ := run_step h
  cases h
  obtain ⟨t₁, hbody, rfl⟩ := Passes.inScope ⟨h₁, hsilent⟩
  exact ⟨body', t₁, hbody, rfl, rfl⟩

end ProtoScript.Analysis
