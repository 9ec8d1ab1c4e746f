import ProtoScript.Proofs.Analysis.StmtSteps

set_option autoImplicit false

/-!
# Functions that are checked silently obey the rules

A statement in which no problem is found obeys the rules (`sound_stmt`). The scopes of the checker are
those of the rules: a body has a scope of its own, a declaration adds its name behind its initial value,
and the scopes of loops and arms tell where jumps can go.
-/

namespace ProtoScript.Analysis

/-! ## What is around a point -/

/-- What the checker knows at a point: the types of the names in scope, whether a loop is around, and
whether a loop or switch is. -/
structure Around (loop brk : Bool) (Γ : TyEnv) (scopes : Scopes) : Prop where
  views : Views scopes Γ
  inLoop : scopes.inLoop = loop
  canBreak : scopes.canBreak = brk

/-- Where jumps can go depends on the kinds of the scopes alone. -/
theorem within_of_kinds (kinds : List ScopeKind) {s s' : Scopes}
    (h : s'.shape.map Prod.fst = s.shape.map Prod.fst) : s'.within kinds = s.within kinds := by
  induction s generalizing s' with
  | nil =>
      cases s' with
      | nil => rfl
      | cons scope outer => cases h
  | cons scope outer ih =>
      cases s' with
      | nil => cases h
      | cons scope' outer' =>
          obtain ⟨hkind, hrest⟩ := List.cons.inj h
          have hkind : scope'.kind = scope.kind := hkind
          rw [Scopes.within, Scopes.within, hkind, ih hrest]

namespace Around

variable {loop brk : Bool} {Γ : TyEnv} {scopes scopes' : Scopes}

theorem of_shape (h : Around loop brk Γ scopes) (hshape : scopes'.shape = scopes.shape) :
    Around loop brk Γ scopes' :=
  ⟨h.views.of_shape hshape, (within_of_kinds _ (congrArg _ hshape)).trans h.inLoop,
    (within_of_kinds _ (congrArg _ hshape)).trans h.canBreak⟩

theorem enterBlock (h : Around loop brk Γ scopes) :
    Around loop brk ([] :: Γ) (scopes.enter .block) := ⟨h.views.enter _, h.inLoop, h.canBreak⟩

theorem enterLoop (h : Around loop brk Γ scopes) :
    Around true true ([] :: Γ) (scopes.enter .loop) := ⟨h.views.enter _, rfl, rfl⟩

theorem enterSwitch (h : Around loop brk Γ scopes) :
    Around loop true ([] :: Γ) (scopes.enter .switch) := ⟨h.views.enter _, h.inLoop, rfl⟩

end Around

section

variable {α : Type} {m : Check α} {a : α} {c : Context} {loop brk : Bool} {Γ : TyEnv} {s s' : State}

theorem Passes.shape (h : Passes m c s a s') (hm : Keeps m) : s'.scopes.shape = s.scopes.shape := by
  have hshape := (hm c s).shape
  rw [h.run] at hshape
  exact hshape

/-- Names that are bound do not change where jumps can go. -/
theorem Passes.within (h : Passes m c s a s') (hm : Grows m) (kinds : List ScopeKind) :
    s'.scopes.within kinds = s.scopes.within kinds := by
  have hkinds := (hm c s).kinds
  rw [h.run] at hkinds
  exact within_of_kinds kinds hkinds

theorem Passes.around (h : Passes m c s a s') (hm : Keeps m) (hs : Around loop brk Γ s.scopes) :
    Around loop brk Γ s'.scopes := hs.of_shape (h.shape hm)

/-- Behind a scope of its own everything is as before it. -/
theorem Passes.shape_leave {kind : ScopeKind} (h : Passes m c (s.enter kind) a s') (hm : Grows m) :
    s'.leave.scopes.shape = s.scopes.shape := by
  have houter := (hm c (s.enter kind)).outer
  rw [h.run] at houter
  have hleave : s'.leave.scopes.shape = s'.scopes.shape.tail := List.map_tail ..
  rw [hleave, houter]
  rfl

theorem State.shape_forget (s : State) : s.forget.scopes.shape = s.scopes.shape :=
  Scopes.shape_forgetLengths s.scopes

theorem State.shape_restored (s : State) (snap : FlowSnapshot) :
    (s.restored snap).scopes.shape = s.scopes.shape := Scopes.shape_restore snap s.scopes

/-- A name that is bound silently is new to the innermost scope, and in scope behind. -/
theorem define_around {x : String} {b : Binding} (h : define x b c s = (none, s'))
    (hs : Around loop brk Γ s.scopes) :
    Γ.declares x = false ∧ Around loop brk (Frames.declare x b.ty Γ) s'.scopes := by
  have hkinds := (grows_define x b c s).kinds
  rw [h] at hkinds
  rw [define_eq] at h
  cases hdefine : s.scopes.define x b with
  | error previous =>
      rw [hdefine] at h
      cases h
  | ok scopes =>
      rw [hdefine] at h
      cases h
      obtain ⟨hnew, hviews⟩ := hs.views.define hdefine
      exact ⟨hnew, hviews, (within_of_kinds _ hkinds).trans hs.inLoop,
        (within_of_kinds _ hkinds).trans hs.canBreak⟩

/-- Binding a name reports nothing. -/
theorem define_count {x : String} {b : Binding} {r : Option Span} (h : define x b c s = (r, s')) :
    s'.count = s.count := by
  rw [define_eq] at h
  cases hdefine : s.scopes.define x b with
  | error previous =>
      rw [hdefine] at h
      cases h
      rfl
  | ok scopes =>
      rw [hdefine] at h
      cases h
      rfl

/-- A name can be bound in a new scope. -/
theorem define_enter {x : String} {b : Binding} {kind : ScopeKind} {r : Option Span}
    (h : define x b c (s.enter kind) = (r, s')) : r = none := by
  rw [define_eq] at h
  cases h
  rfl

end

section

variable {c : Context} {Γ : TyEnv} {s s' : State}

/-! ## Parts of statements -/

theorem passes_expr_typed {expected : Option Ty} {e e' : Expr}
    (h : Passes (checkExpr expected e) c s e' s') (hs : Views s.scopes Γ) :
    ∃ τ, e'.Typed c Γ τ := sound_expr e h.run h.silent hs

theorem passes_stored {ty : Ty} {e e' : Expr} (h : Passes (checkStored ty e) c s e' s')
    (hs : Views s.scopes Γ) : e'.Stored c Γ ty := by
  obtain ⟨h, hsilent⟩ := h
  obtain ⟨e₁, s₁, h₁, h⟩ := run_step h
  obtain ⟨_, s₂, h₂, h⟩ := run_step h
  cases h
  have l₁ := (inspects_checkExpr _ e).count_le h₁
  have l₂ := (namesKept.looks_expectAssignable _ _).count_le h₂
  obtain ⟨τ, he⟩ := sound_expr e h₁ (by omega) hs
  exact ⟨τ, he, expectAssignable_silent he h₂ (by omega)⟩

theorem passes_condition {e e' : Expr} (h : Passes (checkCondition e) c s e' s')
    (hs : Views s.scopes Γ) : e'.Typed c Γ .bool := by
  obtain ⟨h, hsilent⟩ := h
  obtain ⟨e₁, s₁, h₁, h⟩ := run_step h
  obtain ⟨_, s₂, h₂, h⟩ := run_step h
  cases h
  have l₁ := (inspects_checkExpr _ e).count_le h₁
  have l₂ := (namesKept.looks_expectCondition _).count_le h₂
  obtain ⟨τ, he⟩ := sound_expr e h₁ (by omega) hs
  exact expectCondition_silent he h₂ (by omega)

theorem passes_switched {e e' : Expr} (h : Passes (checkSwitched e) c s e' s')
    (hs : Views s.scopes Γ) : ∃ τ, e'.Typed c Γ τ ∧ τ.isScalar := by
  obtain ⟨h, hsilent⟩ := h
  obtain ⟨e₁, s₁, h₁, h⟩ := run_step h
  have l₁ := (inspects_checkExpr _ e).count_le h₁
  cases hty : e₁.type? with
  | none =>
      simp only [hty] at h
      cases h
      exact absurd hsilent (Nat.not_le.2 (count_lt_of_untyped h₁ hty))
  | some ty =>
      simp only [hty] at h
      obtain ⟨_, s₂, h₂, h⟩ := run_step h
      cases h
      have l₂ := (namesKept.keeps_expect _ _ _).count_le h₂
      obtain ⟨τ, he⟩ := sound_expr e h₁ (by omega) hs
      obtain rfl := he.unique hty
      exact ⟨τ, he, (expect_silent h₂ (by omega)).1⟩

theorem passes_assigned {sp : Span} {target : Ty} {op : Option BinaryOp} {e e' : Expr}
    (h : Passes (checkAssigned sp target op e) c s e' s') (hs : Views s.scopes Γ) :
    e'.Assigned c Γ target op := by
  cases op with
  | none => exact passes_stored h hs
  | some op =>
      obtain ⟨h, hsilent⟩ := h
      obtain ⟨e₁, s₁, h₁, h⟩ := run_step h
      have l₁ := (inspects_checkExpr _ e).count_le h₁
      cases hty : e₁.type? with
      | none =>
          simp only [hty] at h
          cases h
          exact absurd hsilent (Nat.not_le.2 (count_lt_of_untyped h₁ hty))
      | some ty =>
          simp only [hty] at h
          obtain ⟨r, s₂, h₂, h⟩ := run_step h
          have l₂ := (namesKept.looks_binaryResult? op target ty sp).count_le h₂
          cases r with
          | none =>
              cases h
              obtain ⟨_, τ, hr, _⟩ := binaryResult?_silent h₂ (by omega)
              cases hr
          | some result =>
              obtain ⟨_, s₃, h₃, h⟩ := run_step h
              cases h
              have l₃ := (namesKept.keeps_expect _ _ _).count_le h₃
              obtain ⟨σ, he⟩ := sound_expr e h₁ (by omega) hs
              obtain rfl := he.unique hty
              obtain ⟨_, τ, hr, hop⟩ := binaryResult?_silent h₂ (by omega)
              cases hr
              obtain rfl : result = target := by simpa using (expect_silent h₃ (by omega)).1
              exact ⟨σ, he, hop⟩

theorem passes_assignName {sp : Span} {n n' : Note} {x : String} {op : Option BinaryOp} {e e' : Expr}
    (h : Passes (checkAssignName sp n x op e) c s (n', e') s') (hs : Views s.scopes Γ) :
    ∃ τ, (Expr.ident n' x).Target c Γ τ ∧ e'.Assigned c Γ τ op := by
  obtain ⟨h, hsilent⟩ := h
  obtain ⟨b, _, h₁, h⟩ := run_step h
  cases h₁
  cases hb : s.scopes.resolve? x with
  | none =>
      rw [hb] at h
      obtain ⟨_, _, h₁, h⟩ := run_step h
      cases h₁
      cases hproblem : assignProblem? c x with
      | some problem =>
          simp only [hproblem] at h
          obtain ⟨_, s₁, h₁, h⟩ := run_step h
          obtain ⟨_, s₂, h₂, h⟩ := run_step h
          cases h
          have l₁ := count_lt_of_report h₁
          have l₂ := (inspects_checkExpr _ e).count_le h₂
          omega
      | none =>
          simp only [hproblem] at h
          obtain ⟨_, s₁, h₁, h⟩ := run_step h
          obtain ⟨_, s₂, h₂, h⟩ := run_step h
          cases h
          have l₁ := count_lt_of_reportUndefined h₁
          have l₂ := (inspects_checkExpr _ e).count_le h₂
          omega
  | some b =>
      rw [hb] at h
      obtain ⟨_, s₁, h₁, h⟩ := run_step h
      obtain ⟨_, s₂, h₂, h⟩ := run_step h
      obtain ⟨e₁, s₃, h₃, h⟩ := run_step h
      obtain ⟨_, s₄, h₄, h⟩ := run_step h
      obtain ⟨_, s₅, h₅, h⟩ := run_step h
      cases h
      cases h₅
      have l₁ := (namesKept.keeps_expect _ _ _).count_le h₁
      have l₂ := (namesKept.keeps_expect _ _ _).count_le h₂
      have l₃ := (namesKept.looks_checkAssigned _ _ _ _).count_le h₃
      have l₄ := (namesKept.keeps_aliasesSelf _).count_le h₄
      change s₄.count ≤ _ at hsilent
      have hs₂ := (namesKept.keeps_expect _ _ _).views h₂ ((namesKept.keeps_expect _ _ _).views h₁ hs)
      have hfind := hs.find? x
      rw [hb] at hfind
      exact ⟨b.ty, .name rfl hfind.symm, passes_assigned ⟨h₃, by omega⟩ hs₂⟩

theorem passes_assignMember {sp : Span} {n : Note} {object target' : Expr} {name : String}
    {op : Option BinaryOp} {e e' : Expr} (howner : (owner? object c s).1 = none)
    (h : Passes (checkAssignMember sp (.member n object name) op e) c s (target', e') s')
    (hs : Views s.scopes Γ) : ∃ τ, target'.Target c Γ τ ∧ e'.Assigned c Γ τ op := by
  obtain ⟨h, hsilent⟩ := h
  obtain ⟨target₁, s₁, h₁, h⟩ := run_step h
  have l₁ := (inspects_checkExpr _ _).count_le h₁
  have hs₁ := (inspects_checkExpr _ _).views h₁ hs
  cases hty : target₁.type? with
  | none =>
      simp only [hty] at h
      obtain ⟨_, s₂, h₂, h⟩ := run_step h
      cases h
      have l₂ := (inspects_checkExpr _ e).count_le h₂
      have := count_lt_of_untyped h₁ hty
      omega
  | some ty =>
      simp only [hty] at h
      obtain ⟨_, s₂, h₂, h⟩ := run_step h
      obtain ⟨e₁, s₃, h₃, h⟩ := run_step h
      obtain ⟨_, s₄, h₄, h⟩ := run_step h
      cases h
      have l₂ := (namesKept.looks_expectMutable _ _).count_le h₂
      have l₃ := (namesKept.looks_checkAssigned _ _ _ _).count_le h₃
      have l₄ := (namesKept.keeps_escape _).count_le h₄
      have he := passes_assigned ⟨h₃, by omega⟩ ((namesKept.looks_expectMutable _ _).views h₂ hs₁)
      refine ⟨ty, ?_, he⟩
      -- The object is a value, so what was found is a field of it.
      rw [checkExpr] at h₁
      obtain ⟨o, t, h₅, h₁⟩ := run_step h₁
      obtain ⟨rfl, _⟩ := owner?_eq h₅
      rw [h₅] at howner
      obtain rfl : o = none := howner
      obtain ⟨object₁, t₁, h₆, h₁⟩ := run_step h₁
      have l₆ := (inspects_checkExpr none object).count_le h₆
      cases hobject : object₁.type? with
      | none =>
          simp only [hobject] at h₁
          cases h₁
          have := count_lt_of_untyped h₆ hobject
          omega
      | some σ =>
          simp only [hobject] at h₁
          obtain ⟨n', t₂, h₇, h₁⟩ := run_step h₁
          cases h₁
          have l₇ := (namesKept.looks_noteMember _ _ _).count_le h₇
          obtain ⟨τ, hobjectTyped⟩ := sound_expr object h₆ (by omega) hs
          obtain rfl := hobjectTyped.unique hobject
          obtain ⟨proto, f, rfl, hf, htype, hvalue⟩ := noteMember_silent h₇ (by omega)
          have htype' : n'.type? = some ty := hty
          rw [htype] at htype'
          cases htype'
          exact .field htype hvalue hobjectTyped hf

theorem passes_assignIndex {sp : Span} {n : Note} {object i target' : Expr} {op : Option BinaryOp}
    {e e' : Expr} (h : Passes (checkAssignIndex sp n object i op e) c s (target', e') s')
    (hs : Views s.scopes Γ) : ∃ τ, target'.Target c Γ τ ∧ e'.Assigned c Γ τ op := by
  obtain ⟨h, hsilent⟩ := h
  obtain ⟨object₁, s₁, h₁, h⟩ := run_step h
  have l₁ := (inspects_checkExpr none object).count_le h₁
  have hs₁ := (inspects_checkExpr none object).views h₁ hs
  cases hty : object₁.type? with
  | none =>
      simp only [hty] at h
      obtain ⟨_, s₂, h₂, h⟩ := run_step h
      obtain ⟨_, s₃, h₃, h⟩ := run_step h
      cases h
      have l₂ := (inspects_checkExpr none i).count_le h₂
      have l₃ := (inspects_checkExpr none e).count_le h₃
      have := count_lt_of_untyped h₁ hty
      omega
  | some ty =>
      simp only [hty] at h
      cases hwritable : isReadOnly ty with
      | true =>
          rw [hwritable, if_pos rfl] at h
          obtain ⟨_, s₂, h₂, h⟩ := run_step h
          obtain ⟨_, s₃, h₃, h⟩ := run_step h
          obtain ⟨_, s₄, h₄, h⟩ := run_step h
          cases h
          have l₂ := count_lt_of_report h₂
          have l₃ := (inspects_checkExpr none i).count_le h₃
          have l₄ := (inspects_checkExpr none e).count_le h₄
          omega
      | false =>
          rw [hwritable, if_neg Bool.false_ne_true] at h
          obtain ⟨i₁, s₂, h₂, h⟩ := run_step h
          obtain ⟨elem?, s₃, h₃, h⟩ := run_step h
          have l₂ := (inspects_checkExpr (expectedIndex ty) i).count_le h₂
          have l₃ := (namesKept.looks_elementAt? ty i₁ n.span).count_le h₃
          have hs₂ := (inspects_checkExpr _ i).views h₂ hs₁
          have hs₃ := (namesKept.looks_elementAt? ty i₁ n.span).views h₃ hs₂
          cases elem? with
          | none =>
              obtain ⟨_, s₄, h₄, h⟩ := run_step h
              obtain ⟨_, s₅, h₅, h⟩ := run_step h
              cases h
              have l₄ := (inspects_checkExpr none e).count_le h₄
              have l₅ := (namesKept.keeps_escape _).count_le h₅
              obtain ⟨position, hi⟩ := sound_expr i h₂ (by omega) hs₁
              obtain ⟨τ, hτ, _⟩ := elementAt?_silent hi h₃ (by omega)
              cases hτ
          | some elem =>
              obtain ⟨e₁, s₄, h₄, h⟩ := run_step h
              obtain ⟨_, s₅, h₅, h⟩ := run_step h
              cases h
              have l₄ := (namesKept.looks_checkAssigned _ _ _ _).count_le h₄
              have l₅ := (namesKept.keeps_escape _).count_le h₅
              obtain ⟨σ, hobject⟩ := sound_expr object h₁ (by omega) hs
              obtain rfl := hobject.unique hty
              obtain ⟨position, hi⟩ := sound_expr i h₂ (by omega) hs₁
              obtain ⟨τ, hτ, helement⟩ := elementAt?_silent hi h₃ (by omega)
              cases hτ
              exact ⟨elem, .element rfl hobject hi helement hwritable,
                passes_assigned ⟨h₄, by omega⟩ hs₃⟩

theorem passes_checkAssign {sp : Span} {target target' : Expr} {op : Option BinaryOp} {e e' : Expr}
    (h : Passes (checkAssign sp target op e) c s (target', e') s') (hs : Views s.scopes Γ) :
    ∃ τ, target'.Target c Γ τ ∧ e'.Assigned c Γ τ op := by
  obtain ⟨h, hsilent⟩ := h
  unfold checkAssign at h
  split at h
  case h_1 n x =>
    obtain ⟨⟨n', e₁⟩, s₁, h₁, h⟩ := run_step h
    obtain ⟨_, s₂, h₂, h⟩ := run_step h
    cases h
    have l₁ := (namesKept.keeps_checkAssignName _ _ _ _ _).count_le h₁
    have l₂ := (namesKept.keeps_escape _).count_le h₂
    exact passes_assignName ⟨h₁, by omega⟩ hs
  case h_2 n object name =>
    obtain ⟨o, s₁, h₁, h₀⟩ := run_step h
    clear h
    obtain ⟨rfl, _⟩ := owner?_eq h₁
    cases o with
    | some owner =>
        obtain ⟨_, s₂, h₂, h⟩ := run_step h₀
        obtain ⟨_, s₃, h₃, h⟩ := run_step h
        cases h
        have l₂ := count_lt_of_report h₂
        have l₃ := (inspects_checkExpr none e).count_le h₃
        omega
    | none =>
        exact passes_assignMember (by rw [h₁]) ⟨h₀, hsilent⟩ hs
  case h_3 n object i => exact passes_assignIndex ⟨h, hsilent⟩ hs
  case h_4 =>
    obtain ⟨_, s₁, h₁, h⟩ := run_step h
    obtain ⟨_, s₂, h₂, h⟩ := run_step h
    obtain ⟨_, s₃, h₃, h⟩ := run_step h
    cases h
    have l₁ := count_lt_of_report h₁
    have l₂ := (inspects_checkExpr none e).count_le h₂
    have l₃ := (namesKept.keeps_escape _).count_le h₃
    omega

theorem passes_returned {sp : Span} {ret : Ty} {e : Expr} {r : Option Expr}
    (h : Passes (checkReturned sp ret e) c s r s') (hs : Views s.scopes Γ) :
    ∃ e', r = some e' ∧ ret ≠ .void ∧ e'.Stored c Γ ret := by
  obtain ⟨h, hsilent⟩ := h
  unfold checkReturned at h
  split at h
  case isTrue =>
    obtain ⟨_, s₁, h₁, h⟩ := run_step h
    obtain ⟨_, s₂, h₂, h⟩ := run_step h
    obtain ⟨_, s₃, h₃, h⟩ := run_step h
    cases h
    have l₁ := (inspects_checkExpr none e).count_le h₁
    have l₂ := count_lt_of_report h₂
    have l₃ := (namesKept.keeps_escape _).count_le h₃
    omega
  case isFalse hvoid =>
    obtain ⟨e₁, s₁, h₁, h⟩ := run_step h
    have l₁ := (inspects_checkExpr _ e).count_le h₁
    cases hty : e₁.type? with
    | none =>
        simp only [hty] at h
        obtain ⟨_, s₂, h₂, h⟩ := run_step h
        cases h
        have l₂ := (namesKept.keeps_escape _).count_le h₂
        have := count_lt_of_untyped h₁ hty
        omega
    | some ty =>
        simp only [hty] at h
        obtain ⟨_, _, h₂, h⟩ := run_step h
        cases h₂
        obtain ⟨_, s₃, h₃, h⟩ := run_step h
        obtain ⟨_, s₄, h₄, h⟩ := run_step h
        cases h
        have l₃ := (namesKept.keeps_expect _ _ _).count_le h₃
        have l₄ := (namesKept.keeps_escape _).count_le h₄
        obtain ⟨τ, he⟩ := sound_expr e h₁ (by omega) hs
        obtain rfl := he.unique hty
        refine ⟨e₁, rfl, ?_, τ, he, (expect_silent h₃ (by omega)).1⟩
        rintro rfl
        exact hvoid rfl

theorem passes_checkReturn {sp : Span} {e r : Option Expr} (h : Passes (checkReturn sp e) c s r s')
    (hs : Views s.scopes Γ) (loop brk : Bool) : (Stmt.ret sp r).Typed c loop brk Γ := by
  obtain ⟨h, hsilent⟩ := h
  obtain ⟨_, _, h₁, h⟩ := run_step h
  cases h₁
  cases e with
  | none =>
      obtain ⟨_, s₁, h₁, h⟩ := run_step h
      cases h
      rw [Stmt.Typed]
      simpa [Ty.isVoid] using (expect_silent h₁ hsilent).1
  | some e =>
      obtain ⟨_, _, h₁, h⟩ := run_step h
      cases h₁
      have hrest : ∃ s₁, s'.count ≤ s₁.count ∧ Views s₁.scopes Γ ∧
          checkReturned sp c.ret e c s₁ = (r, s') := by
        by_cases hproto : c.proto?.isSome
        · dsimp only at h
          rw [if_pos hproto] at h
          obtain ⟨_, s₁, h₁, h⟩ := run_step h
          obtain ⟨_, s₂, h₂, h⟩ := run_step h
          have l₁ := (namesKept.keeps_aliasesSelf e).count_le h₁
          have l₂ := (namesKept.keeps_expect _ _ _).count_le h₂
          exact ⟨s₂, by omega, (namesKept.keeps_expect _ _ _).views h₂ ((namesKept.keeps_aliasesSelf _).views h₁ hs), h⟩
        · dsimp only at h
          rw [if_neg hproto] at h
          exact ⟨s, hsilent, hs, h⟩
      obtain ⟨s₁, hle, hs₁, h⟩ := hrest
      obtain ⟨e', rfl, hvoid, he⟩ := passes_returned ⟨h, hle⟩ hs₁
      rw [Stmt.Typed]
      exact ⟨hvoid, he⟩

theorem passes_checkThrow {sp : Span} {e e' : Expr} (h : Passes (checkThrow sp e) c s e' s')
    (hs : Views s.scopes Γ) :
    ∃ proto, e'.Typed c Γ (.named proto) ∧ c.hierarchy.isException proto := by
  obtain ⟨h, hsilent⟩ := h
  obtain ⟨e₁, s₁, h₁, h⟩ := run_step h
  have l₁ := (inspects_checkExpr _ e).count_le h₁
  cases hty : e₁.type? with
  | none =>
      simp only [hty] at h
      cases h
      exact absurd hsilent (Nat.not_le.2 (count_lt_of_untyped h₁ hty))
  | some ty =>
      simp only [hty] at h
      obtain ⟨_, _, h₂, h⟩ := run_step h
      cases h₂
      obtain ⟨_, s₃, h₃, h⟩ := run_step h
      cases h
      have l₃ := (namesKept.keeps_expect _ _ _).count_le h₃
      obtain ⟨τ, he⟩ := sound_expr e h₁ (by omega) hs
      obtain rfl := he.unique hty
      have hexception := (expect_silent h₃ (by omega)).1
      cases τ with
      | named proto => exact ⟨proto, he, by simpa [Ty.named?] using hexception⟩
      | _ => cases hexception

theorem passes_loopVariable {sp : Span} {kind : IterKind} {ty : Option Ty} {x : String} {e : Expr}
    {τ elem : Ty} (he : e.Typed c Γ τ) (h : Passes (loopVariable sp kind ty x e) c s elem s') :
    visited? kind τ = some elem ∧ ∀ ty', ty = some ty' → ty' = elem := by
  obtain ⟨h, hsilent⟩ := h
  unfold loopVariable at h
  rw [he.type?] at h
  obtain ⟨_, s₁, h₂, h⟩ := run_step h
  obtain ⟨elem?, _, h₁, h⟩ := run_step h
  cases h₁
  have l₂ := (namesKept.keeps_expect _ _ _).count_le h₂
  cases hvisited : visited? kind τ with
  | none =>
      simp only [hvisited] at h h₂
      have : s.count < s₁.count := count_lt_of_report h₂
      have : s₁.count ≤ s'.count := by
        cases ty with
        | none =>
            cases h
            exact Nat.le_refl _
        | some ty =>
            cases h
            exact Nat.le_refl _
      omega
  | some elem' =>
      simp only [hvisited] at h
      cases ty with
      | none =>
          cases h
          exact ⟨rfl, nofun⟩
      | some ty =>
          obtain ⟨known, s₃, h₃, h⟩ := run_step h
          have l₃ := (namesKept.keeps_checkTy ty sp).count_le h₃
          cases known with
          | true =>
              obtain ⟨_, s₄, h₄, h⟩ := run_step h
              cases h
              obtain hsame : elem = elem' := by simpa using (expect_silent h₄ (by omega)).1
              subst hsame
              refine ⟨rfl, ?_⟩
              rintro ty' ⟨⟩
              rfl
          | false =>
              cases h
              obtain ⟨_, hknown, _⟩ := checkTy_silent h₃ (by omega)
              cases hknown

end

/-! ## Statements -/

section

variable {c : Context} {loop brk : Bool} {Γ : TyEnv} {s s' : State}

/-- Checking a statement does not change what it declares. -/
theorem after_checkStmt {stmt stmt' : Stmt} (h : Passes (checkStmt stmt) c s stmt' s') (Γ : TyEnv) :
    Γ.after stmt' = Γ.after stmt := by
  cases stmt with
  | varDecl =>
      obtain ⟨_, _, _, rfl, _⟩ := passes_varDecl h
      rfl
  | assign =>
      obtain ⟨_, _, _, rfl⟩ := passes_assign h
      rfl
  | expr =>
      obtain ⟨_, _, rfl⟩ := passes_expr h
      rfl
  | ifThen =>
      obtain ⟨_, _, _, _, _, _, rfl, _⟩ := passes_ifThen h
      rfl
  | ifElse =>
      obtain ⟨_, _, _, _, _, _, _, _, _, rfl, _⟩ := passes_ifElse h
      rfl
  | «while» =>
      obtain ⟨_, _, _, _, _, _, rfl, _⟩ := passes_while h
      rfl
  | doWhile =>
      obtain ⟨_, _, _, _, _, _, rfl, _⟩ := passes_doWhile h
      rfl
  | «for» =>
      obtain ⟨_, _, _, _, _, _, _, _, _, _, _, _, rfl, _⟩ := passes_for h
      rfl
  | forEach =>
      obtain ⟨_, _, _, _, _, _, _, _, _, _, _, _, rfl, _⟩ := passes_forEach h
      rfl
  | switch =>
      obtain ⟨_, _, _, _, _, _, _, rfl, _⟩ := passes_switch h
      rfl
  | «break» =>
      obtain ⟨_, rfl, _⟩ := passes_break h
      rfl
  | «continue» =>
      obtain ⟨_, rfl, _⟩ := passes_continue h
      rfl
  | ret =>
      obtain ⟨_, _, rfl⟩ := passes_ret h
      rfl
  | throw =>
      obtain ⟨_, _, rfl⟩ := passes_throw h
      rfl
  | «try» =>
      obtain ⟨_, _, _, _, _, _, _, rfl, _⟩ := passes_try h
      rfl
  | block =>
      obtain ⟨_, _, _, rfl, _⟩ := passes_block h
      rfl

/-- Behind a statement the names it declares are in scope as well. -/
theorem Passes.around_after {stmt stmt' : Stmt} (h : Passes (checkStmt stmt) c s stmt' s')
    (hs : Around loop brk Γ s.scopes) : Around loop brk (Γ.after stmt') s'.scopes := by
  rw [after_checkStmt h]
  cases hdeclares : declares stmt with
  | false =>
      cases stmt with
      | varDecl => cases hdeclares
      | _ => exact h.around (keeps_checkStmt _ hdeclares) hs
  | true =>
      cases stmt with
      | varDecl sp x ty isConst init =>
          obtain ⟨init', s₁, b, _, rfl, _, _, _, _, hdefine, hinit⟩ := passes_varDecl h
          have hs₁ : Around loop brk Γ s₁.scopes := by
            cases init with
            | none =>
                obtain ⟨_, rfl⟩ := hinit
                exact hs
            | some e =>
                obtain ⟨e', s₂, he, _, hscopes⟩ := hinit
                exact (he.around (namesKept.looks_checkStored _ e).keeps hs).of_shape
                  (Scopes.shape_of_forgetLengths hscopes)
          exact (define_around hdefine hs₁).2
      | _ => cases hdeclares

/-- A statement that is checked silently obeys the rules. -/
def SoundStmt (stmt : Stmt) : Prop :=
  ∀ {c : Context} {loop brk : Bool} {Γ : TyEnv} {stmt' : Stmt} {s s' : State},
    Passes (checkStmt stmt) c s stmt' s' → Around loop brk Γ s.scopes → stmt'.Typed c loop brk Γ

def SoundStmts (body : List Stmt) : Prop :=
  ∀ {c : Context} {loop brk : Bool} {Γ : TyEnv} {body' : List Stmt} {s s' : State},
    Passes (checkStmts body) c s body' s' → Around loop brk Γ s.scopes →
    StmtsTyped c loop brk Γ body' ∧ Around loop brk (Γ.afterAll body') s'.scopes

def SoundStmt? (stmt : Option Stmt) : Prop :=
  ∀ {c : Context} {loop brk : Bool} {Γ : TyEnv} {stmt' : Option Stmt} {s s' : State},
    Passes (checkStmt? stmt) c s stmt' s' → Around loop brk Γ s.scopes →
    StmtTyped? c loop brk Γ stmt' ∧ Around loop brk (Γ.after? stmt') s'.scopes

def SoundArms (arms : List SwitchArm) : Prop :=
  ∀ {c : Context} {loop brk : Bool} {Γ : TyEnv} {τ : Ty} {before : FlowSnapshot}
    {merged merged' : Option FlowSnapshot} {arms' : List SwitchArm} {s s' : State},
    Passes (checkArms (some τ) before merged arms) c s (arms', merged') s' →
    Around loop brk Γ s.scopes → ArmsTyped c loop τ Γ arms'

def SoundClauses (clauses : List CatchClause) : Prop :=
  ∀ {c : Context} {loop brk : Bool} {Γ : TyEnv} {before merged merged' : FlowSnapshot}
    {clauses' : List CatchClause} {s s' : State},
    Passes (checkClauses before merged clauses) c s (clauses', merged') s' →
    Around loop brk Γ s.scopes → ClausesTyped c loop brk Γ clauses'

theorem sound_varDecl (sp : Span) (x : String) (ty : Ty) (isConst : Bool) (init : Option Expr) :
    SoundStmt (.varDecl sp x ty isConst init) := by
  intro c loop brk Γ stmt' s s' h hs
  obtain ⟨init', s₁, b, rfl, rfl, _, hle, hunknown, hvoid, hdefine, hinit⟩ := passes_varDecl h
  rw [Stmt.Typed]
  cases init with
  | none =>
      obtain ⟨rfl, rfl⟩ := hinit
      exact ⟨hvoid, hunknown, (define_around hdefine hs).1, nofun⟩
  | some e =>
      obtain ⟨e', s₂, he, rfl, hscopes⟩ := hinit
      have hs₁ := (he.around (namesKept.looks_checkStored _ e).keeps hs).of_shape
        (Scopes.shape_of_forgetLengths hscopes)
      refine ⟨hvoid, hunknown, (define_around hdefine hs₁).1, ?_⟩
      rintro e₀ ⟨⟩
      exact passes_stored he hs.views

theorem sound_ifThen {body : List Stmt} (hbody : SoundStmts body) (sp : Span) (e : Expr) :
    SoundStmt (.ifThen sp e body) := by
  intro c loop brk Γ stmt' s s' h hs
  obtain ⟨e', s₁, body', s₂, he, h₁, rfl, _⟩ := passes_ifThen h
  rw [Stmt.Typed]
  exact ⟨passes_condition he hs.views,
    (hbody h₁ (he.around (namesKept.looks_checkCondition e).keeps hs).enterBlock).1⟩

theorem sound_ifElse {a b : List Stmt} (ha : SoundStmts a) (hb : SoundStmts b) (sp : Span)
    (e : Expr) : SoundStmt (.ifElse sp e a b) := by
  intro c loop brk Γ stmt' s s' h hs
  obtain ⟨e', s₁, a', s₂, b', s₃, he, h₁, h₂, rfl, _⟩ := passes_ifElse h
  have hs₁ := he.around (namesKept.looks_checkCondition e).keeps hs
  have hs₂ : Around loop brk Γ (s₂.leave.restored s₁.scopes.snapshot).scopes :=
    hs₁.of_shape ((State.shape_restored _ _).trans (h₁.shape_leave (grows_checkStmts a)))
  rw [Stmt.Typed]
  exact ⟨passes_condition he hs.views, (ha h₁ hs₁.enterBlock).1, (hb h₂ hs₂.enterBlock).1⟩

theorem sound_while {body : List Stmt} (hbody : SoundStmts body) (sp : Span) (e : Expr) :
    SoundStmt (.while sp e body) := by
  intro c loop brk Γ stmt' s s' h hs
  obtain ⟨e', s₁, body', s₂, he, h₁, rfl, _⟩ := passes_while h
  have hs₀ : Around loop brk Γ s.forget.scopes := hs.of_shape s.shape_forget
  have hs₁ : Around loop brk Γ s₁.forget.scopes :=
    (he.around (namesKept.looks_checkCondition e).keeps hs₀).of_shape s₁.shape_forget
  rw [Stmt.Typed]
  exact ⟨passes_condition he hs₀.views, (hbody h₁ hs₁.enterLoop).1⟩

theorem sound_doWhile {body : List Stmt} (hbody : SoundStmts body) (sp : Span) (e : Expr) :
    SoundStmt (.doWhile sp body e) := by
  intro c loop brk Γ stmt' s s' h hs
  obtain ⟨body', s₁, e', s₂, h₁, he, rfl, _⟩ := passes_doWhile h
  have hs₀ : Around loop brk Γ s.forget.scopes := hs.of_shape s.shape_forget
  have hs₁ : Around loop brk Γ s₁.leave.scopes :=
    hs₀.of_shape (h₁.shape_leave (grows_checkStmts body))
  rw [Stmt.Typed]
  exact ⟨(hbody h₁ hs₀.enterLoop).1, passes_condition he hs₁.views⟩

theorem sound_for {init update : Option Stmt} {body : List Stmt} (hinit : SoundStmt? init)
    (hupdate : SoundStmt? update) (hbody : SoundStmts body) (sp : Span) (e : Option Expr) :
    SoundStmt (.for sp init e update body) := by
  intro c loop brk Γ stmt' s s' h hs
  obtain ⟨init', s₁, e', s₂, body', s₃, update', s₄, h₁, h₂, h₃, h₄, rfl, _⟩ := passes_for h
  obtain ⟨hinit', hs₁⟩ := hinit h₁ hs.enterBlock
  have hs₁ : Around loop brk (TyEnv.after? ([] :: Γ) init') s₁.forget.scopes :=
    hs₁.of_shape s₁.shape_forget
  have hs₂ := h₂.around (inspects_checkCondition? e).keeps hs₁
  obtain ⟨hbody', hs₃⟩ := hbody h₃ hs₂.enterLoop
  rw [Stmt.Typed]
  refine ⟨hinit', ?_, hbody', (hupdate h₄ hs₃).1⟩
  rintro e₀ rfl
  cases e with
  | none => cases (passes_condition?_none h₂).1
  | some e =>
      obtain ⟨e₁, he, heq⟩ := passes_condition?_some h₂
      cases heq
      exact passes_condition he hs₁.views

theorem sound_forEach {body : List Stmt} (hbody : SoundStmts body) (sp : Span) (kind : IterKind)
    (ty : Option Ty) (x : String) (e : Expr) : SoundStmt (.forEach sp kind ty x e body) := by
  intro c loop brk Γ stmt' s s' h hs
  obtain ⟨e', s₁, elem, s₂, r, s₃, body', s₄, he, hvar, hdefine, h₁, rfl, _⟩ := passes_forEach h
  obtain ⟨τ, htyped⟩ := passes_expr_typed he hs.views
  obtain ⟨hvisited, hdeclared⟩ := passes_loopVariable htyped hvar
  have hs₂ : Around loop brk Γ s₂.forget.scopes :=
    (hvar.around (namesKept.looks_loopVariable _ _ _ _ _).keeps (he.around (inspects_checkExpr none e).keeps hs)).of_shape
      s₂.shape_forget
  obtain rfl := define_enter hdefine
  rw [Stmt.Typed]
  exact ⟨τ, elem, htyped, hvisited, hdeclared, (hbody h₁ (define_around hdefine hs₂.enterLoop).2).1⟩

theorem sound_switch {arms : List SwitchArm} (harms : SoundArms arms) (sp : Span) (e : Expr) :
    SoundStmt (.switch sp e arms) := by
  intro c loop brk Γ stmt' s s' h hs
  obtain ⟨e', s₁, arms', merged, s₂, he, h₁, rfl, _⟩ := passes_switch h
  obtain ⟨τ, htyped, hscalar⟩ := passes_switched he hs.views
  rw [htyped.type?] at h₁
  rw [Stmt.Typed]
  exact ⟨τ, htyped, hscalar, harms h₁ (he.around (namesKept.looks_checkSwitched e).keeps hs)⟩

theorem sound_try {body : List Stmt} {clauses : List CatchClause} (hbody : SoundStmts body)
    (hclauses : SoundClauses clauses) (sp : Span) : SoundStmt (.try sp body clauses) := by
  intro c loop brk Γ stmt' s s' h hs
  obtain ⟨body', s₁, clauses', merged, s₂, h₁, h₂, rfl, _⟩ := passes_try h
  have hs₁ : Around loop brk Γ s₁.leave.scopes :=
    hs.of_shape (h₁.shape_leave (grows_checkStmts body))
  rw [Stmt.Typed]
  exact ⟨(hbody h₁ hs.enterBlock).1, hclauses h₂ hs₁⟩

theorem sound_block {body : List Stmt} (hbody : SoundStmts body) (sp : Span) :
    SoundStmt (.block sp body) := by
  intro c loop brk Γ stmt' s s' h hs
  obtain ⟨body', s₁, h₁, rfl, _⟩ := passes_block h
  rw [Stmt.Typed]
  exact (hbody h₁ hs.enterBlock).1

theorem sound_stmts_cons {stmt : Stmt} {rest : List Stmt} (hstmt : SoundStmt stmt)
    (hrest : SoundStmts rest) : SoundStmts (stmt :: rest) := by
  intro c loop brk Γ body' s s' h hs
  obtain ⟨stmt', s₁, rest', h₁, h₂, rfl⟩ := passes_stmts_cons h
  obtain ⟨htyped, hs'⟩ := hrest h₂ (h₁.around_after hs)
  rw [StmtsTyped]
  exact ⟨⟨hstmt h₁ hs, htyped⟩, hs'⟩

theorem sound_arms_cons {body : List Stmt} {rest : List SwitchArm} (hbody : SoundStmts body)
    (hrest : SoundArms rest) (sp : Span) (test : Option Expr) (falls : Bool) :
    SoundArms (.mk sp test body falls :: rest) := by
  intro c loop brk Γ τ before merged merged' arms' s s' h hs
  obtain ⟨test', s₁, body', s₂, rest', h₁, h₂, h₃, rfl⟩ := passes_arms_cons h
  have hs₁ : Around loop brk Γ (s₁.restored before).scopes :=
    (h₁.around (inspects_checkTest _ test).keeps hs).of_shape (s₁.shape_restored before)
  have hs₂ : Around loop brk Γ s₂.leave.scopes :=
    hs₁.of_shape (h₂.shape_leave (grows_checkStmts body))
  rw [ArmsTyped]
  refine ⟨?_, (hbody h₂ hs₁.enterSwitch).1, hrest h₃ hs₂⟩
  rintro e₀ rfl
  cases test with
  | none => cases h₁.run
  | some e =>
      obtain ⟨h₁, hsilent⟩ := h₁
      obtain ⟨e₁, t₁, he, h₁⟩ := run_step h₁
      cases h₁
      exact passes_stored ⟨he, hsilent⟩ hs.views

/-- Behind a scope in which a name was bound first, everything is as before it. -/
theorem shape_leave_of_define {x : String} {b : Binding} {kind : ScopeKind} {r : Option Span}
    {s s₁ s₂ : State} {body body' : List Stmt} (hdefine : define x b c (s.enter kind) = (r, s₁))
    (hbody : Passes (checkStmts body) c s₁ body' s₂) : s₂.leave.scopes.shape = s.scopes.shape := by
  have hstep : Passes (define x b >>= fun _ => checkStmts body) c (s.enter kind) body' s₂ := by
    refine ⟨?_, Nat.le_trans hbody.silent (Nat.le_of_eq (define_count hdefine))⟩
    show checkStmts body c (define x b c (s.enter kind)).2 = _
    rw [hdefine]
    exact hbody.run
  exact hstep.shape_leave ((grows_define _ _).bind fun _ => grows_checkStmts body)

theorem sound_clauses_cons {body : List Stmt} {rest : List CatchClause} (hbody : SoundStmts body)
    (hrest : SoundClauses rest) (sp : Span) (proto x : String) :
    SoundClauses (.mk sp proto x body :: rest) := by
  intro c loop brk Γ before merged merged' clauses' s s' h hs
  obtain ⟨r, s₁, body', s₂, rest', hproto, hexception, hdefine, h₁, h₂, rfl⟩ :=
    passes_clauses_cons h
  have hs₀ : Around loop brk Γ (s.restored before).scopes := hs.of_shape (s.shape_restored before)
  obtain rfl := define_enter hdefine
  have hs₂ : Around loop brk Γ s₂.leave.scopes := hs₀.of_shape (shape_leave_of_define hdefine h₁)
  rw [ClausesTyped]
  exact ⟨hproto, hexception, (hbody h₁ (define_around hdefine hs₀.enterBlock).2).1, hrest h₂ hs₂⟩

end

mutual

theorem sound_stmt : (stmt : Stmt) → SoundStmt stmt
  | .varDecl sp x ty isConst init => sound_varDecl sp x ty isConst init
  | .assign sp target op e => by
      intro h hs
      obtain ⟨target', e', h₁, rfl⟩ := passes_assign h
      rw [Stmt.Typed]
      exact passes_checkAssign h₁ hs.views
  | .expr sp e => by
      intro h hs
      obtain ⟨e', h₁, rfl⟩ := passes_expr h
      rw [Stmt.Typed]
      exact passes_expr_typed h₁ hs.views
  | .ifThen sp e body => sound_ifThen (sound_stmts body) sp e
  | .ifElse sp e a b => sound_ifElse (sound_stmts a) (sound_stmts b) sp e
  | .while sp e body => sound_while (sound_stmts body) sp e
  | .doWhile sp body e => sound_doWhile (sound_stmts body) sp e
  | .for sp init e update body =>
      sound_for (sound_stmt? init) (sound_stmt? update) (sound_stmts body) sp e
  | .forEach sp kind ty x e body => sound_forEach (sound_stmts body) sp kind ty x e
  | .switch sp e arms => sound_switch (sound_arms arms) sp e
  | .break sp => by
      intro h hs
      obtain ⟨hbreak, rfl, _⟩ := passes_break h
      rw [Stmt.Typed]
      exact hs.canBreak.symm.trans hbreak
  | .continue sp => by
      intro h hs
      obtain ⟨hloop, rfl, _⟩ := passes_continue h
      rw [Stmt.Typed]
      exact hs.inLoop.symm.trans hloop
  | .ret sp e => by
      intro h hs
      obtain ⟨e', h₁, rfl⟩ := passes_ret h
      exact passes_checkReturn h₁ hs.views _ _
  | .throw sp e => by
      intro h hs
      obtain ⟨e', h₁, rfl⟩ := passes_throw h
      rw [Stmt.Typed]
      exact passes_checkThrow h₁ hs.views
  | .try sp body clauses => sound_try (sound_stmts body) (sound_clauses clauses) sp
  | .block sp body => sound_block (sound_stmts body) sp
termination_by structural x => x

theorem sound_stmts : (body : List Stmt) → SoundStmts body
  | [] => by
      intro h hs
      obtain ⟨rfl, rfl⟩ := passes_stmts_nil h
      rw [StmtsTyped]
      exact ⟨trivial, hs⟩
  | stmt :: rest => sound_stmts_cons (sound_stmt stmt) (sound_stmts rest)
termination_by structural x => x

theorem sound_stmt? : (stmt : Option Stmt) → SoundStmt? stmt
  | none => by
      intro h hs
      obtain ⟨rfl, rfl⟩ := passes_stmt?_none h
      exact ⟨trivial, hs⟩
  | some stmt => by
      intro h hs
      obtain ⟨stmt', h₁, rfl⟩ := passes_stmt?_some h
      exact ⟨sound_stmt stmt h₁ hs, h₁.around_after hs⟩
termination_by structural x => x

theorem sound_arms : (arms : List SwitchArm) → SoundArms arms
  | [] => by
      intro h hs
      obtain ⟨rfl, _⟩ := passes_arms_nil h
      rw [ArmsTyped]
      trivial
  | .mk sp test body falls :: rest =>
      sound_arms_cons (sound_stmts body) (sound_arms rest) sp test falls
termination_by structural x => x

theorem sound_clauses : (clauses : List CatchClause) → SoundClauses clauses
  | [] => by
      intro h hs
      obtain ⟨rfl, _⟩ := passes_clauses_nil h
      rw [ClausesTyped]
      trivial
  | .mk sp proto x body :: rest => sound_clauses_cons (sound_stmts body) (sound_clauses rest) sp proto x
termination_by structural x => x

end

end ProtoScript.Analysis
