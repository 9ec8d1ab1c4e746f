import ProtoScript.Proofs.Lowering.Operation

set_option autoImplicit false

/-!
# Expressions keep their values

The code of an expression leaves its value in a temporary, or fails as the expression does
(`Expr.HasTy.lower`). Values that come from several blocks meet in a variable of their own, which is
new to the function.
-/

namespace ProtoScript.Lowering

open Ir

/-- The code between two points computes a value, for variables of the given types. -/
structure Computes (Γ : TyEnv) (b b' : Builder) (t : Temp)
    (value : Env → Except Failure Constant) : Prop where
  grown : Grown b b'
  lt : t < b'.nextTemp
  does {R W : Type} (T : Target R W) (σ : State R (Frame R W)) (ρ : Env) :
    Extends T.function b' → Matches b.scopes σ ρ → Env.HasTypes Γ ρ →
      T.Does b σ (value ρ) (T.Gives b σ b' t)

/-- The names of the variables are known to the builder. -/
def Named (Γ : TyEnv) (scopes : Frames String) : Prop := Frames.Rel (fun _ _ => True) Γ scopes

section

variable {R W : Type} {T : Target R W} {b b₁ b₂ : Builder} {σ : State R (Frame R W)}

/-- One value is computed from another. -/
theorem Target.Does.gives_bind {x : Except Failure Constant}
    {f : Constant → Except Failure Constant} {t t' : Temp} (h : T.Does b σ x (T.Gives b σ b₁ t))
    (hs : Step b b₁)
    (hf : ∀ v σ', x = .ok v → Undisturbed b σ σ' → σ'.temps t = some (.scalar v) →
      T.Does b₁ σ' (f v) (T.Gives b₁ σ' b₂ t')) :
    T.Does b σ (x >>= f) (T.Gives b σ b₂ t') := by
  refine Target.Does.bind (h.mono fun v hv hg => ?_)
  obtain ⟨σ', hreach, ht, hu⟩ := hg
  refine hreach.does ((hf v σ' hv hu ht).mono fun w _ hw => ?_)
  exact hw.of_reaches hreach hu hs

end

/-! ## Literals and names -/

theorem value_eq_literalConstant {v : Literal} {τ : Ty} (h : v.HasTy τ) :
    v.value (some τ) = .ok (literalConstant (some τ) v) := by
  cases v with
  | bool b => rfl
  | int v =>
      rcases h with rfl | ⟨rfl, hfit⟩
      · rfl
      · obtain ⟨b, hb⟩ := Option.isSome_iff_exists.1 hfit
        simp [Literal.value, literalConstant, hb, Ty.byte]
  | _ => cases h

theorem computes_literal {Γ : TyEnv} {b : Builder} (hb : b.Ready) {v : Literal} {τ : Ty}
    (hv : v.HasTy τ) :
    Computes Γ b (b.takeTemp.emit (.const b.nextTemp (literalConstant (some τ) v))) b.nextTemp
      fun _ => v.value (some τ) where
  grown := ((Grown.refl hb).takeTemp).emit _
  lt := Nat.lt_succ_self _
  does T σ ρ hF _ _ := by
    rw [value_eq_literalConstant hv]
    exact Target.does_emitValue hF rfl

theorem computes_ident {Γ : TyEnv} {b : Builder} (hb : b.Ready) {x y : String}
    (hy : Frames.find? b.scopes x = some y) :
    Computes Γ b (b.takeTemp.emit (.loadVar b.nextTemp y)) b.nextTemp fun ρ => ρ.read x where
  grown := ((Grown.refl hb).takeTemp).emit _
  lt := Nat.lt_succ_self _
  does T σ ρ hF hσ _ := by
    obtain ⟨w, hw, hholds⟩ := Frames.Rel.exists_of_find? hσ hy
    refine Target.does_emitValue hF ?_
    unfold Env.read
    rw [hw]
    cases w with
    | some v => exact Platform.exec_loadVar hholds
    | none => exact exec_loadVar_none hholds

/-! ## Operators -/

section

variable {Γ : TyEnv} {b b₁ b₂ : Builder} {t₁ t₂ : Temp}

theorem Computes.unary {e : Expr} {τ : Ty} (h : Computes Γ b b₁ t₁ (e.eval true)) (he : e.HasTy Γ τ)
    {op : UnaryOp} (hop : Analysis.unaryApplies op τ) :
    Computes Γ b ((b₁.emitCheck? (negCheck? op t₁ τ)).takeTemp.emit (.unary b₁.nextTemp op t₁))
      b₁.nextTemp fun ρ => do op.apply (← e.eval true ρ) where
  grown := ((h.grown.emitCheck? _).takeTemp).emit _
  lt := by
    cases negCheck? op t₁ τ with
    | none => exact Nat.lt_succ_self _
    | some c => exact Nat.lt_succ_self _
  does T σ ρ hF hσ hρ := by
    have hgrown := ((Grown.refl h.grown.ready).emitCheck? (negCheck? op t₁ τ)).takeTemp
    have hF₁ := (hgrown.emit (.unary b₁.nextTemp op t₁)).step.back _ hF
    refine (h.does T σ ρ hF₁ hσ hρ).gives_bind h.grown.step fun v σ' hv _ ht => ?_
    obtain rfl := he.eval hρ hv
    exact Target.does_emitUnary h.grown.ended hF he.isWord hop ht

theorem Computes.binary {l r : Expr} {τ : Ty} (hb : b.Ready)
    (hl : Computes Γ b b₁ t₁ (l.eval true)) (hr : Computes Γ b₁ b₂ t₂ (r.eval true))
    (hlτ : l.HasTy Γ τ) (hrτ : r.HasTy Γ τ) {op : BinaryOp} (hop : op.isLogical = false)
    (happ : Analysis.binaryApplies op τ) :
    Computes Γ b
      ((b₂.emitCheck? (checkFor? op t₁ t₂ τ)).takeTemp.emit (.binary b₂.nextTemp op t₁ t₂))
      b₂.nextTemp fun ρ => do
        let x ← l.eval true ρ
        op.apply x (← r.eval true ρ) where
  grown := (((hl.grown.trans hr.grown).emitCheck? _).takeTemp).emit _
  lt := by
    cases checkFor? op t₁ t₂ τ with
    | none => exact Nat.lt_succ_self _
    | some c => exact Nat.lt_succ_self _
  does T σ ρ hF hσ hρ := by
    have hgrown := ((Grown.refl hr.grown.ready).emitCheck? (checkFor? op t₁ t₂ τ)).takeTemp
    have hF₂ := (hgrown.emit (.binary b₂.nextTemp op t₁ t₂)).step.back _ hF
    have hF₁ := hr.grown.step.back _ hF₂
    refine (hl.does T σ ρ hF₁ hσ hρ).gives_bind hl.grown.step fun x σ₁ hx hu ht₁ => ?_
    have hσ₁ : Matches b₁.scopes σ₁ ρ := by
      rw [hl.grown.scopes]
      exact hσ.undisturbed hb.wf.used hu
    refine (hr.does T σ₁ ρ hF₂ hσ₁ hρ).gives_bind hr.grown.step fun y σ₂ hy hu' ht₂ => ?_
    have hkept : σ₂.temps t₁ = some (.scalar x) := (hu'.temps t₁ hl.lt).trans ht₁
    exact Target.does_emitBinary hr.grown.ended hF hlτ.isWord (hlτ.eval hρ hx)
      (hrτ.eval hρ hy) hop happ hkept ht₂

/-- A logical operator whose right operand is evaluated in any case. -/
theorem choose_forced (op : BinaryOp) (v : Bool) (right : Except Failure Constant) :
    op.choose (.bool v) right true =
      right >>= fun y => .ok (if v = decide (op = .and) then y else .bool v) := by
  unfold BinaryOp.choose
  by_cases hv : v = decide (op = .and)
  · simp only [if_pos hv]
    cases right <;> rfl
  · simp only [if_neg hv]
    rfl

theorem choose_of_ok (op : BinaryOp) (a y : Constant) (forced : Bool) :
    op.choose a (.ok y) forced = op.choose a (.ok y) true := by
  unfold BinaryOp.choose
  cases forced <;> rfl

/-- The instruction that selects the value of a logical operator. -/
def selectInstr (op : BinaryOp) (d l r : Temp) : Instr :=
  if op = .and then .select d l r l else .select d l l r

theorem exec_selectInstr {R S : Type} (M : Machine R S) {σ : State R S} {op : BinaryOp}
    (hop : op.isLogical) {d l r : Temp} {v : Bool} {y : Constant}
    (hl : σ.temps l = some (.scalar (.bool v))) (hr : σ.temps r = some (.scalar y)) :
    M.exec (selectInstr op d l r) σ =
      .ok (σ.write d (.scalar (if v = decide (op = .and) then y else .bool v))) := by
  cases op with
  | and | or =>
      simp only [selectInstr, reduceCtorEq, if_true, if_false, Machine.exec, State.read_of_some hl,
        State.read_of_some hr, ok_bind]
      cases v <;> rfl
  | _ => cases hop

/-- A logical operator both of whose operands are evaluated, by an instruction that chooses between
their values. -/
theorem Computes.forced {l r : Expr} (hb : b.Ready) (hl : Computes Γ b b₁ t₁ (l.eval true))
    (hr : Computes Γ b₁ b₂ t₂ (r.eval true)) (hlτ : l.HasTy Γ .bool) (hrτ : r.HasTy Γ .bool)
    {op : BinaryOp} {i : Instr}
    (hi : ∀ {R W : Type} (T : Target R W) {σ : State R (Frame R W)} {v w : Bool},
      σ.temps t₁ = some (.scalar (.bool v)) → σ.temps t₂ = some (.scalar (.bool w)) →
        T.machine.exec i σ = .ok (σ.write b₂.nextTemp
          (.scalar (if v = decide (op = .and) then .bool w else .bool v)))) :
    Computes Γ b (b₂.takeTemp.emit i) b₂.nextTemp fun ρ => do
      let x ← l.eval true ρ
      op.choose x (r.eval true ρ) true where
  grown := ((hl.grown.trans hr.grown).takeTemp).emit _
  lt := Nat.lt_succ_self _
  does T σ ρ hF hσ hρ := by
    have hF₂ := ((Grown.refl hr.grown.ready).takeTemp.emit i).step.back _ hF
    have hF₁ := hr.grown.step.back _ hF₂
    refine (hl.does T σ ρ hF₁ hσ hρ).gives_bind hl.grown.step fun x σ₁ hx hu ht₁ => ?_
    obtain ⟨v, rfl⟩ := Constant.eq_bool_of_ty (hlτ.eval hρ hx)
    have hσ₁ : Matches b₁.scopes σ₁ ρ := by
      rw [hl.grown.scopes]
      exact hσ.undisturbed hb.wf.used hu
    rw [choose_forced]
    refine (hr.does T σ₁ ρ hF₂ hσ₁ hρ).gives_bind hr.grown.step fun y σ₂ hy hu' ht₂ => ?_
    obtain ⟨w, rfl⟩ := Constant.eq_bool_of_ty (hrτ.eval hρ hy)
    have hkept : σ₂.temps t₁ = some (.scalar (.bool v)) := (hu'.temps t₁ hl.lt).trans ht₁
    exact Target.does_emitValue hF (hi T hkept ht₂)

end

/-! ## Values that meet -/

/-- The variable in which values meet. -/
def Builder.joinName (b : Builder) : String := freeName b.used ("__join" ++ toString b.nextTemp)

/-- The builder with such a variable declared. -/
def Builder.declareJoin (b : Builder) (ty : Ty) : Builder :=
  (b.useName b.joinName).emit (.varDecl b.joinName ty)

theorem runs_declareJoin {c : Context} {b : Builder} (ty : Ty) :
    Runs c (declareJoin ty) b b.joinName (b.declareJoin ty) := rfl

section

variable {R W : Type} {T : Target R W} {Γ : TyEnv} {b b₁ b₂ : Builder} {σ σ' : State R (Frame R W)}

/-- A value is stored where values meet, and control goes to the label where they do. -/
theorem does_join {t : Temp} {value : Env → Except Failure Constant} {y label : String} {ρ : Env}
    (h : Computes Γ b₁ b₂ t value) (hs : Step b b₁) (hy : y ∉ b.used)
    (hF : Extends T.function ((b₂.emit (.storeVar y t)).finish (.jump label)))
    (hσ : Matches b₁.scopes σ ρ) (hρ : Env.HasTypes Γ ρ) :
    T.Does b₁ σ (value ρ) fun v => ∃ σ', T.ReachesLabel b₁ σ label σ' ∧
      σ'.rest.vars y = some (.scalar v) ∧ Undisturbed b σ σ' := by
  have hstore : Step b₂ ((b₂.emit (.storeVar y t)).finish (.jump label)) :=
    ((Grown.refl h.grown.ready).emit _).finish _
  refine (h.does T σ ρ (hstore.back _ hF) hσ hρ).mono fun v _ hv => ?_
  obtain ⟨σ₁, hreach, ht, hu⟩ := hv
  obtain ⟨σ₂, hexec, htemps, hvars⟩ := exec_storeVar (T := T) (y := y) ht
  refine ⟨σ₂, hreach.label ((Target.reaches_emit hexec).label (Target.reachesLabel_jump hF)), ?_, ?_⟩
  · rw [hvars, if_pos rfl]
  · exact (hu.of_step hs).trans (Undisturbed.of_vars hy htemps hvars)

/-- Where values meet, the one that was stored is loaded. -/
theorem gives_joined {y label : String} {v : Constant} (h : T.ReachesLabel b σ label σ')
    (hy : σ'.rest.vars y = some (.scalar v)) (hu : Undisturbed b σ σ') (hfree : label ∉ b₁.labels)
    (hs : b.nextTemp ≤ b₁.nextTemp) :
    T.Gives b σ ((b₁.start label).takeTemp.emit (.loadVar b₁.nextTemp y)) b₁.nextTemp v := by
  have hload : T.machine.exec (.loadVar b₁.nextTemp y) σ' = .ok (σ'.write b₁.nextTemp (.scalar v)) :=
    Platform.exec_loadVar hy
  exact ⟨_, (h.start hfree).trans (Target.reaches_emit (b := (b₁.start label).takeTemp) hload),
    State.write_temps_self _ _, hu.trans (Undisturbed.write hs _)⟩

/-- The variable in which values meet is new. -/
theorem exec_declareJoin (T : Target R W) (b : Builder) (σ : State R (Frame R W)) (ty : Ty) :
    ∃ σ', T.Reaches b σ (b.declareJoin ty) σ' ∧ Undisturbed b σ σ' := by
  obtain ⟨σ', hexec, htemps, hvars⟩ := exec_varDecl (T := T) (σ := σ) b.joinName ty
  exact ⟨σ', Target.reaches_emit (b := b.useName b.joinName) hexec,
    Undisturbed.of_vars (freeName_not_mem _ _) htemps hvars⟩

end

theorem Grown.declareJoin {b b' : Builder} (h : Grown b b') (ty : Ty) :
    Grown b (b'.declareJoin ty) := (h.useName _).emit _

/-- The builder behind the start of a logical operation, but for the terminator. -/
def Builder.startLogical (b : Builder) (left : Temp) : Builder :=
  ((b.declareJoin .bool).emit (.storeVar b.joinName left)).takeLabel.takeLabel

/-- Where a logical operation goes behind its left operand. -/
def logicTerm (op : BinaryOp) (left : Temp) (rhs done : String) : Terminator :=
  if op = .and then .branch left rhs done else .branch left done rhs

theorem runs_startLogical {c : Context} {b : Builder} (hb : b.ended = none) (op : BinaryOp)
    (left : Temp) :
    Runs c (startLogical op left) b
      (b.joinName, b.newLabel "logic_rhs", b.takeLabel.newLabel "logic_end")
      ((b.startLogical left).finish
        (logicTerm op left (b.newLabel "logic_rhs") (b.takeLabel.newLabel "logic_end"))) := by
  unfold startLogical
  refine (runs_declareJoin _).bind ((runs_emit _).bind ?_)
  refine (runs_freshLabel _).bind ((runs_freshLabel _).bind ?_)
  exact (runs_endWith (b := b.startLogical left) hb _).bind (runs_pure _)

section

variable {Γ : TyEnv} {b b₁ b₂ : Builder} {t₁ t₂ : Temp}

theorem Grown.startLogical (h : Grown b b₁) (left : Temp) : Grown b (b₁.startLogical left) :=
  (((h.declareJoin _).emit _).takeLabel).takeLabel

theorem pending_logicRhs (hb : b.Ready) (left : Temp) :
    Pending b (b.startLogical left) (b.newLabel "logic_rhs") := by
  have hstored := ((Grown.refl hb).declareJoin .bool).emit (.storeVar b.joinName left)
  exact (Pending.of_takeLabel hstored rfl).step (Step.takeLabel _)

theorem pending_logicEnd (hb : b.Ready) (left : Temp) :
    Pending b (b.startLogical left) (b.takeLabel.newLabel "logic_end") := by
  have hstored := ((Grown.refl hb).declareJoin .bool).emit (.storeVar b.joinName left)
  exact Pending.of_takeLabel hstored.takeLabel rfl

/-- Behind the left operand its value is stored, and control goes on as it says. -/
theorem reachesLabel_startLogical {R W : Type} {T : Target R W} {σ : State R (Frame R W)}
    {op : BinaryOp} {rhs done : String} {v : Bool} (hlt : t₁ < b.nextTemp)
    (ht : σ.temps t₁ = some (.scalar (.bool v))) (hop : op.isLogical)
    (hF : Extends T.function ((b.startLogical t₁).finish (logicTerm op t₁ rhs done))) :
    ∃ σ', T.ReachesLabel b σ (if v = decide (op = .and) then rhs else done) σ' ∧
      σ'.rest.vars b.joinName = some (.scalar (.bool v)) ∧ Undisturbed b σ σ' := by
  obtain ⟨σ₁, hdeclared, hu⟩ := exec_declareJoin T b σ .bool
  have ht₁ : σ₁.temps t₁ = some (.scalar (.bool v)) := (hu.temps t₁ hlt).trans ht
  obtain ⟨σ₂, hexec, htemps, hvars⟩ := exec_storeVar (T := T) (y := b.joinName) ht₁
  have hstored := Target.reaches_emit (b := b.declareJoin .bool) hexec
  have ht₂ : σ₂.temps t₁ = some (.scalar (.bool v)) := by rw [htemps, ht₁]
  have hstart : T.Reaches b σ (b.startLogical t₁) σ₂ := hdeclared.trans hstored
  refine ⟨σ₂, hstart.label ?_, ?_,
    hu.trans (Undisturbed.of_vars (freeName_not_mem _ _) htemps hvars)⟩
  · cases op with
    | and =>
        have hgoto := Target.reachesLabel_branch hF ht₂
        cases v <;> exact hgoto
    | or =>
        have hgoto := Target.reachesLabel_branch hF ht₂
        cases v <;> exact hgoto
    | _ => cases hop
  · rw [hvars, if_pos rfl]

/-- A logical operator whose right operand has a block of its own. -/
theorem Computes.logic {l r : Expr} {op : BinaryOp} {rhs done : String} (hb : b.Ready)
    (hl : Computes Γ b b₁ t₁ (l.eval true)) (hrhs : rhs = b₁.newLabel "logic_rhs")
    (hdone : done = b₁.takeLabel.newLabel "logic_end")
    (hr : Computes Γ (((b₁.startLogical t₁).finish (logicTerm op t₁ rhs done)).start rhs) b₂ t₂
      (r.eval true)) (hlτ : l.HasTy Γ .bool) (hop : op.isLogical) :
    Computes Γ b
      ((((b₂.emit (.storeVar b₁.joinName t₂)).finish (.jump done)).start done).takeTemp.emit
        (.loadVar b₂.nextTemp b₁.joinName)) b₂.nextTemp
      fun ρ => l.eval true ρ >>= fun x => op.choose x (r.eval true ρ) false := by
  have hgrown : Grown b₁ (b₁.startLogical t₁) := (Grown.refl hl.grown.ready).startLogical t₁
  have hpendRhs : Pending b₁ (b₁.startLogical t₁) rhs := hrhs ▸ pending_logicRhs hl.grown.ready t₁
  have hpendDone : Pending b₁ (b₁.startLogical t₁) done := hdone ▸ pending_logicEnd hl.grown.ready t₁
  have hne : done ≠ rhs := by
    rw [hrhs, hdone]
    exact label_ne rfl rfl (by simp only [Builder.takeLabel]; omega)
  have hright : Grown b₁ (b₂.emit (.storeVar b₁.joinName t₂)) :=
    ((hgrown.next _ hpendRhs).trans hr.grown).emit _
  have hpend : Pending b₁ (b₂.emit (.storeVar b₁.joinName t₂)) done :=
    ((hpendDone.step (Step.finish hgrown.ended _)).start hne).step (hr.grown.emit _).step
  have hend := hright.next (.jump done) hpend
  have hlast := hend.takeTemp.emit (.loadVar b₂.nextTemp b₁.joinName)
  refine ⟨hl.grown.trans hlast, Nat.lt_succ_self _, fun T σ ρ hF hσ hρ => ?_⟩
  have hloaded := (Grown.refl hend.ready).takeTemp.emit (.loadVar b₂.nextTemp b₁.joinName)
  have hFstored := (hloaded.step.back _ hF).of_start
  have hFright := ((hr.grown.emit _).finish _).back _ hFstored
  refine (hl.does T σ ρ (hlast.step.back _ hF) hσ hρ).gives_bind hl.grown.step
    fun x σ₁ hx hu ht₁ => ?_
  obtain ⟨v, rfl⟩ := Constant.eq_bool_of_ty (hlτ.eval hρ hx)
  obtain ⟨σ₂, hgoto, hjoined, hu₂⟩ :=
    reachesLabel_startLogical (σ := σ₁) hl.lt ht₁ hop hFright.of_start
  unfold BinaryOp.choose
  by_cases hv : v = decide (op = .and)
  · simp only [if_pos hv] at hgoto ⊢
    have hstart : T.Reaches b₁ σ₁ (((b₁.startLogical t₁).finish (logicTerm op t₁ rhs done)).start rhs)
        σ₂ := hgoto.start hpendRhs.fresh
    have hσ₂ : Matches b₁.scopes σ₂ ρ := by
      rw [hl.grown.scopes]
      exact hσ.undisturbed hb.wf.used (hu.trans (hu₂.of_step hl.grown.step))
    refine hstart.does ((does_join hr (hgrown.next _ hpendRhs).step (freeName_not_mem _ _) hFstored
      hσ₂ hρ).mono fun w _ hw => ?_)
    obtain ⟨σ₃, hjump, hvar, hu₃⟩ := hw
    exact gives_joined (hstart.label hjump) hvar (hu₂.trans hu₃) hpend.fresh hright.step.nextTemp
  · simp only [if_neg hv] at hgoto ⊢
    exact gives_joined hgoto hjoined hu₂ hpend.fresh hright.step.nextTemp

/-- The builder behind the start of a choice, but for the terminator. -/
def Builder.startTernary (b : Builder) (ty : Ty) : Builder :=
  (b.declareJoin ty).takeLabel.takeLabel.takeLabel

theorem Grown.startTernary (h : Grown b b₁) (ty : Ty) : Grown b (b₁.startTernary ty) :=
  (h.declareJoin ty).takeLabel.takeLabel.takeLabel

theorem pending_ternThen (hb : b.Ready) (ty : Ty) :
    Pending b (b.startTernary ty) (b.newLabel "tern_then") :=
  ((Pending.of_takeLabel ((Grown.refl hb).declareJoin ty) rfl).step (Step.takeLabel _)).step
    (Step.takeLabel _)

theorem pending_ternElse (hb : b.Ready) (ty : Ty) :
    Pending b (b.startTernary ty) (b.takeLabel.newLabel "tern_else") :=
  (Pending.of_takeLabel ((Grown.refl hb).declareJoin ty).takeLabel rfl).step (Step.takeLabel _)

theorem pending_ternEnd (hb : b.Ready) (ty : Ty) :
    Pending b (b.startTernary ty) (b.takeLabel.takeLabel.newLabel "tern_end") :=
  Pending.of_takeLabel ((Grown.refl hb).declareJoin ty).takeLabel.takeLabel rfl

theorem ternElse_ne_ternThen (b : Builder) :
    b.takeLabel.newLabel "tern_else" ≠ b.newLabel "tern_then" :=
  label_ne rfl rfl (Nat.succ_ne_self _)

/-- A choice between two values, each of which has a block of its own. -/
theorem Computes.ternary {b₃ : Builder} {t₃ : Temp} {n : Note} {c x y : Expr} {ty : Ty}
    {thenLabel elseLabel done : String} (hb : b.Ready) (hc : Computes Γ b b₁ t₁ (c.eval true))
    (hcτ : c.HasTy Γ .bool) (hthen : thenLabel = b₁.newLabel "tern_then")
    (helse : elseLabel = b₁.takeLabel.newLabel "tern_else")
    (hdone : done = b₁.takeLabel.takeLabel.newLabel "tern_end")
    (hx : Computes Γ
      (((b₁.startTernary ty).finish (.branch t₁ thenLabel elseLabel)).start thenLabel) b₂ t₂
      (x.eval true))
    (hy : Computes Γ (((b₂.emit (.storeVar b₁.joinName t₂)).finish (.jump done)).start elseLabel)
      b₃ t₃ (y.eval true)) :
    Computes Γ b
      ((((b₃.emit (.storeVar b₁.joinName t₃)).finish (.jump done)).start done).takeTemp.emit
        (.loadVar b₃.nextTemp b₁.joinName)) b₃.nextTemp
      fun ρ => (Expr.ternary n c x y).eval true ρ := by
  have hgrown : Grown b₁ (b₁.startTernary ty) := (Grown.refl hc.grown.ready).startTernary ty
  have hpendThen : Pending b₁ (b₁.startTernary ty) thenLabel :=
    hthen ▸ pending_ternThen hc.grown.ready ty
  have hpendElse : Pending b₁ (b₁.startTernary ty) elseLabel :=
    helse ▸ pending_ternElse hc.grown.ready ty
  have hpendDone : Pending b₁ (b₁.startTernary ty) done :=
    hdone ▸ pending_ternEnd hc.grown.ready ty
  have hneElse : elseLabel ≠ thenLabel := by
    rw [hthen, helse]
    exact ternElse_ne_ternThen b₁
  have hneThen : done ≠ thenLabel := by
    rw [hthen, hdone]
    exact label_ne rfl rfl (by simp only [Builder.takeLabel]; omega)
  have hneDone : done ≠ elseLabel := by
    rw [helse, hdone]
    exact label_ne rfl rfl (by simp only [Builder.takeLabel]; omega)
  -- The two blocks, one behind the other.
  have hbranch : Step (b₁.startTernary ty) ((b₁.startTernary ty).finish (.branch t₁ thenLabel elseLabel)) :=
    Step.finish hgrown.ended _
  have hfirst : Grown b₁ (b₂.emit (.storeVar b₁.joinName t₂)) :=
    ((hgrown.next _ hpendThen).trans hx.grown).emit _
  have hpendElse' := ((hpendElse.step hbranch).start hneElse).step (hx.grown.emit (.storeVar b₁.joinName t₂)).step
  have hpendDone' := ((hpendDone.step hbranch).start hneThen).step (hx.grown.emit (.storeVar b₁.joinName t₂)).step
  have hsecond : Grown b₁ (b₃.emit (.storeVar b₁.joinName t₃)) :=
    ((hfirst.next _ hpendElse').trans hy.grown).emit _
  have hpend : Pending b₁ (b₃.emit (.storeVar b₁.joinName t₃)) done :=
    ((hpendDone'.step (Step.finish hfirst.ended _)).start hneDone).step (hy.grown.emit _).step
  have hend := hsecond.next (.jump done) hpend
  have hlast := hend.takeTemp.emit (.loadVar b₃.nextTemp b₁.joinName)
  refine ⟨hc.grown.trans hlast, Nat.lt_succ_self _, fun T σ ρ hF hσ hρ => ?_⟩
  have hloaded := (Grown.refl hend.ready).takeTemp.emit (.loadVar b₃.nextTemp b₁.joinName)
  have hFsecond := (hloaded.step.back _ hF).of_start
  have hFfirst := (((hy.grown.emit _).finish _).back _ hFsecond).of_start
  have hFbranch := (((hx.grown.emit _).finish _).back _ hFfirst).of_start
  rw [Expr.eval]
  refine (hc.does T σ ρ (hlast.step.back _ hF) hσ hρ).gives_bind hc.grown.step
    fun v σ₁ hv hu ht₁ => ?_
  obtain ⟨v, rfl⟩ := Constant.eq_bool_of_ty (hcτ.eval hρ hv)
  obtain ⟨σ₂, hreach, hu₂⟩ := exec_declareJoin T b₁ σ₁ ty
  have ht₂ : σ₂.temps t₁ = some (.scalar (.bool v)) := (hu₂.temps t₁ hc.lt).trans ht₁
  have hgoto : T.ReachesLabel b₁ σ₁ (if v then thenLabel else elseLabel) σ₂ :=
    hreach.label (Target.reachesLabel_branch hFbranch ht₂)
  have hσ₂ : Matches b₁.scopes σ₂ ρ := by
    rw [hc.grown.scopes]
    exact hσ.undisturbed hb.wf.used (hu.trans (hu₂.of_step hc.grown.step))
  cases v with
  | true =>
      have hstart : T.Reaches b₁ σ₁
          (((b₁.startTernary ty).finish (.branch t₁ thenLabel elseLabel)).start thenLabel) σ₂ :=
        hgoto.start hpendThen.fresh
      refine hstart.does ((does_join hx (hgrown.next _ hpendThen).step (freeName_not_mem _ _) hFfirst
        hσ₂ hρ).mono fun w _ hw => ?_)
      obtain ⟨σ₃, hjump, hvar, hu₃⟩ := hw
      exact gives_joined (hstart.label hjump) hvar (hu₂.trans hu₃) hpend.fresh hsecond.step.nextTemp
  | false =>
      have hstart : T.Reaches b₁ σ₁
          (((b₂.emit (.storeVar b₁.joinName t₂)).finish (.jump done)).start elseLabel) σ₂ :=
        hgoto.start hpendElse'.fresh
      have hσ₂' : Matches (((b₂.emit (.storeVar b₁.joinName t₂)).finish (.jump done)).start elseLabel).scopes σ₂ ρ := by
        rw [(hfirst.next (.jump done) hpendElse').scopes]
        exact hσ₂
      refine hstart.does ((does_join hy (hfirst.next _ hpendElse').step (freeName_not_mem _ _) hFsecond
        hσ₂' hρ).mono fun w _ hw => ?_)
      obtain ⟨σ₃, hjump, hvar, hu₃⟩ := hw
      exact gives_joined (hstart.label hjump) hvar (hu₂.trans hu₃) hpend.fresh hsecond.step.nextTemp

end

/-! ## Expressions -/

theorem Computes.congr {Γ : TyEnv} {b b' : Builder} {t : Temp}
    {value value' : Env → Except Failure Constant} (h : Computes Γ b b' t value)
    (hvalue : ∀ ρ, value' ρ = value ρ) : Computes Γ b b' t value' := by
  obtain rfl : value' = value := funext hvalue
  exact h

/-- The result of an expression is used. -/
theorem Runs.valueOf {α : Type} {c : Context} {newInstance : String → Lower Temp} {e : Expr}
    {b b₁ b₂ : Builder} {t : Temp} {f : Temp → Lower α} {a : α}
    (h : Runs c (lowerExpr? newInstance e) b (some t) b₁) (hf : Runs c (f t) b₁ a b₂) :
    Runs c (lowerExpr? newInstance e >>= fun r => Lowering.valueOf e r >>= f) b a b₂ :=
  h.bind ((runs_pure t).bind hf)

/-- The right operand of a logical operator is computed in any case if and only if it is a literal or
the name of a variable. -/
theorem runs_isTrivial {c : Context} {Γ : TyEnv} {b : Builder} {e : Expr} {τ : Ty}
    (h : e.HasTy Γ τ) (hnames : Named Γ b.scopes) :
    (Runs c (isTrivial e) b true b ∧ ((∃ n v, e = .literal n v) ∨ e.ident?.isSome)) ∨
      (Runs c (isTrivial e) b false b ∧ e.ident?.isSome = false) := by
  cases h with
  | literal _ _ => exact .inl ⟨rfl, .inl ⟨_, _, rfl⟩⟩
  | @ident n x _ _ hx _ =>
      obtain ⟨y, hy, _⟩ := Frames.Rel.exists_of_find? hnames hx
      have hsome : Runs c (isTrivial (.ident n x)) b (Frames.find? b.scopes x).isSome b := rfl
      rw [hy] at hsome
      exact .inl ⟨hsome, .inr rfl⟩
  | _ => exact .inr ⟨rfl, rfl⟩

theorem eval_literal {Γ : TyEnv} {n : Note} {v : Literal} {τ : Ty}
    (h : (Expr.literal n v).HasTy Γ τ) (ρ : Env) :
    ∃ y, (Expr.literal n v).eval true ρ = .ok y := by
  cases h with
  | literal hn hv =>
      rw [Expr.eval, hn, value_eq_literalConstant hv]
      exact ⟨_, rfl⟩

/-- The code of an expression computes its value. -/
theorem lowerExpr?_computes {Γ : TyEnv} {e : Expr} {τ : Ty} (h : e.HasTy Γ τ) (c : Context)
    (newInstance : String → Lower Temp) {b : Builder} (hb : b.Ready) (hnames : Named Γ b.scopes) :
    ∃ t b', Runs c (lowerExpr? newInstance e) b (some t) b' ∧ Computes Γ b b' t (e.eval true) := by
  induction h generalizing b with
  | @literal n v τ hn hv =>
      refine ⟨_, _, ?_, (computes_literal hb hv).congr fun ρ => by rw [Expr.eval, hn]⟩
      rw [lowerExpr?, hn]
      exact (runs_emitValue _).bind (runs_pure _)
  | @ident n x τ hn hx _ =>
      obtain ⟨y, hy, _⟩ := Frames.Rel.exists_of_find? hnames hx
      refine ⟨_, _, ?_, (computes_ident hb hy).congr fun ρ => by rw [Expr.eval]⟩
      rw [lowerExpr?]
      refine (runs_varOf? x).bind ?_
      rw [hy]
      exact (runs_emitValue _).bind (runs_pure _)
  | @unary n op e τ hn he hop ih =>
      obtain ⟨t₁, b₁, hrun, hcode⟩ := ih hb hnames
      refine ⟨_, _, ?_, (hcode.unary he hop).congr fun ρ => by rw [Expr.eval]⟩
      rw [lowerExpr?]
      refine (runs_typeOf he.type?).bind (hrun.valueOf ?_)
      exact (runs_emitUnary _ _ _).bind (runs_pure _)
  | @logical n op l r hn hop hl hr ihl ihr =>
      obtain ⟨t₁, b₁, hrunl, hcodel⟩ := ihl hb hnames
      have hnames₁ : Named Γ b₁.scopes := by
        rw [hcodel.grown.scopes]
        exact hnames
      rcases runs_isTrivial (c := c) hr hnames₁ with ⟨htrivial, hshape⟩ | ⟨htrivial, hshape⟩
      · obtain ⟨t₂, b₂, hrunr, hcoder⟩ := ihr hcodel.grown.ready hnames₁
        refine ⟨_, _, ?_, (hcodel.forced hb hcoder hl hr
          fun T _ _ _ => exec_selectInstr T.machine hop).congr fun ρ => ?_⟩
        · rw [lowerExpr?, if_pos hop]
          refine hrunl.valueOf (htrivial.bind ?_)
          exact hrunr.valueOf ((runs_emitValue _).bind (runs_pure _))
        · rw [Expr.eval]
          simp only [hop, if_true, Bool.true_and]
          rcases hshape with ⟨m, v, rfl⟩ | hident
          · obtain ⟨y, hy⟩ := eval_literal hr ρ
            simp only [hy, choose_of_ok]
          · rw [hident]
      · have hgrown := (Grown.refl hcodel.grown.ready).startLogical t₁
        have hright := hgrown.next (logicTerm op t₁ (b₁.newLabel "logic_rhs")
          (b₁.takeLabel.newLabel "logic_end")) (pending_logicRhs hcodel.grown.ready t₁)
        obtain ⟨t₂, b₂, hrunr, hcoder⟩ := ihr hright.ready (by rw [hright.scopes]; exact hnames₁)
        refine ⟨_, _, ?_, (hcodel.logic hb rfl rfl hcoder hl hop).congr fun ρ => ?_⟩
        · rw [lowerExpr?, if_pos hop]
          refine hrunl.valueOf (htrivial.bind ?_)
          refine (runs_startLogical hcodel.grown.ended op t₁).bind ((runs_startBlock _).bind ?_)
          refine hrunr.valueOf ((runs_emit _).bind ?_)
          refine (runs_endWith (hcoder.grown.emit _).ended _).bind ((runs_startBlock _).bind ?_)
          exact (runs_emitValue _).bind (runs_pure _)
        · rw [Expr.eval]
          simp only [hop, if_true, Bool.true_and, hshape]
  | @binary n op l r τ hn hop hl hr happ ihl ihr =>
      obtain ⟨t₁, b₁, hrunl, hcodel⟩ := ihl hb hnames
      have hnames₁ : Named Γ b₁.scopes := by
        rw [hcodel.grown.scopes]
        exact hnames
      obtain ⟨t₂, b₂, hrunr, hcoder⟩ := ihr hcodel.grown.ready hnames₁
      refine ⟨_, _, ?_, (hcodel.binary hb hcoder hl hr hop happ).congr fun ρ => ?_⟩
      · rw [lowerExpr?, if_neg (by simp [hop])]
        refine (runs_typeOf hl.type?).bind (hrunl.valueOf (hrunr.valueOf ?_))
        exact (runs_emitBinary _ _ _ _).bind (runs_pure _)
      · rw [Expr.eval]
        simp only [hop, Bool.false_eq_true, if_false]
  | @ternary n e x y τ hn he hx hy ihe ihx ihy =>
      obtain ⟨t₁, b₁, hrune, hcodee⟩ := ihe hb hnames
      have hnames₁ : Named Γ b₁.scopes := by
        rw [hcodee.grown.scopes]
        exact hnames
      have hgrown := (Grown.refl hcodee.grown.ready).startTernary τ
      have hthen := hgrown.next (.branch t₁ (b₁.newLabel "tern_then")
        (b₁.takeLabel.newLabel "tern_else")) (pending_ternThen hcodee.grown.ready τ)
      obtain ⟨t₂, b₂, hrunx, hcodex⟩ := ihx hthen.ready (by rw [hthen.scopes]; exact hnames₁)
      have hstored := (hthen.trans hcodex.grown).emit (.storeVar b₁.joinName t₂)
      have hpend := (((pending_ternElse hcodee.grown.ready τ).step (Step.finish hgrown.ended
        _)).start (ternElse_ne_ternThen b₁)).step (hcodex.grown.emit (.storeVar b₁.joinName t₂)).step
      have helse := hstored.next (.jump (b₁.takeLabel.takeLabel.newLabel "tern_end")) hpend
      obtain ⟨t₃, b₃, hruny, hcodey⟩ := ihy helse.ready (by rw [helse.scopes]; exact hnames₁)
      refine ⟨_, _, ?_, hcodee.ternary hb he rfl rfl rfl hcodex hcodey⟩
      rw [lowerExpr?]
      refine (runs_typeOf (Expr.HasTy.ternary hn he hx hy).type?).bind (hrune.valueOf ?_)
      refine (runs_declareJoin _).bind ((runs_freshLabel _).bind ((runs_freshLabel _).bind ?_))
      refine (runs_freshLabel _).bind ((runs_endWith hgrown.ended _).bind ?_)
      refine (runs_startBlock _).bind (hrunx.valueOf ((runs_emit _).bind ?_))
      refine (runs_endWith hstored.ended _).bind ((runs_startBlock _).bind ?_)
      refine hruny.valueOf ((runs_emit _).bind ?_)
      refine (runs_endWith (hcodey.grown.emit _).ended _).bind ((runs_startBlock _).bind ?_)
      exact (runs_emitValue _).bind (runs_pure _)

end ProtoScript.Lowering
