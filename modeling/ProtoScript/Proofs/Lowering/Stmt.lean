import ProtoScript.Proofs.Lowering.Flow

set_option autoImplicit false

/-!
# Statements keep their meaning

The code of a statement does what the statement does (`lowerStmt_lowers`), by induction on the
statement: each construct is a step of its own, given the code of its parts.
-/

namespace ProtoScript.Lowering

open Ir

variable {c : Context} {newInstance : String → Lower Temp} {Γ : TyEnv} {b b' : Builder}

theorem runs_lowerExpr {e : Expr} {t : Temp} (h : Runs c (lowerExpr? newInstance e) b (some t) b') :
    Runs c (lowerExpr newInstance e) b t b' :=
  h.bind (runs_pure t)

/-! ## Assignments -/

/-- A logical operator whose operands have both been evaluated. -/
theorem exec_binary_logical {R W : Type} {T : Target R W} {σ : State R (Frame R W)} {op : BinaryOp}
    (hop : op.isLogical) {d l r : Temp} {x y : Bool} (hl : σ.temps l = some (.scalar (.bool x)))
    (hr : σ.temps r = some (.scalar (.bool y))) :
    T.machine.exec (.binary d op l r) σ =
      .ok (σ.write d (.scalar (if x = decide (op = .and) then .bool y else .bool x))) := by
  have hbinary : Constant.binary? op (.bool x) (.bool y) =
      some (if x = decide (op = .and) then .bool y else .bool x) := by
    cases op with
    | and | or => cases x <;> cases y <;> rfl
    | _ => cases hop
  simp only [Machine.exec, State.read_of_some hl, State.read_of_some hr, ok_bind,
    T.machine.binary_scalar hbinary]
  rfl

variable (c newInstance) in
/-- The code of an assigned value computes it. -/
theorem lowerAssigned_computes {n : Note} {x y : String} {τ : Ty} {op : Option BinaryOp} {e : Expr}
    (hn : n.type? = some τ) (hx : Frames.find? Γ x = some τ) (hτ : τ.isWord)
    (he : e.FitsVar Γ τ op) (hb : b.Ready) (hnames : Named Γ b.scopes)
    (hy : Frames.find? b.scopes x = some y) :
    ∃ t b', Runs c (lowerAssigned newInstance (.ident n x) op e (emitValue (.loadVar · y))) b t b' ∧
      Computes Γ b b' t fun ρ => e.assigned true ρ x op := by
  cases op with
  | none =>
      obtain ⟨t, b', hrun, hcode⟩ := lowerExpr?_computes he c newInstance hb hnames
      exact ⟨t, b', runs_lowerExpr hrun, hcode⟩
  | some op =>
      have hold : Computes Γ b (b.takeTemp.emit (.loadVar b.nextTemp y)) b.nextTemp
          fun ρ => (Expr.ident n x).eval true ρ :=
        (computes_ident hb hy).congr fun ρ => by rw [Expr.eval]
      have hident : (Expr.ident n x).HasTy Γ τ := .ident hn hx hτ
      have hnames' : Named Γ (b.takeTemp.emit (.loadVar b.nextTemp y)).scopes := hnames
      simp only [Expr.FitsVar] at he
      cases hop : op.isLogical with
      | true =>
          rw [hop, if_pos rfl] at he
          obtain ⟨rfl, he⟩ := he
          obtain ⟨t, b', hrun, hcode⟩ := lowerExpr?_computes he c newInstance hold.grown.ready hnames'
          refine ⟨_, _, (runs_emitValue _).bind ((runs_lowerExpr hrun).bind
            ((runs_typeOf hident.type?).bind (runs_emitBinary _ _ _ _))), ?_⟩
          refine (hold.forced hb hcode hident he fun T _ _ _ => exec_binary_logical hop).congr
            fun ρ => ?_
          rw [Expr.eval]
          simp only [Expr.assigned, hop, if_true]
      | false =>
          rw [hop, if_neg Bool.false_ne_true] at he
          obtain ⟨he, happ, _⟩ := he
          obtain ⟨t, b', hrun, hcode⟩ := lowerExpr?_computes he c newInstance hold.grown.ready hnames'
          refine ⟨_, _, (runs_emitValue _).bind ((runs_lowerExpr hrun).bind
            ((runs_typeOf hident.type?).bind (runs_emitBinary _ _ _ _))), ?_⟩
          refine (hold.binary hb hcode hident he hop happ).congr fun ρ => ?_
          rw [Expr.eval]
          simp only [Expr.assigned, hop, Bool.false_eq_true, if_false]

theorem runs_varOf_of_find {x y : String} (hy : Frames.find? b.scopes x = some y) :
    Runs c (varOf? x) b (some y) b := hy ▸ runs_varOf? x

variable (c newInstance) in
/-- The code of an assignment. -/
theorem body_assign {span : Span} {n : Note} {x : String} {op : Option BinaryOp} {e : Expr}
    {ret : Ty} {loop brk : Bool}
    (h : Stmt.WellTyped ret loop brk Γ (.assign span (.ident n x) op e)) (hb : b.Ready)
    (hnames : Named Γ b.scopes) :
    ∃ b', Runs c (lowerAssign newInstance (.ident n x) op e) b () b' ∧
      Body Γ b b' fun fuel ρ => (Stmt.assign span (.ident n x) op e).exec true fuel ρ := by
  obtain ⟨τ, hn, hx, hτ, he⟩ := h
  obtain ⟨y, hy, _⟩ := Frames.Rel.exists_of_find? hnames hx
  obtain ⟨t, b', hrun, hcode⟩ :=
    lowerAssigned_computes c newInstance hn hx hτ he hb hnames hy
  refine ⟨b'.emit (.storeVar y t),
    (runs_varOf_of_find hy).bind (hrun.bind (runs_emit _)), (hcode.grown.emit _).toWritten, ?_⟩
  intro R W T fuel σ ρ hF hσ
  rw [Stmt.exec]
  have hF' := (Step.emit hcode.grown.ended _).back _ hF
  refine Target.Does.bind ((hcode.does T σ ρ hF' hσ.vars hσ.types).mono fun v hv hg => ?_)
  obtain ⟨σ₁, hreach, ht, hu⟩ := hg
  obtain ⟨σ₂, hexec, _, hvars⟩ := exec_storeVar (T := T) (y := y) ht
  refine ⟨hcode.grown.ended, σ₂, hreach.trans (Target.reaches_emit hexec), ?_, ?_⟩
  · refine Frames.Rel.assign_of_nodup (hσ.undisturbed hb.wf hu).vars hy hb.wf.nodup ?_ ?_
    · rw [Holds, hvars, if_pos rfl]
      rfl
    · intro z hz w hw
      rw [Holds, hvars, if_neg hz]
      exact hw
  · refine Frames.Rel.assign hσ.types hx ?_
    rintro _ ⟨⟩
    exact he.assigned hτ hx hσ.types hv

/-! ## Declarations -/

/-- The builder with a variable of the source declared. -/
def Builder.declareVar (b : Builder) (x : String) (ty : Ty) : Builder :=
  ((b.useName (freeName b.used x)).emit (.varDecl (freeName b.used x) ty)).withScopes
    (Frames.declare x (freeName b.used x) b.scopes)

theorem runs_declareVar (x : String) (ty : Ty) :
    Runs c (declareVar x ty) b (freeName b.used x) (b.declareVar x ty) :=
  (runs_declare x ty).bind ((runs_bindName _ _).bind (runs_pure _))

theorem Step.declareVar (h : b.ended = none) (x : String) (ty : Ty) : Step b (b.declareVar x ty) :=
  ((Step.useName b _).trans (Step.emit (b := b.useName _) h _)).trans (Step.withScopes _ _)

theorem Builder.WF.declareVar (h : b.WF) (x : String) (ty : Ty) : (b.declareVar x ty).WF :=
  (h.declare (freeName_not_mem _ _)).emit _

theorem Named.declare {scopes : Frames String} (h : Named Γ scopes) (x y : String) (ty : Ty) :
    Named (Frames.declare x ty Γ) (Frames.declare x y scopes) :=
  Frames.Rel.declare h x trivial

/-- A new variable of the source is a new variable of the function. -/
theorem Tracks.declare {R W : Type} {σ σ' : State R (Frame R W)} {ρ : Env} {x y : String} {τ : Ty}
    {w : Option Constant} (h : Tracks Γ b.scopes σ ρ) (hb : b.WF) (hy : y ∉ b.used)
    (htemps : σ'.temps = σ.temps)
    (hvars : ∀ z, σ'.rest.vars z = if z = y then w.map .scalar else σ.rest.vars z)
    (hw : ∀ v, w = some v → v.ty = τ) :
    Tracks (Frames.declare x τ Γ) (Frames.declare x y b.scopes) σ' (Frames.declare x w ρ) where
  vars := by
    have hkept := h.undisturbed hb (Undisturbed.of_vars hy htemps hvars)
    refine Frames.Rel.declare hkept.vars x ?_
    rw [Holds, hvars, if_pos rfl]
  types := Frames.Rel.declare h.types x hw

theorem tail_declare {α : Type} (x : String) (a : α) (fs : Frames α) :
    (Frames.declare x a fs).tail = fs.tail := by
  cases fs with
  | nil => rfl
  | cons s outer => rfl

/-- The code of the declaration of a variable without a value. -/
theorem lowers_varDecl {span : Span} {x : String} {ty : Ty} {flag : Bool} (hb : b.Ready)
    (hnames : Named Γ b.scopes) :
    Lowers Γ (Frames.declare x ty Γ) b (b.declareVar x ty)
      fun fuel ρ => (Stmt.varDecl span x ty flag none).exec true fuel ρ where
  step := Step.declareVar hb.ended x ty
  wf := hb.wf.declareVar x ty
  tail := tail_declare _ _ _
  jumps := rfl
  named _ := hnames.declare _ _ _
  does T fuel σ ρ hF hσ := by
    rw [Stmt.exec]
    obtain ⟨σ', hexec, htemps, hvars⟩ := exec_varDecl (T := T) (σ := σ) (freeName b.used x) ty
    refine ⟨hb.ended, σ', Target.reaches_emit (b := b.useName _) hexec, ?_⟩
    exact hσ.declare hb.wf (freeName_not_mem _ _) htemps hvars (by simp)

/-- The code of the declaration of a variable with a value. -/
theorem lowers_varDecl_some {span : Span} {x : String} {ty : Ty} {flag : Bool} {e : Expr} {t : Temp}
    (hb : b.Ready) (hnames : Named Γ b.scopes) (he : e.HasTy Γ ty)
    (hcode : Computes Γ b b' t (e.eval true)) :
    Lowers Γ (Frames.declare x ty Γ) b
      ((b'.declareVar x ty).emit (.storeVar (freeName b'.used x) t))
      fun fuel ρ => (Stmt.varDecl span x ty flag (some e)).exec true fuel ρ := by
  have hopen : (b'.declareVar x ty).ended = none := hcode.grown.ended
  have hstep := (Step.declareVar hcode.grown.ended x ty).trans
    (Step.emit hopen (.storeVar (freeName b'.used x) t))
  refine ⟨hcode.grown.step.trans hstep, (hcode.grown.wf.declareVar x ty).emit _, ?_,
    hcode.grown.jumps, fun _ => ?_, ?_⟩
  · rw [← hcode.grown.scopes]
    exact tail_declare _ _ _
  · rw [← hcode.grown.scopes] at hnames
    exact hnames.declare _ _ _
  intro R W T fuel σ ρ hF hσ
  rw [Stmt.exec]
  refine Target.Does.bind ((hcode.does T σ ρ (hstep.back _ hF) hσ.vars hσ.types).mono
    fun v hv hg => ?_)
  obtain ⟨σ₁, hreach, ht, hu⟩ := hg
  obtain ⟨σ₂, hdeclared, htemps₂, hvars₂⟩ :=
    exec_varDecl (T := T) (σ := σ₁) (freeName b'.used x) ty
  obtain ⟨σ₃, hstored, htemps₃, hvars₃⟩ :=
    exec_storeVar (T := T) (y := freeName b'.used x) (htemps₂ ▸ ht)
  have hσ₁ : Tracks Γ b'.scopes σ₁ ρ := by
    rw [hcode.grown.scopes]
    exact hσ.undisturbed hb.wf hu
  refine ⟨hopen, σ₃, hreach.trans ?_, ?_⟩
  · exact (Target.reaches_emit (b := b'.useName _) hdeclared).trans
      (Target.reaches_emit (b := b'.declareVar x ty) hstored)
  · refine hσ₁.declare hcode.grown.wf (freeName_not_mem b'.used x) (htemps₃.trans htemps₂) ?_ ?_
    · intro z
      rw [hvars₃, hvars₂]
      split <;> rfl
    · rintro _ ⟨⟩
      exact he.eval hσ.types hv

/-! ## Jumps -/

theorem body_break {span : Span} {label : String} (hb : b.Ready)
    (hlabel : breakTarget? b.jumps = some label) :
    Body Γ b (b.finish (.jump label)) fun fuel ρ => (Stmt.break span).exec true fuel ρ where
  step := Step.finish hb.ended _
  wf := hb.wf.finish _
  scopes := rfl
  jumps := rfl
  does T fuel σ ρ hF hσ := by
    rw [Stmt.exec]
    exact ⟨label, σ, hlabel, Target.reachesLabel_jump hF, hσ⟩

theorem body_continue {span : Span} {label : String} (hb : b.Ready)
    (hlabel : continueTarget? b.jumps = some label) :
    Body Γ b (b.finish (.jump label)) fun fuel ρ => (Stmt.continue span).exec true fuel ρ where
  step := Step.finish hb.ended _
  wf := hb.wf.finish _
  scopes := rfl
  jumps := rfl
  does T fuel σ ρ hF hσ := by
    rw [Stmt.exec]
    exact ⟨label, σ, hlabel, Target.reachesLabel_jump hF, hσ⟩

theorem runs_lowerBreak {label : String} (hb : b.Ready)
    (hlabel : breakTarget? b.jumps = some label) :
    Runs c lowerBreak b () (b.finish (.jump label)) := by
  obtain ⟨target, htarget, rfl⟩ := Option.map_eq_some_iff.1 hlabel
  obtain ⟨rest, hjumps⟩ : ∃ rest, b.jumps = target :: rest := by
    cases hj : b.jumps with
    | nil =>
        rw [hj] at htarget
        cases htarget
    | cons t rest =>
        rw [hj] at htarget
        cases htarget
        exact ⟨rest, rfl⟩
  unfold lowerBreak
  refine runs_get.bind ?_
  rw [hjumps]
  exact (runs_unwindTo hb.wf.noTry _).bind (runs_endWith hb.ended _)

theorem exists_depth_of_continueTarget? {jumps : List JumpTargets} {label : String}
    (h : continueTarget? jumps = some label) :
    ∃ depth, (jumps.findSome? fun t => t.continueLabel.map fun label => (label, t.tryDepth)) =
      some (label, depth) := by
  unfold continueTarget? at h
  induction jumps with
  | nil => cases h
  | cons t rest ih =>
      rw [List.findSome?_cons] at h ⊢
      cases ht : t.continueLabel with
      | none =>
          rw [ht] at h
          exact ih h
      | some l =>
          rw [ht] at h
          cases h
          exact ⟨t.tryDepth, rfl⟩

theorem runs_lowerContinue {label : String} (hb : b.Ready)
    (hlabel : continueTarget? b.jumps = some label) :
    Runs c lowerContinue b () (b.finish (.jump label)) := by
  obtain ⟨depth, hfind⟩ := exists_depth_of_continueTarget? hlabel
  unfold lowerContinue
  refine runs_get.bind ?_
  rw [hfind]
  exact (runs_unwindTo hb.wf.noTry _).bind (runs_endWith hb.ended _)

/-- The code of a return. -/
theorem body_ret {span : Span} (hb : b.Ready) :
    Body Γ b (b.finish .retVoid) fun fuel ρ => (Stmt.ret span none).exec true fuel ρ where
  step := Step.finish hb.ended _
  wf := hb.wf.finish _
  scopes := rfl
  jumps := rfl
  does T fuel σ ρ hF hσ := by
    rw [Stmt.exec]
    exact Target.ends_retVoid hF

theorem body_ret_some {span : Span} {e : Expr} {t : Temp} (hcode : Computes Γ b b' t (e.eval true)) :
    Body Γ b (b'.finish (.ret t)) fun fuel ρ => (Stmt.ret span (some e)).exec true fuel ρ where
  step := hcode.grown.finish _
  wf := hcode.grown.wf.finish _
  scopes := hcode.grown.scopes
  jumps := hcode.grown.jumps
  does T fuel σ ρ hF hσ := by
    rw [Stmt.exec]
    have hF' := (Step.finish hcode.grown.ended _).back _ hF
    refine Target.Does.bind ((hcode.does T σ ρ hF' hσ.vars hσ.types).mono fun v _ hg => ?_)
    obtain ⟨σ', hreach, ht, _⟩ := hg
    exact hreach _ (Target.ends_ret hF ht)

/-! ## Conditionals -/

/-! Three labels that are given out one after the other. -/

section

variable {stem stem' : String}

theorem pending_first (hb : b.Ready) (hstem : isStem stem) :
    Pending b b.takeLabel.takeLabel.takeLabel (b.newLabel stem) :=
  ((Pending.of_takeLabel (Grown.refl hb) hstem).step (Step.takeLabel _)).step (Step.takeLabel _)

theorem pending_second (hb : b.Ready) (hstem : isStem stem) :
    Pending b b.takeLabel.takeLabel.takeLabel (b.takeLabel.newLabel stem) :=
  (Pending.of_takeLabel (Grown.refl hb).takeLabel hstem).step (Step.takeLabel _)

theorem pending_third (hb : b.Ready) (hstem : isStem stem) :
    Pending b b.takeLabel.takeLabel.takeLabel (b.takeLabel.takeLabel.newLabel stem) :=
  Pending.of_takeLabel (Grown.refl hb).takeLabel.takeLabel hstem

theorem second_ne_first (b : Builder) (h : isStem stem) (h' : isStem stem') :
    b.takeLabel.newLabel stem ≠ b.newLabel stem' :=
  label_ne h h' (Nat.succ_ne_self _)

theorem third_ne_first (b : Builder) (h : isStem stem) (h' : isStem stem') :
    b.takeLabel.takeLabel.newLabel stem ≠ b.newLabel stem' :=
  label_ne h h' (by simp only [Builder.takeLabel]; omega)

theorem third_ne_second (b : Builder) (h : isStem stem) (h' : isStem stem') :
    b.takeLabel.takeLabel.newLabel stem ≠ b.takeLabel.newLabel stem' :=
  label_ne h h' (Nat.succ_ne_self _)

end

/-- From the builder, statements are lowered to a body in a scope of its own. -/
def BodyFrom (c : Context) (newInstance : String → Lower Temp) (Γ : TyEnv) (stmts : List Stmt)
    (b : Builder) : Prop :=
  ∃ b', Runs c (inScope (lowerStmts newInstance stmts)) b () b' ∧
    Body Γ b b' fun fuel ρ => withScope (execStmts true fuel stmts) ρ

section

variable (span : Span) {e : Expr} {body other : List Stmt}

theorem lowerStmt_ifThen (hb : b.Ready) (hnames : Named Γ b.scopes) (he : e.HasTy Γ .bool)
    (hpart : ∀ {b'}, Grown b b' → BodyFrom c newInstance Γ body b') :
    ∃ b', Runs c (lowerStmt newInstance (.ifThen span e body)) b () b' ∧
      Body Γ b b' fun fuel ρ => (Stmt.ifThen span e body).exec true fuel ρ := by
  obtain ⟨t, b₁, hrun, hcode⟩ := lowerExpr?_computes he c newInstance hb hnames
  have hready := Grown.refl hcode.grown.ready
  have hgrown : Grown b₁ b₁.takeLabel.takeLabel := hready.takeLabel.takeLabel
  generalize hthen : b₁.newLabel "if_then" = thenLabel
  generalize hdone : b₁.takeLabel.newLabel "if_end" = done
  have hpendThen : Pending b₁ b₁.takeLabel.takeLabel thenLabel :=
    hthen ▸ (Pending.of_takeLabel hready rfl).step (Step.takeLabel _)
  have hpendDone : Pending b₁ b₁.takeLabel.takeLabel done :=
    hdone ▸ Pending.of_takeLabel hready.takeLabel rfl
  have hne : done ≠ thenLabel := hthen ▸ hdone ▸ second_ne_first b₁ rfl rfl
  have hstart := hgrown.next (.branch t thenLabel done) hpendThen
  obtain ⟨b₂, hrun₂, hbody⟩ := hpart (hcode.grown.trans hstart)
  have hpend : Pending b₁ b₂ done :=
    ((hpendDone.step (Step.finish hgrown.ended _)).start hne).step hbody.step
  have hend := (hstart.toWritten.trans hbody.toWritten).next (.jump done) hpend
  refine ⟨(b₂.close (.jump done)).start done, ?_, hcode.grown.toWritten.trans hend.toWritten,
    fun T fuel σ ρ hF hσ => ?_⟩
  · rw [lowerStmt]
    refine (runs_lowerExpr hrun).bind ((runs_freshLabel _).bind ((runs_freshLabel _).bind ?_))
    rw [hthen, hdone]
    refine (runs_endWith hgrown.ended _).bind ((runs_startBlock _).bind (hrun₂.bind ?_))
    exact (runs_close _).bind (runs_startBlock _)
  have hclose := hF.of_start
  have hbranch := (hbody.step.back _ ((Step.close b₂ _).back _ hclose)).of_start
  have hleave := hpend.starts_close T (.jump done)
  rw [Stmt.exec]
  refine Target.Does.bind ((hcode.does_branch he hb.wf rfl hbranch hσ).mono fun v _ hv => ?_)
  obtain ⟨σ₁, hgoto, hσ₁⟩ := hv
  cases v with
  | false => exact ⟨rfl, σ₁, hleave hgoto, hσ₁⟩
  | true =>
      have henter := hpendThen.starts T (.branch t thenLabel done) hgoto
      have hdoes := hbody.does_close (hstart.scopes.trans hcode.grown.scopes)
        (hstart.jumps.trans hcode.grown.jumps) hclose fuel hσ₁
      exact henter.does (hdoes.mono fun r _ hr => (henter.goesTo hr).start hleave rfl)

theorem lowerStmt_ifElse (hb : b.Ready) (hnames : Named Γ b.scopes) (he : e.HasTy Γ .bool)
    (hpart : ∀ {b'}, Grown b b' → BodyFrom c newInstance Γ body b')
    (hpart' : ∀ {b'}, Grown b b' → BodyFrom c newInstance Γ other b') :
    ∃ b', Runs c (lowerStmt newInstance (.ifElse span e body other)) b () b' ∧
      Body Γ b b' fun fuel ρ => (Stmt.ifElse span e body other).exec true fuel ρ := by
  obtain ⟨t, b₁, hrun, hcode⟩ := lowerExpr?_computes he c newInstance hb hnames
  have hready := hcode.grown.ready
  have hgrown : Grown b₁ b₁.takeLabel.takeLabel.takeLabel :=
    (Grown.refl hready).takeLabel.takeLabel.takeLabel
  generalize hthen : b₁.newLabel "if_then" = thenLabel
  generalize hdone : b₁.takeLabel.newLabel "if_end" = done
  generalize helse : b₁.takeLabel.takeLabel.newLabel "if_else" = elseLabel
  have hpendThen : Pending b₁ _ thenLabel := hthen ▸ pending_first hready rfl
  have hpendDone : Pending b₁ _ done := hdone ▸ pending_second hready rfl
  have hpendElse : Pending b₁ _ elseLabel := helse ▸ pending_third hready rfl
  have hneDone : done ≠ thenLabel := hdone ▸ hthen ▸ second_ne_first b₁ rfl rfl
  have hneElse : elseLabel ≠ thenLabel := helse ▸ hthen ▸ third_ne_first b₁ rfl rfl
  have hne : done ≠ elseLabel := hdone ▸ helse ▸ (third_ne_second b₁ rfl rfl).symm
  -- The two alternatives, one behind the other.
  have hbranch := Step.finish hgrown.ended (.branch t thenLabel elseLabel)
  have hstart := hgrown.next (.branch t thenLabel elseLabel) hpendThen
  obtain ⟨b₂, hrun₂, hbody⟩ := hpart (hcode.grown.trans hstart)
  have hpendElse' : Pending b₁ b₂ elseLabel :=
    ((hpendElse.step hbranch).start hneElse).step hbody.step
  have hpendDone' : Pending b₁ b₂ done := ((hpendDone.step hbranch).start hneDone).step hbody.step
  have hstart' := (hstart.toWritten.trans hbody.toWritten).next (.jump done) hpendElse'
  obtain ⟨b₃, hrun₃, hbody'⟩ := hpart' (hcode.grown.trans hstart')
  have hpend : Pending b₁ b₃ done :=
    ((hpendDone'.step (Step.close b₂ _)).start hne).step hbody'.step
  have hend := (hstart'.toWritten.trans hbody'.toWritten).next (.jump done) hpend
  refine ⟨(b₃.close (.jump done)).start done, ?_, hcode.grown.toWritten.trans hend.toWritten,
    fun T fuel σ ρ hF hσ => ?_⟩
  · rw [lowerStmt]
    refine (runs_lowerExpr hrun).bind ((runs_freshLabel _).bind ((runs_freshLabel _).bind ?_))
    refine (runs_freshLabel _).bind ?_
    rw [hthen, hdone, helse]
    refine (runs_endWith hgrown.ended _).bind ((runs_startBlock _).bind (hrun₂.bind ?_))
    refine (runs_close _).bind ((runs_startBlock _).bind (hrun₃.bind ?_))
    exact (runs_close _).bind (runs_startBlock _)
  have hclose' := hF.of_start
  have hclose := (hbody'.step.back _ ((Step.close b₃ _).back _ hclose')).of_start
  have hFbranch := (hbody.step.back _ ((Step.close b₂ _).back _ hclose)).of_start
  have hleave := hpend.starts_close T (.jump done)
  rw [Stmt.exec]
  refine Target.Does.bind ((hcode.does_branch he hb.wf rfl hFbranch hσ).mono fun v _ hv => ?_)
  obtain ⟨σ₁, hgoto, hσ₁⟩ := hv
  cases v with
  | true =>
      have henter := hpendThen.starts T (.branch t thenLabel elseLabel) hgoto
      have hdoes := hbody.does_close (hstart.scopes.trans hcode.grown.scopes)
        (hstart.jumps.trans hcode.grown.jumps) hclose fuel hσ₁
      exact henter.does (hdoes.mono fun r _ hr => (henter.goesTo hr).start hleave rfl)
  | false =>
      have henter := hpendElse'.starts_close T (.jump done) hgoto
      have hdoes := hbody'.does_close (hstart'.scopes.trans hcode.grown.scopes)
        (hstart'.jumps.trans hcode.grown.jumps) hclose' fuel hσ₁
      exact henter.does (hdoes.mono fun r _ hr => (henter.goesTo hr).start hleave rfl)

end

/-! ## Loops -/

section

variable (span : Span) {e : Expr} {body : List Stmt}

/-- The body of a loop is written with its own targets of jumps. -/
theorem Body.loop {target : JumpTargets} {run : Nat → Env → Run}
    (h : Body Γ (b.jumpingTo (target :: b.jumps)) b' run) :
    Written b (b'.jumpingTo b'.jumps.tail) where
  step := ((Step.jumpingTo b _).trans h.step).trans (Step.jumpingTo b' _)
  wf := h.wf.jumpingTo _
  scopes := h.scopes
  jumps := by
    have htail := congrArg List.tail h.jumps
    exact htail

theorem lowerStmt_while (hb : b.Ready) (hnames : Named Γ b.scopes) (he : e.HasTy Γ .bool)
    (hpart : ∀ {b'} label again depth, Grown b b' →
      BodyFrom c newInstance Γ body (b'.jumpingTo (⟨label, some again, depth⟩ :: b'.jumps))) :
    ∃ b', Runs c (lowerStmt newInstance (.while span e body)) b () b' ∧
      Body Γ b b' fun fuel ρ => (Stmt.while span e body).exec true fuel ρ := by
  have hgrown : Grown b b.takeLabel.takeLabel.takeLabel :=
    (Grown.refl hb).takeLabel.takeLabel.takeLabel
  generalize hcond : b.newLabel "while_cond" = condLabel
  generalize hbodyLabel : b.takeLabel.newLabel "while_body" = bodyLabel
  generalize hdone : b.takeLabel.takeLabel.newLabel "while_done" = done
  have hpendCond : Pending b _ condLabel := hcond ▸ pending_first hb rfl
  have hpendBody : Pending b _ bodyLabel := hbodyLabel ▸ pending_second hb rfl
  have hpendDone : Pending b _ done := hdone ▸ pending_third hb rfl
  have hneBody : bodyLabel ≠ condLabel := hbodyLabel ▸ hcond ▸ second_ne_first b rfl rfl
  have hneDone : done ≠ condLabel := hdone ▸ hcond ▸ third_ne_first b rfl rfl
  have hne : done ≠ bodyLabel := hdone ▸ hbodyLabel ▸ third_ne_second b rfl rfl
  -- The blocks of the condition and of the body, one behind the other.
  have hjump := Step.finish hgrown.ended (.jump condLabel)
  have htest := hgrown.next (.jump condLabel) hpendCond
  obtain ⟨t, b₁, hrun, hcode⟩ := lowerExpr?_computes he c newInstance htest.ready
    (by rw [htest.scopes]; exact hnames)
  have htested := htest.trans hcode.grown
  have hpendBody' : Pending b b₁ bodyLabel :=
    ((hpendBody.step hjump).start hneBody).step hcode.grown.step
  have hpendDone' : Pending b b₁ done := ((hpendDone.step hjump).start hneDone).step hcode.grown.step
  have hround := htested.next (.branch t bodyLabel done) hpendBody'
  obtain ⟨b₂, hrun₂, hbody⟩ := hpart done condLabel b₁.tryDepth hround
  have hwritten := hbody.loop
  have hpend : Pending b (b₂.jumpingTo b₂.jumps.tail) done :=
    ((hpendDone'.step (Step.finish htested.ended _)).start hne).step hwritten.step
  have hend := (hround.toWritten.trans hwritten).next (.jump condLabel) hpend
  refine ⟨_, ?_, hend.toWritten, fun T fuel σ ρ hF hσ => ?_⟩
  · rw [lowerStmt]
    refine (runs_freshLabel _).bind ((runs_freshLabel _).bind ((runs_freshLabel _).bind ?_))
    rw [hcond, hbodyLabel, hdone]
    refine (runs_endWith hgrown.ended _).bind ((runs_startBlock _).bind ?_)
    refine (runs_lowerExpr hrun).bind ((runs_endWith htested.ended _).bind ?_)
    refine (runs_startBlock _).bind ((runs_withJumps hrun₂).bind ?_)
    exact (runs_close _).bind (runs_startBlock _)
  have hclose := hF.of_start
  have hFbranch := (hwritten.step.back _ ((Step.close _ _).back _ hclose)).of_start
  have hFjump := (hcode.grown.step.back _ ((Step.finish htested.ended _).back _ hFbranch)).of_start
  have hstart := hpendCond.starts T (.jump condLabel)
  have hleave := hpend.starts_close T (.jump condLabel)
  have hfirst := hstart (Target.reachesLabel_jump (b := b) (σ := σ) hFjump)
  have hdoes := does_whileLoop hstart (hpendBody'.starts T (.branch t bodyLabel done))
    (hcode.does_branch he htest.wf htest.scopes hFbranch)
    (hbody.does_close hround.scopes (congrArg (List.cons _) hround.jumps) hclose fuel) fuel hσ
  rw [Stmt.exec]
  exact hfirst.does (hdoes.mono fun r _ hr => (hfirst.goesTo hr).start hleave rfl)

theorem lowerStmt_doWhile (hb : b.Ready) (hnames : Named Γ b.scopes) (he : e.HasTy Γ .bool)
    (hpart : ∀ {b'} label again depth, Grown b b' →
      BodyFrom c newInstance Γ body (b'.jumpingTo (⟨label, some again, depth⟩ :: b'.jumps))) :
    ∃ b', Runs c (lowerStmt newInstance (.doWhile span body e)) b () b' ∧
      Body Γ b b' fun fuel ρ => (Stmt.doWhile span body e).exec true fuel ρ := by
  have hgrown : Grown b b.takeLabel.takeLabel.takeLabel :=
    (Grown.refl hb).takeLabel.takeLabel.takeLabel
  generalize hbodyLabel : b.newLabel "do_body" = bodyLabel
  generalize hcond : b.takeLabel.newLabel "do_cond" = condLabel
  generalize hdone : b.takeLabel.takeLabel.newLabel "do_done" = done
  have hpendBody : Pending b _ bodyLabel := hbodyLabel ▸ pending_first hb rfl
  have hpendCond : Pending b _ condLabel := hcond ▸ pending_second hb rfl
  have hpendDone : Pending b _ done := hdone ▸ pending_third hb rfl
  have hneCond : condLabel ≠ bodyLabel := hbodyLabel ▸ hcond ▸ second_ne_first b rfl rfl
  have hneDone : done ≠ bodyLabel := hdone ▸ hbodyLabel ▸ third_ne_first b rfl rfl
  have hne : done ≠ condLabel := hdone ▸ hcond ▸ third_ne_second b rfl rfl
  -- The blocks of the body and of the condition, one behind the other.
  have hjump := Step.finish hgrown.ended (.jump bodyLabel)
  have hround := hgrown.next (.jump bodyLabel) hpendBody
  obtain ⟨b₁, hrun₁, hbody⟩ := hpart done condLabel b.tryDepth hround
  have hwritten := hbody.loop
  have hpendCond' : Pending b (b₁.jumpingTo b₁.jumps.tail) condLabel :=
    ((hpendCond.step hjump).start hneCond).step hwritten.step
  have hpendDone' : Pending b (b₁.jumpingTo b₁.jumps.tail) done :=
    ((hpendDone.step hjump).start hneDone).step hwritten.step
  have htest := (hround.toWritten.trans hwritten).next (.jump condLabel) hpendCond'
  obtain ⟨t, b₂, hrun, hcode⟩ := lowerExpr?_computes he c newInstance htest.ready
    (by rw [htest.scopes]; exact hnames)
  have hpend : Pending b b₂ done :=
    ((hpendDone'.step (Step.close _ _)).start hne).step hcode.grown.step
  have hend := (htest.trans hcode.grown).next (.branch t bodyLabel done) hpend
  refine ⟨_, ?_, hend.toWritten, fun T fuel σ ρ hF hσ => ?_⟩
  · rw [lowerStmt]
    refine (runs_freshLabel _).bind ((runs_freshLabel _).bind ((runs_freshLabel _).bind ?_))
    rw [hcond, hbodyLabel, hdone]
    refine (runs_endWith hgrown.ended _).bind ((runs_startBlock _).bind ?_)
    refine (runs_withJumps hrun₁).bind ((runs_close _).bind ((runs_startBlock _).bind ?_))
    exact (runs_lowerExpr hrun).bind ((runs_endWith hcode.grown.ended _).bind (runs_startBlock _))
  have hFbranch := hF.of_start
  have hclose := (hcode.grown.step.back _ ((Step.finish hcode.grown.ended _).back _ hFbranch)).of_start
  have hFjump := (hwritten.step.back _ ((Step.close _ _).back _ hclose)).of_start
  have hstart := hpendBody.starts T (.jump bodyLabel)
  have hleave := hpend.starts T (.branch t bodyLabel done)
  have hfirst := hstart (Target.reachesLabel_jump (b := b) (σ := σ) hFjump)
  have hdoes := does_doLoop (hpendCond'.starts_close T (.jump condLabel)) hstart
    (hcode.does_branch he htest.wf htest.scopes hFbranch)
    (hbody.does_close hround.scopes (congrArg (List.cons _) hround.jumps) hclose fuel) fuel hσ
  rw [Stmt.exec]
  exact hfirst.does (hdoes.mono fun r _ hr => (hfirst.goesTo hr).start hleave rfl)

end

end ProtoScript.Lowering
