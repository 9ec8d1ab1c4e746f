import ProtoScript.Proofs.Lowering.Expr

set_option autoImplicit false

/-!
# Where control goes

A statement ends in one of four ways, and each goes to a place of its own: the point behind the
statement, the labels of the jump targets around it, or the end of the run (`Target.Goes`). A body
leaves the variables around it in step with the source in each of these ways (`Body`).
-/

namespace ProtoScript

theorem TyEnv.tail_afterAll (Γ : TyEnv) (stmts : List Stmt) :
    (Γ.afterAll stmts).tail = Γ.tail := by
  induction stmts generalizing Γ with
  | nil => rfl
  | cons s rest ih =>
      rw [← TyEnv.tail_after Γ s]
      exact ih (Γ.after s)

namespace Lowering

open Ir

/-- The variables of the function are in step with those of the source, which have the given types. -/
structure Tracks {R W : Type} (Γ : TyEnv) (scopes : Frames String) (σ : State R (Frame R W))
    (ρ : Env) : Prop where
  vars : Matches scopes σ ρ
  types : Env.HasTypes Γ ρ

section

variable {R W : Type} {Γ : TyEnv} {scopes : Frames String} {σ σ' : State R (Frame R W)} {ρ : Env}

theorem Tracks.tail (h : Tracks Γ scopes σ ρ) : Tracks Γ.tail scopes.tail σ ρ.tail :=
  ⟨Frames.Rel.tail h.vars, Frames.Rel.tail h.types⟩

theorem Tracks.push (h : Tracks Γ scopes σ ρ) : Tracks ([] :: Γ) ([] :: scopes) σ ([] :: ρ) :=
  ⟨Frames.Rel.push h.vars, Frames.Rel.push h.types⟩

theorem Tracks.undisturbed {b : Builder} (h : Tracks Γ b.scopes σ ρ) (hb : b.WF)
    (hu : Undisturbed b σ σ') : Tracks Γ b.scopes σ' ρ :=
  ⟨h.vars.undisturbed hb.used hu, h.types⟩

end

/-! ## Targets of jumps -/

/-- Where `break` goes. -/
def breakTarget? (jumps : List JumpTargets) : Option String := jumps.head?.map JumpTargets.breakLabel

/-- Where `continue` goes. -/
def continueTarget? (jumps : List JumpTargets) : Option String :=
  jumps.findSome? JumpTargets.continueLabel

namespace Target

variable {R W : Type} {T : Target R W} {b b' : Builder} {σ σ' : State R (Frame R W)}

/-- Where control goes behind a statement, which is left in a state of the kind `out` unless it comes
to its end. -/
def Goes (T : Target R W) (b : Builder) (σ : State R (Frame R W)) (jumps : List JumpTargets)
    (next : Env → Prop) (out : State R (Frame R W) → Env → Prop) : Flow × Env → Prop
  | (.next, ρ) => next ρ
  | (.broke, ρ) =>
    ∃ label σ', breakTarget? jumps = some label ∧ T.ReachesLabel b σ label σ' ∧ out σ' ρ
  | (.continued, ρ) =>
    ∃ label σ', continueTarget? jumps = some label ∧ T.ReachesLabel b σ label σ' ∧ out σ' ρ
  | (.returned v, _) => T.Ends b σ (.returned (v.map .scalar))

theorem Goes.mono {jumps : List JumpTargets} {next next' : Env → Prop}
    {out out' : State R (Frame R W) → Env → Prop} {r : Flow × Env}
    (h : T.Goes b σ jumps next out r) (hnext : ∀ ρ, next ρ → next' ρ)
    (hout : ∀ σ' ρ, out σ' ρ → out' σ' ρ) : T.Goes b σ jumps next' out' r := by
  obtain ⟨flow, ρ⟩ := r
  cases flow with
  | next => exact hnext ρ h
  | broke =>
      obtain ⟨label, σ', hlabel, hreach, ho⟩ := h
      exact ⟨label, σ', hlabel, hreach, hout σ' ρ ho⟩
  | continued =>
      obtain ⟨label, σ', hlabel, hreach, ho⟩ := h
      exact ⟨label, σ', hlabel, hreach, hout σ' ρ ho⟩
  | returned v => exact h

/-- What follows from a point follows from every point that comes to it. -/
theorem Reaches.goes (h : T.Reaches b σ b' σ') {jumps : List JumpTargets} {next : Env → Prop}
    {out : State R (Frame R W) → Env → Prop} {r : Flow × Env}
    (hr : T.Goes b' σ' jumps next out r) : T.Goes b σ jumps next out r := by
  obtain ⟨flow, ρ⟩ := r
  cases flow with
  | next => exact hr
  | broke =>
      obtain ⟨label, τ, hlabel, hreach, ho⟩ := hr
      exact ⟨label, τ, hlabel, h.label hreach, ho⟩
  | continued =>
      obtain ⟨label, τ, hlabel, hreach, ho⟩ := hr
      exact ⟨label, τ, hlabel, h.label hreach, ho⟩
  | returned v => exact h _ hr

/-- Control that comes to the label comes to the point. -/
def Starts (T : Target R W) (label : String) (b' : Builder) : Prop :=
  ∀ ⦃b : Builder⦄ ⦃σ σ' : State R (Frame R W)⦄, T.ReachesLabel b σ label σ' → T.Reaches b σ b' σ'

theorem starts {label : String} (h : label ∉ b.labels) : T.Starts label (b.start label) :=
  fun _ _ _ hreach => hreach.start h

/-- Where control goes behind a statement that is followed by a jump to a label. -/
def GoesTo (T : Target R W) (b : Builder) (σ : State R (Frame R W)) (jumps : List JumpTargets)
    (label : String) (out : State R (Frame R W) → Env → Prop) : Flow × Env → Prop :=
  T.Goes b σ jumps (fun ρ => ∃ σ', T.ReachesLabel b σ label σ' ∧ out σ' ρ) out

theorem Reaches.goesTo (h : T.Reaches b σ b' σ') {jumps : List JumpTargets} {label : String}
    {out : State R (Frame R W) → Env → Prop} {r : Flow × Env}
    (hr : T.GoesTo b' σ' jumps label out r) : T.GoesTo b σ jumps label out r := by
  refine (h.goes hr).mono ?_ fun _ _ ho => ho
  rintro ρ ⟨τ, hreach, ho⟩
  exact ⟨τ, h.label hreach, ho⟩

/-- The block of the label is the next one. -/
theorem GoesTo.start {jumps : List JumpTargets} {label : String}
    {out : State R (Frame R W) → Env → Prop} {r : Flow × Env}
    (h : T.GoesTo b σ jumps label out r) (hstart : T.Starts label b') (hopen : b'.ended = none) :
    T.Goes b σ jumps (fun ρ => b'.ended = none ∧ ∃ σ', T.Reaches b σ b' σ' ∧ out σ' ρ) out r := by
  refine h.mono ?_ fun _ _ ho => ho
  rintro ρ ⟨τ, hreach, ho⟩
  exact ⟨hopen, τ, hstart hreach, ho⟩

end Target

theorem Pending.starts {b₀ b : Builder} {label : String} (h : Pending b₀ b label) {R W : Type}
    (T : Target R W) (t : Terminator) : T.Starts label ((b.finish t).start label) :=
  Target.starts (b := b.finish t) h.fresh

theorem Pending.starts_close {b₀ b : Builder} {label : String} (h : Pending b₀ b label) {R W : Type}
    (T : Target R W) (t : Terminator) : T.Starts label ((b.close t).start label) :=
  Target.starts (b := b.close t) h.fresh

/-! ## Statements and bodies -/

/-- The code between two points does what a statement does. It may leave variables of its own in the
innermost scope. -/
structure Lowers (Γ Γ' : TyEnv) (b b' : Builder) (run : Nat → Env → Run) : Prop where
  step : Step b b'
  wf : b'.WF
  tail : b'.scopes.tail = b.scopes.tail
  jumps : b'.jumps = b.jumps
  named : b'.ended = none → Named Γ' b'.scopes
  does {R W : Type} (T : Target R W) (fuel : Nat) (σ : State R (Frame R W)) (ρ : Env) :
    Extends T.function b' → Tracks Γ b.scopes σ ρ →
      T.Does b σ (run fuel ρ) (T.Goes b σ b.jumps
        (fun ρ' => b'.ended = none ∧ ∃ σ', T.Reaches b σ b' σ' ∧ Tracks Γ' b'.scopes σ' ρ')
        fun σ' ρ' => Tracks Γ.tail b.scopes.tail σ' ρ'.tail)

/-- The code between two points does what a statement without variables of its own does. -/
structure Body (Γ : TyEnv) (b b' : Builder) (run : Nat → Env → Run) : Prop
    extends Written b b' where
  does {R W : Type} (T : Target R W) (fuel : Nat) (σ : State R (Frame R W)) (ρ : Env) :
    Extends T.function b' → Tracks Γ b.scopes σ ρ →
      T.Does b σ (run fuel ρ) (T.Goes b σ b.jumps
        (fun ρ' => b'.ended = none ∧ ∃ σ', T.Reaches b σ b' σ' ∧ Tracks Γ b.scopes σ' ρ')
        (Tracks Γ b.scopes))

variable {Γ Γ' : TyEnv} {b b' : Builder} {run : Nat → Env → Run}

theorem Body.lowers (h : Body Γ b b' run) (hnames : Named Γ b.scopes) : Lowers Γ Γ b b' run where
  step := h.step
  wf := h.wf
  tail := by rw [h.scopes]
  jumps := h.jumps
  named _ := by
    rw [h.scopes]
    exact hnames
  does T fuel σ ρ hF hσ := by
    refine (h.does T fuel σ ρ hF hσ).mono fun r _ hr => hr.mono (fun ρ' hnext => ?_) fun _ _ ho => ho.tail
    rw [h.scopes]
    exact hnext

/-- The statements of a block, in a scope of their own. -/
theorem Lowers.inScope (h : Lowers ([] :: Γ) Γ' (b.withScopes ([] :: b.scopes)) b' run)
    (hb : b.WF) (hΓ : Γ'.tail = Γ) :
    Body Γ b (b'.withScopes b'.scopes.tail) fun fuel ρ => withScope (run fuel) ρ where
  step := ((Step.withScopes b _).trans h.step).trans (Step.withScopes b' _)
  wf := by
    refine h.wf.withScopes ?_ ?_
    · rw [h.tail]
      exact fun y hy => h.step.used y (hb.used y hy)
    · rw [h.tail]
      exact hb.nodup
  scopes := h.tail
  jumps := h.jumps
  does T fuel σ ρ hF hσ := by
    have hdoes := h.does T fuel σ ([] :: ρ) hF hσ.push
    refine Target.Does.bind (hdoes.mono fun r _ hr => ?_)
    obtain ⟨flow, ρ'⟩ := r
    cases flow with
    | next =>
        obtain ⟨hopen, σ', hreach, hσ'⟩ := hr
        have hpop := hσ'.tail
        rw [hΓ, h.tail] at hpop
        exact ⟨hopen, σ', hreach, hpop⟩
    | broke => exact hr
    | continued => exact hr
    | returned v => exact hr

section

variable {R W : Type} {T : Target R W} {scopes : Frames String} {σ : State R (Frame R W)} {ρ : Env}

/-- A body that is followed by a jump. -/
theorem Body.does_close (h : Body Γ b b' run) (hscopes : b.scopes = scopes)
    {jumps : List JumpTargets} (hjumps : b.jumps = jumps) {label : String}
    (hF : Extends T.function (b'.close (.jump label))) (fuel : Nat) (hσ : Tracks Γ scopes σ ρ) :
    T.Does b σ (run fuel ρ) (T.GoesTo b σ jumps label (Tracks Γ scopes)) := by
  subst hscopes hjumps
  refine (h.does T fuel σ ρ ((Step.close b' _).back _ hF) hσ).mono fun r _ hr =>
    hr.mono (fun ρ' hnext => ?_) fun _ _ ho => ho
  obtain ⟨hopen, σ', hreach, hσ'⟩ := hnext
  rw [Builder.close_of_open hopen] at hF
  exact ⟨σ', hreach.label (Target.reachesLabel_jump hF), hσ'⟩

/-- A condition that is followed by a branch. -/
theorem Computes.does_branch {t : Temp} {e : Expr} (h : Computes Γ b b' t (e.eval true))
    (he : e.HasTy Γ .bool) (hb : b.WF) (hscopes : b.scopes = scopes) {thenLabel elseLabel : String}
    (hF : Extends T.function (b'.finish (.branch t thenLabel elseLabel)))
    (hσ : Tracks Γ scopes σ ρ) :
    T.Does b σ (e.test true ρ) fun v =>
      ∃ σ', T.ReachesLabel b σ (if v then thenLabel else elseLabel) σ' ∧ Tracks Γ scopes σ' ρ := by
  subst hscopes
  have hF' := (Step.finish h.grown.ended _).back _ hF
  refine Target.Does.bind ((h.does T σ ρ hF' hσ.vars hσ.types).mono fun v hv hg => ?_)
  obtain ⟨σ', hreach, ht, hu⟩ := hg
  obtain ⟨v, rfl⟩ := Constant.eq_bool_of_ty (he.eval hσ.types hv)
  exact ⟨σ', hreach.label (Target.reachesLabel_branch hF ht), hσ.undisturbed hb hu⟩

end

/-! ## Loops -/

section

variable {R W : Type} {T : Target R W} {scopes : Frames String} {jumps : List JumpTargets}
  {condLabel bodyLabel done : String} {depth : Nat} {cond : Env → Except Failure Bool}
  {body : Env → Run} {start : Builder} {σ : State R (Frame R W)} {ρ : Env}

/-- A loop that tests before its body. The induction is on the number of rounds that are left. -/
theorem does_whileLoop (hcond : T.Starts condLabel start) (hbody : T.Starts bodyLabel b)
    (htest : ∀ {σ ρ}, Tracks Γ scopes σ ρ → T.Does start σ (cond ρ) fun v =>
      ∃ σ', T.ReachesLabel start σ (if v then bodyLabel else done) σ' ∧ Tracks Γ scopes σ' ρ)
    (hround : ∀ {σ ρ}, Tracks Γ scopes σ ρ → T.Does b σ (body ρ)
      (T.GoesTo b σ (⟨done, some condLabel, depth⟩ :: jumps) condLabel (Tracks Γ scopes)))
    (n : Nat) (hσ : Tracks Γ scopes σ ρ) :
    T.Does start σ (whileLoop cond body n ρ) (T.GoesTo start σ jumps done (Tracks Γ scopes)) := by
  induction n generalizing σ ρ with
  | zero => exact .inl rfl
  | succ n ih =>
      refine Target.Does.bind ((htest hσ).mono fun v _ hv => ?_)
      obtain ⟨σ₁, hbranch, hσ₁⟩ := hv
      cases v with
      | false => exact ⟨σ₁, hbranch, hσ₁⟩
      | true =>
          have henter := hbody hbranch
          refine henter.does (Target.Does.bind ((hround hσ₁).mono fun r _ hr => ?_))
          have hagain : ∀ {σ₂ ρ'}, T.ReachesLabel b σ₁ condLabel σ₂ → Tracks Γ scopes σ₂ ρ' →
              T.Does b σ₁ (whileLoop cond body n ρ') (T.GoesTo start σ jumps done (Tracks Γ scopes)) := by
            intro σ₂ ρ' hjump hσ₂
            have hback := hcond hjump
            exact hback.does ((ih hσ₂).mono fun _ _ h => (henter.trans hback).goesTo h)
          obtain ⟨flow, ρ'⟩ := r
          cases flow with
          | next =>
              obtain ⟨σ₂, hjump, hσ₂⟩ := hr
              exact hagain hjump hσ₂
          | continued =>
              obtain ⟨_, σ₂, ⟨⟩, hjump, hσ₂⟩ := hr
              exact hagain hjump hσ₂
          | broke =>
              obtain ⟨_, σ₂, ⟨⟩, hjump, hσ₂⟩ := hr
              exact ⟨σ₂, henter.label hjump, hσ₂⟩
          | returned v => exact henter _ hr

/-- A loop that tests behind its body. -/
theorem does_doLoop (hcond : T.Starts condLabel start) (hbody : T.Starts bodyLabel b)
    (htest : ∀ {σ ρ}, Tracks Γ scopes σ ρ → T.Does start σ (cond ρ) fun v =>
      ∃ σ', T.ReachesLabel start σ (if v then bodyLabel else done) σ' ∧ Tracks Γ scopes σ' ρ)
    (hround : ∀ {σ ρ}, Tracks Γ scopes σ ρ → T.Does b σ (body ρ)
      (T.GoesTo b σ (⟨done, some condLabel, depth⟩ :: jumps) condLabel (Tracks Γ scopes)))
    (n : Nat) (hσ : Tracks Γ scopes σ ρ) :
    T.Does b σ (doLoop cond body n ρ) (T.GoesTo b σ jumps done (Tracks Γ scopes)) := by
  induction n generalizing σ ρ with
  | zero => exact .inl rfl
  | succ n ih =>
      refine Target.Does.bind ((hround hσ).mono fun r _ hr => ?_)
      have hagain : ∀ {σ₁ ρ'}, T.ReachesLabel b σ condLabel σ₁ → Tracks Γ scopes σ₁ ρ' →
          T.Does b σ (cond ρ' >>= fun v => if v then doLoop cond body n ρ' else return (.next, ρ'))
            (T.GoesTo b σ jumps done (Tracks Γ scopes)) := by
        intro σ₁ ρ' hjump hσ₁
        have henter := hcond hjump
        refine henter.does (Target.Does.bind ((htest hσ₁).mono fun v _ hv => ?_))
        obtain ⟨σ₂, hbranch, hσ₂⟩ := hv
        cases v with
        | false => exact ⟨σ₂, henter.label hbranch, hσ₂⟩
        | true =>
            have hback := hbody hbranch
            exact hback.does ((ih hσ₂).mono fun _ _ h => (henter.trans hback).goesTo h)
      obtain ⟨flow, ρ'⟩ := r
      cases flow with
      | next =>
          obtain ⟨σ₁, hjump, hσ₁⟩ := hr
          exact hagain hjump hσ₁
      | continued =>
          obtain ⟨_, σ₁, ⟨⟩, hjump, hσ₁⟩ := hr
          exact hagain hjump hσ₁
      | broke =>
          obtain ⟨_, σ₁, ⟨⟩, hjump, hσ₁⟩ := hr
          exact ⟨σ₁, hjump, hσ₁⟩
      | returned v => exact hr

end

end Lowering

end ProtoScript
