import ProtoScript.Proofs.Analysis.Program
import ProtoScript.Proofs.Lowering.Switch
import ProtoScript.Proofs.Machine.Heap
import ProtoScript.Proofs.Source.Eager

set_option autoImplicit false

/-!
# Lowered statements, functions and programs keep their meaning

Statement by statement the code that is written does what its source does, and so does a function, where eager
reading does no harm.
-/

namespace ProtoScript.Lowering

/-!
## Lowered functions keep their meaning

The code of a statement does what the statement does (`lowerStmt_lowers`), by induction over
statements: the parts of a statement are written one behind the other, and the lemmas for each kind
of statement say how their runs fit together. A function starts with its parameters as variables,
and its lowered form gives what its eager run gives (`lowerFunction_runs`).
-/

open Ir

/-! ### Statements -/

/-- Jumps have targets where they are allowed. -/
structure Targeted (loop brk : Bool) (jumps : List JumpTargets) : Prop where
  breaks : brk → ∃ label, breakTarget? jumps = some label
  continues : loop → ∃ label, continueTarget? jumps = some label

section

variable {c : Context} {newInstance : String → Lower Temp} {Γ : TyEnv} {b : Builder}

theorem Builder.Ready.push (h : b.Ready) : (b.withScopes ([] :: b.scopes)).Ready :=
  ⟨h.wf.withScopes h.wf.used h.wf.nodup, h.ended⟩

theorem Named.push {scopes : Frames String} (h : Named Γ scopes) : Named ([] :: Γ) ([] :: scopes) :=
  Frames.Rel.push h

/-- The code of statements is that of a body, in a scope of its own. -/
theorem inScope_body {stmts : List Stmt} (hb : b.Ready)
    (h : ∃ b', Runs c (lowerStmts newInstance stmts) (b.withScopes ([] :: b.scopes)) () b' ∧
      Lowers ([] :: Γ) (TyEnv.afterAll ([] :: Γ) stmts) (b.withScopes ([] :: b.scopes)) b'
        fun fuel ρ => execStmts true fuel stmts ρ) : BodyFrom c newInstance Γ stmts b := by
  obtain ⟨b', hrun, hlowers⟩ := h
  exact ⟨_, runs_inScope hrun, hlowers.inScope hb.wf (TyEnv.tail_afterAll _ stmts)⟩

theorem lowers_nil (hb : b.Ready) (hnames : Named Γ b.scopes) :
    Lowers Γ Γ b b fun fuel ρ => execStmts true fuel [] ρ where
  step := Step.refl b
  wf := hb.wf
  tail := rfl
  jumps := rfl
  named _ := hnames
  does T fuel σ ρ _ hσ := by
    rw [execStmts]
    exact ⟨hb.ended, σ, Target.Reaches.refl b σ, hσ⟩

/-- A statement before others. -/
theorem Lowers.cons {s : Stmt} {rest : List Stmt} {Γ' Γ'' : TyEnv} {b' b'' : Builder}
    (h : Lowers Γ Γ' b b' fun fuel ρ => s.exec true fuel ρ) (hΓ : Γ'.tail = Γ.tail)
    (hrest : Lowers Γ' Γ'' b' b'' fun fuel ρ => execStmts true fuel rest ρ) :
    Lowers Γ Γ'' b b'' fun fuel ρ => execStmts true fuel (s :: rest) ρ where
  step := h.step.trans hrest.step
  wf := hrest.wf
  tail := hrest.tail.trans h.tail
  jumps := hrest.jumps.trans h.jumps
  named := hrest.named
  does T fuel σ ρ hF hσ := by
    rw [execStmts]
    refine Target.Does.bind ((h.does T fuel σ ρ (hrest.step.back _ hF) hσ).mono fun r _ hr => ?_)
    obtain ⟨flow, ρ'⟩ := r
    cases flow with
    | next =>
        obtain ⟨_, σ₁, hreach, hσ₁⟩ := hr
        have hdoes := hrest.does T fuel σ₁ ρ' hF hσ₁
        rw [hΓ, h.tail, h.jumps] at hdoes
        refine hreach.does (hdoes.mono fun r _ hr => (hreach.goes hr).mono ?_ fun _ _ ho => ho)
        rintro ρ'' ⟨hopen, σ₂, hreach₂, hσ₂⟩
        exact ⟨hopen, σ₂, hreach.trans hreach₂, hσ₂⟩
    | broke => exact hr
    | continued => exact hr
    | returned v => exact hr

/-- A statement behind which no others are written. -/
theorem Lowers.cons_of_ended {s : Stmt} {rest : List Stmt} {Γ' Γ'' : TyEnv} {b' : Builder}
    (h : Lowers Γ Γ' b b' fun fuel ρ => s.exec true fuel ρ) (hended : b'.ended ≠ none) :
    Lowers Γ Γ'' b b' fun fuel ρ => execStmts true fuel (s :: rest) ρ where
  step := h.step
  wf := h.wf
  tail := h.tail
  jumps := h.jumps
  named hopen := absurd hopen hended
  does T fuel σ ρ hF hσ := by
    rw [execStmts]
    refine Target.Does.bind ((h.does T fuel σ ρ hF hσ).mono fun r _ hr => ?_)
    obtain ⟨flow, ρ'⟩ := r
    cases flow with
    | next => exact absurd hr.1 hended
    | broke => exact hr
    | continued => exact hr
    | returned v => exact hr

end

theorem Targeted.loop {jumps : List JumpTargets} (label again : String) (depth : Nat) :
    Targeted true true (⟨label, some again, depth⟩ :: jumps) :=
  ⟨fun _ => ⟨label, rfl⟩, fun _ => ⟨again, rfl⟩⟩

/-- In an arm of a switch `continue` belongs to the loop around. -/
theorem Targeted.arm {loop brk : Bool} {jumps : List JumpTargets} (h : Targeted loop brk jumps)
    (label : String) (depth : Nat) : Targeted loop true (⟨label, none, depth⟩ :: jumps) :=
  ⟨fun _ => ⟨label, rfl⟩, h.continues⟩

section

variable {c : Context} {newInstance : String → Lower Temp} {ret : Ty}

mutual

/-- The code of a statement does what the statement does. -/
theorem lowerStmt_lowers : (s : Stmt) → {loop brk : Bool} → {Γ : TyEnv} → {b : Builder} →
    s.WellTyped ret loop brk Γ → b.Ready → Named Γ b.scopes → Targeted loop brk b.jumps →
    ∃ b', Runs c (lowerStmt newInstance s) b () b' ∧
      Lowers Γ (Γ.after s) b b' fun fuel ρ => s.exec true fuel ρ
  | .varDecl span x ty flag none, loop, brk, Γ, b, h, hb, hnames, hj => by
      refine ⟨_, ?_, lowers_varDecl hb hnames⟩
      rw [lowerStmt]
      exact (runs_declareVar x ty).bind (runs_pure _)
  | .varDecl span x ty flag (some e), loop, brk, Γ, b, h, hb, hnames, hj => by
      obtain ⟨_, he⟩ : ty.isWord ∧ e.HasTy Γ ty := by
        rw [Stmt.WellTyped] at h
        exact h
      obtain ⟨t, b₁, hrun, hcode⟩ := lowerExpr?_computes he c newInstance hb hnames
      refine ⟨_, ?_, lowers_varDecl_some hb hnames he hcode⟩
      rw [lowerStmt]
      exact (runs_lowerExpr hrun).bind ((runs_declareVar x ty).bind (runs_emit _))
  | .assign span target op e, loop, brk, Γ, b, h, hb, hnames, hj => by
      cases target with
      | ident n x =>
          obtain ⟨b', hrun, hbody⟩ := body_assign c newInstance h hb hnames
          refine ⟨b', ?_, hbody.lowers hnames⟩
          rw [lowerStmt]
          exact hrun
      | _ =>
          rw [Stmt.WellTyped] at h
          · cases h
          all_goals simp
  | .ifThen span e body, loop, brk, Γ, b, h, hb, hnames, hj => by
      rw [Stmt.WellTyped] at h
      have hpart : ∀ {b'}, Grown b b' → BodyFrom c newInstance Γ body b' := fun hg =>
        inScope_body hg.ready (lowerStmts_lowers body h.2 hg.ready.push
          (hg.scopes ▸ hnames.push) (hg.jumps ▸ hj))
      obtain ⟨b', hrun, hbody⟩ := lowerStmt_ifThen span hb hnames h.1 hpart
      exact ⟨b', hrun, hbody.lowers hnames⟩
  | .ifElse span e body other, loop, brk, Γ, b, h, hb, hnames, hj => by
      rw [Stmt.WellTyped] at h
      have hpart : ∀ {b'}, Grown b b' → BodyFrom c newInstance Γ body b' := fun hg =>
        inScope_body hg.ready (lowerStmts_lowers body h.2.1 hg.ready.push
          (hg.scopes ▸ hnames.push) (hg.jumps ▸ hj))
      have hpart' : ∀ {b'}, Grown b b' → BodyFrom c newInstance Γ other b' := fun hg =>
        inScope_body hg.ready (lowerStmts_lowers other h.2.2 hg.ready.push
          (hg.scopes ▸ hnames.push) (hg.jumps ▸ hj))
      obtain ⟨b', hrun, hbody⟩ := lowerStmt_ifElse span hb hnames h.1 hpart hpart'
      exact ⟨b', hrun, hbody.lowers hnames⟩
  | .while span e body, loop, brk, Γ, b, h, hb, hnames, hj => by
      rw [Stmt.WellTyped] at h
      have hpart : ∀ {b'} label again depth, Grown b b' → BodyFrom c newInstance Γ body
          (b'.jumpingTo (⟨label, some again, depth⟩ :: b'.jumps)) := by
        intro b' label again depth hg
        have hready : (b'.jumpingTo (⟨label, some again, depth⟩ :: b'.jumps)).Ready :=
          ⟨hg.wf.jumpingTo _, hg.ended⟩
        exact inScope_body hready (lowerStmts_lowers body h.2 hready.push
          (hg.scopes ▸ hnames.push) (Targeted.loop label again depth))
      obtain ⟨b', hrun, hbody⟩ := lowerStmt_while span hb hnames h.1 hpart
      exact ⟨b', hrun, hbody.lowers hnames⟩
  | .doWhile span body e, loop, brk, Γ, b, h, hb, hnames, hj => by
      rw [Stmt.WellTyped] at h
      have hpart : ∀ {b'} label again depth, Grown b b' → BodyFrom c newInstance Γ body
          (b'.jumpingTo (⟨label, some again, depth⟩ :: b'.jumps)) := by
        intro b' label again depth hg
        have hready : (b'.jumpingTo (⟨label, some again, depth⟩ :: b'.jumps)).Ready :=
          ⟨hg.wf.jumpingTo _, hg.ended⟩
        exact inScope_body hready (lowerStmts_lowers body h.1 hready.push
          (hg.scopes ▸ hnames.push) (Targeted.loop label again depth))
      obtain ⟨b', hrun, hbody⟩ := lowerStmt_doWhile span hb hnames h.2 hpart
      exact ⟨b', hrun, hbody.lowers hnames⟩
  | .switch span e arms, loop, brk, Γ, b, h, hb, hnames, hj => by
      rw [Stmt.WellTyped] at h
      obtain ⟨τ, he, harms⟩ := h
      obtain ⟨b', hrun, hbody⟩ := lowerStmt_switch c newInstance span hb hnames he harms
        fun done hg hw hlength hpend hnodup =>
          lowerArms_go arms harms hw hlength hpend hnodup (hg.scopes ▸ hnames) (hg.jumps ▸ hj)
      exact ⟨b', hrun, hbody.lowers hnames⟩
  | .break span, loop, brk, Γ, b, h, hb, hnames, hj => by
      rw [Stmt.WellTyped] at h
      obtain ⟨label, hlabel⟩ := hj.breaks h
      refine ⟨_, ?_, (body_break hb hlabel).lowers hnames⟩
      rw [lowerStmt]
      exact runs_lowerBreak hb hlabel
  | .continue span, loop, brk, Γ, b, h, hb, hnames, hj => by
      rw [Stmt.WellTyped] at h
      obtain ⟨label, hlabel⟩ := hj.continues h
      refine ⟨_, ?_, (body_continue hb hlabel).lowers hnames⟩
      rw [lowerStmt]
      exact runs_lowerContinue hb hlabel
  | .ret span none, loop, brk, Γ, b, h, hb, hnames, hj => by
      refine ⟨_, ?_, (body_ret hb).lowers hnames⟩
      rw [lowerStmt]
      exact (runs_unwindTo hb.wf.noTry _).bind (runs_endWith hb.ended _)
  | .ret span (some e), loop, brk, Γ, b, h, hb, hnames, hj => by
      rw [Stmt.WellTyped] at h
      obtain ⟨t, b₁, hrun, hcode⟩ := lowerExpr?_computes h c newInstance hb hnames
      refine ⟨_, ?_, (body_ret_some hcode).lowers hnames⟩
      rw [lowerStmt]
      refine (runs_lowerExpr hrun).bind ?_
      exact (runs_unwindTo hcode.grown.wf.noTry _).bind (runs_endWith hcode.grown.ended _)
  | .block span body, loop, brk, Γ, b, h, hb, hnames, hj => by
      rw [Stmt.WellTyped] at h
      obtain ⟨b', hrun, hbody⟩ := inScope_body hb
        (lowerStmts_lowers body h hb.push hnames.push hj)
      refine ⟨b', ?_, Body.lowers ?_ hnames⟩
      · rw [lowerStmt]
        exact hrun
      · simp only [Stmt.exec]
        exact hbody
  | .expr .., _, _, _, _, h, _, _, _ | .for .., _, _, _, _, h, _, _, _
  | .forEach .., _, _, _, _, h, _, _, _ | .throw .., _, _, _, _, h, _, _, _
  | .try .., _, _, _, _, h, _, _, _ => by
      rw [Stmt.WellTyped] at h
      · cases h
      all_goals simp

theorem lowerStmts_lowers : (stmts : List Stmt) → {loop brk : Bool} → {Γ : TyEnv} →
    {b : Builder} → StmtsWellTyped ret loop brk Γ stmts → b.Ready → Named Γ b.scopes →
    Targeted loop brk b.jumps →
    ∃ b', Runs c (lowerStmts newInstance stmts) b () b' ∧
      Lowers Γ (Γ.afterAll stmts) b b' fun fuel ρ => execStmts true fuel stmts ρ
  | [], loop, brk, Γ, b, h, hb, hnames, hj => ⟨b, runs_pure (), lowers_nil hb hnames⟩
  | s :: rest, loop, brk, Γ, b, h, hb, hnames, hj => by
      rw [StmtsWellTyped] at h
      obtain ⟨b₁, hrun, hlowers⟩ := lowerStmt_lowers s h.1 hb hnames hj
      have hopen : ∀ {b₂}, Runs c (lowerStmts newInstance rest) b₁ () b₂ →
          Runs c (lowerStmts newInstance (s :: rest)) b () b₂ := by
        intro b₂ hrest
        rw [lowerStmts]
        refine runs_isOpen.bind ?_
        rw [hb.ended]
        exact hrun.bind hrest
      cases hended : b₁.ended with
      | some t =>
          refine ⟨b₁, hopen (runs_lowerStmts_of_ended hended rest), hlowers.cons_of_ended ?_⟩
          rw [hended]
          simp
      | none =>
          obtain ⟨b₂, hrest, hlowers'⟩ := lowerStmts_lowers
            rest h.2 ⟨hlowers.wf, hended⟩ (hlowers.named hended) (hlowers.jumps ▸ hj)
          exact ⟨b₂, hopen hrest, hlowers.cons (TyEnv.tail_after Γ s) hlowers'⟩

theorem lowerArms_go : (arms : List SwitchArm) → {loop brk : Bool} → {Γ : TyEnv} → {τ : Ty} →
    {b₀ b : Builder} → {done : String} → {labels : List String} →
    ArmsWellTyped ret loop τ Γ arms → Written b₀ b → labels.length = arms.length →
    (∀ l ∈ labels, Pending b₀ b l) → labels.Nodup → Named Γ b₀.scopes →
    Targeted loop brk b₀.jumps → ArmsFrom c newInstance Γ b₀ done labels arms b
  | [], _, _, _, _, b₀, b, done, labels, _, hw, hlength, _, _, _, _ => by
      obtain rfl : labels = [] := List.eq_nil_of_length_eq_zero hlength
      refine ⟨b, ?_, armsGo_nil hw⟩
      rw [lowerArms]
      · exact runs_pure ()
      all_goals simp
  | .mk span test body falls :: rest, _, _, _, _, b₀, b, done, [], h, hw, hlength, _, _, _, _ => by
      cases hlength
  | .mk span test body falls :: rest, loop, brk, Γ, τ, b₀, b, done, label :: labels, h, hw, hlength,
      hpend, hnodup, hnames, hj => by
      rw [ArmsWellTyped] at h
      rw [List.nodup_cons] at hnodup
      have hlabel := hpend label (by simp)
      have hstart := hw.start hlabel
      have hready : ((b.start label).jumpingTo (⟨done, none, b.tryDepth⟩ :: b.jumps)).Ready :=
        ⟨hstart.wf.jumpingTo _, hstart.ended⟩
      obtain ⟨b₁, hrun, hbody⟩ := inScope_body hready (lowerStmts_lowers body h.2.1 hready.push
        (hstart.scopes ▸ hnames.push) (hstart.jumps ▸ hj.arm done b.tryDepth))
      generalize htarget : (if falls then labels.head?.getD done else done) = target
      have hwritten : Written (b.start label) (b₁.jumpingTo b₁.jumps.tail) := hbody.loop
      have hclosed : Written b₀ ((b₁.jumpingTo b₁.jumps.tail).close (.jump target)) := by
        have hall := hstart.toWritten.trans hwritten
        exact ⟨hall.step.trans (Step.close _ _), hall.wf.close _, hall.scopes, hall.jumps⟩
      have hpend' : ∀ l ∈ labels, Pending b₀ ((b₁.jumpingTo b₁.jumps.tail).close (.jump target)) l := by
        intro l hl
        have hne : l ≠ label := fun heq => hnodup.1 (heq ▸ hl)
        exact (((hpend l (by simp [hl])).start hne).step hwritten.step).step (Step.close _ _)
      have hgo : ArmsFrom c newInstance Γ b₀ done labels rest
          ((b₁.jumpingTo b₁.jumps.tail).close (.jump target)) :=
        lowerArms_go rest h.2.2 hclosed (Nat.succ.inj hlength) hpend' hnodup.2 hnames hj
      obtain ⟨b', hrest, harms⟩ := hgo
      refine ⟨b', ?_, armsGo_cons hw hlabel hnodup.1 (Nat.succ.inj hlength) rfl htarget.symm hbody
        harms⟩
      rw [lowerArms, htarget]
      refine (runs_startBlock _).bind ((runs_withJumps hrun).bind ?_)
      exact (runs_close _).bind hrest

end

end

/-! ### Functions -/

/-- The outcome of a run with the given result. -/
def outcomeOf {R : Type} : Except Failure (Option Constant) → Outcome R
  | .ok v => .returned (v.map .scalar)
  | .error f => .failed f

theorem outcomeOf_injective {R : Type} : Function.Injective (outcomeOf (R := R)) := by
  intro r r' h
  cases r with
  | ok v =>
      cases r' with
      | ok v' =>
          have hv : v.map Value.scalar = v'.map Value.scalar := Outcome.returned.inj h
          rw [Option.map_injective (fun _ _ => Value.scalar.inj) hv]
      | error f => cases h
  | error f =>
      cases r' with
      | ok v => cases h
      | error f' => rw [Outcome.failed.inj h]

theorem outcomeOf_ne_exhausted {R : Type} {r : Except Failure (Option Constant)}
    (h : r ≠ .error .exhausted) : outcomeOf (R := R) r ≠ .failed .exhausted :=
  fun heq => h (outcomeOf_injective heq)

section

variable {f : FunctionDecl}

theorem ready_startOf (h : (f.params.map Param.name).Nodup) :
    (startOf none f).Ready where
  wf :=
    { numbers := by
        intro l hl
        obtain rfl : l = "entry" := by simpa [startOf, Builder.labels] using hl
        have hnumber : labelNumber "entry" = 0 := by decide
        exact Nat.le_of_eq hnumber
      label := by simp [startOf]
      noTry := rfl
      used := by simp [startOf, Frames.values, functionParams]
      nodup := by simpa [startOf, Frames.values, Function.comp_def] using h }
  ended := rfl

theorem named_startOf : Named [paramTypes f.params] (startOf none f).scopes := by
  refine .cons ?_ .nil
  rw [paramTypes, List.forall₂_map_left_iff, List.forall₂_map_right_iff, List.forall₂_same]
  exact fun _ _ => ⟨rfl, trivial⟩

/-- Every parameter holds the argument at its position. -/
theorem holds_params {R W : Type} {σ : State R (Frame R W)} {names : List String}
    {args : List Constant} (hnodup : names.Nodup) (hlength : args.length = names.length)
    (hvars : ∀ x ∈ names, σ.rest.vars x = (names.zip (args.map .scalar)).lookup x) :
    List.Forall₂ (fun p q => p.1 = q.1 ∧ Holds σ p.2 q.2) (names.map fun x => (x, x))
      (names.zip (args.map some)) := by
  induction names generalizing args with
  | nil => exact .nil
  | cons x names ih =>
      cases args with
      | nil => cases hlength
      | cons a args =>
          rw [List.nodup_cons] at hnodup
          refine .cons ⟨rfl, ?_⟩ (ih hnodup.2 (Nat.succ.inj hlength) fun y hy => ?_)
          · simpa [Holds] using hvars x (by simp)
          · have hne : y ≠ x := by
              rintro rfl
              exact hnodup.1 hy
            rw [hvars y (by simp [hy])]
            simp only [List.map_cons, List.zip_cons_cons, List.lookup_cons,
              beq_eq_false_iff_ne.2 hne]

/-- The run of a function is that of its first block. -/
theorem runFunction_of_ends {R W : Type} {T : Target R W} {args : List (Value R)} {w : W}
    {o : Outcome R} (hlength : args.length = T.function.params.length)
    (h : T.Ends (startOf none f) (Platform.start T.function args w) o) :
    ∃ n, (T.platform.runFunction T.call n T.function args w).outcome = o := by
  obtain ⟨more, term, rest, n, hF, ho⟩ := h
  have hblocks : T.function.blocks = ⟨"entry", more, term⟩ :: rest := hF
  have hentry : Function.entry? T.function = some ⟨"entry", more, term⟩ := by
    rw [Function.entry?, hblocks]
    rfl
  have hblock : T.function.block? "entry" = some ⟨"entry", more, term⟩ := by
    simp [Function.block?, hblocks]
  refine ⟨n + 1, ?_⟩
  simp only [Platform.runFunction, hentry, if_pos hlength, Platform.enter, hblock]
  exact ho

/-- What is behind the body of a function. -/
def lastOf (f : FunctionDecl) : Terminator := if f.ret.isVoid then .retVoid else .unreachable

theorem ends_lastOf {R W : Type} {T : Target R W} {b : Builder} {σ : State R (Frame R W)}
    (h : Extends T.function (b.finish (lastOf f))) :
    T.Ends b σ (outcomeOf (if f.ret.isVoid then .ok none else .error .stuck)) := by
  unfold lastOf at h
  split at h
  case isTrue hvoid =>
    rw [if_pos hvoid]
    exact Target.ends_retVoid h
  case isFalse hvoid =>
    rw [if_neg hvoid]
    exact Target.ends_unreachable h

/-- In the frame of a call the parameters are in step with the arguments. -/
theorem tracks_start {R W : Type} {g : Function} {args : List Constant} (w : W)
    (hnodup : (f.params.map Param.name).Nodup) (hparams : g.params = functionParams none f)
    (hargs : args.map Constant.ty = f.params.map Param.ty) :
    Tracks [paramTypes f.params] (startOf none f).scopes
      (Platform.start g (args.map (Value.scalar (R := R))) w)
      [(f.params.map Param.name).zip (args.map some)] := by
  have hnames : g.params.map Ir.Param.name = f.params.map Param.name := by
    simp [hparams, functionParams]
  refine ⟨.cons ?_ .nil, (full_zip hargs).hasTypes⟩
  have hholds := holds_params (σ := Platform.start g (args.map (Value.scalar (R := R))) w) hnodup
    (by simpa using congrArg List.length hargs) fun x _ => by
      rw [← hnames]
      rfl
  simpa [List.map_map, Function.comp_def] using hholds

/-- The code of the body, with what is behind it, does what the function does. -/
theorem ends_of_lowers {R W : Type} {T : Target R W} {b : Builder} {Γ : TyEnv}
    {σ : State R (Frame R W)} {args : List Constant}
    (h : Lowers [paramTypes f.params] Γ (startOf none f) b fun fuel ρ => execStmts true fuel f.body ρ)
    (hF : Extends T.function (b.close (lastOf f)))
    (hσ : Tracks [paramTypes f.params] (startOf none f).scopes σ
      [(f.params.map Param.name).zip (args.map some)]) {n : Nat}
    (hfinal : f.run true n args ≠ .error .exhausted) :
    T.Ends (startOf none f) σ (outcomeOf (f.run true n args)) := by
  have hdoes := h.does T n σ _ ((Step.close b _).back _ hF) hσ
  unfold FunctionDecl.run at hfinal ⊢
  generalize execStmts true n f.body _ = r at hdoes hfinal
  cases r with
  | error failure =>
      rcases hdoes with rfl | hends
      · exact absurd rfl hfinal
      · exact hends
  | ok r =>
      obtain ⟨flow, ρ⟩ := r
      cases flow with
      | next =>
          obtain ⟨hopen, σ', hreach, _⟩ := hdoes
          rw [Builder.close_of_open hopen] at hF
          exact hreach _ (ends_lastOf hF)
      | broke =>
          -- Around the body of a function there is no target of a jump.
          obtain ⟨label, _, hlabel, _⟩ := hdoes
          cases hlabel
      | continued =>
          obtain ⟨label, _, hlabel, _⟩ := hdoes
          cases hlabel
      | returned v => exact hdoes

/-- A function that obeys the rules can be lowered, and its lowered form does what its eager run does. -/
theorem lowerFunction_runs (hf : f.WellTyped) (hierarchy : Hierarchy)
    (prototypes : List PrototypeDecl) (depth : Nat) :
    ∃ g, lowerFunction hierarchy prototypes depth none f = .ok g ∧
      ∀ {R W : Type} (P : Platform R W) (call : String → List (Value R) → W → Ending R W) (w : W)
        {args : List Constant}, args.map Constant.ty = f.params.map Param.ty → ∀ n,
        f.run true n args ≠ .error .exhausted →
        ∃ m, (P.runFunction call m g (args.map .scalar) w).outcome = outcomeOf (f.run true n args) := by
  have hbody := @lowerStmts_lowers ⟨f.name, hierarchy, prototypes⟩ (newInstance depth) f.ret f.body
    false false [paramTypes f.params] (startOf none f) hf.body (ready_startOf hf.nodup)
    named_startOf ⟨nofun, nofun⟩
  obtain ⟨b, hrun, hlowers⟩ := hbody
  have hall : ((lowerBody (newInstance depth) f).run ⟨f.name, hierarchy, prototypes⟩).run
      (startOf none f) = .ok ((), b.close (lastOf f)) := hrun.bind (runs_close _)
  refine ⟨⟨f.name, functionParams none f, f.ret, (b.close (lastOf f)).blocks⟩, ?_, ?_⟩
  · simp only [lowerFunction, Option.map_none, Option.getD_none, hall]
    rfl
  intro R W P call w args hargs n hfinal
  have hlength : args.length = f.params.length := by simpa using congrArg List.length hargs
  refine runFunction_of_ends (T := ⟨P, call, _⟩) (by simp [functionParams, hlength])
    (ends_of_lowers hlowers ?_ (tracks_start w hf.nodup rfl hargs) hfinal)
  refine ⟨[], (b.close (lastOf f)).ended.getD .unreachable, [], by simp [Builder.blocks], ?_⟩
  intro t ht
  rw [ht]
  exact ⟨rfl, rfl⟩

end

/-!
## Lowered programs keep their meaning, where eager reading does no harm

A function of the scalar fragment of a program without problems can be lowered, and ends in the outcome
of its source exactly if the eager run of the source does too. The two
differ where a logical operator reads a variable that has no value, although its left operand
decides. The checker lets this happen: it takes the body of a `do` loop to run to its end, also if it
can break off before it assigns a variable.

No such thing happens in a function that declares its variables with initial values and assigns nothing
by `&&` or `||`: its lowered form always ends in the outcome of its source
(`outcome_lowerFunction_of_settled`).
-/

open Ir

section

variable {p : Program} {library : Library} {f : FunctionDecl}

/-- A function of the scalar fragment of a program without problems can be lowered. On every platform,
what it computes is what its source computes exactly if reading eagerly changes nothing there. -/
theorem outcome_lowerFunction_iff (hclean : (p.analyze library).isClean)
    (hf : f ∈ (p.analyze library).program.functions) (hfrag : f.inFragment) :
    ∃ g, lowerFunction (p.analyze library).hierarchy (p.analyze library).program.prototypes
        (depthBound (p.analyze library).program.prototypes) none f = .ok g ∧
      ∀ {R W : Type} (P : Platform R W) (call : String → List (Value R) → W → Ending R W) (w : W)
        (args : List Constant), args.map Constant.ty = f.params.map Param.ty →
        ∀ n : Nat, f.run false n args ≠ .error .exhausted →
        ((∃ m, (P.runFunction call m g (args.map .scalar) w).outcome = outcomeOf (f.run false n args)) ↔
          f.run true n args = f.run false n args) := by
  have htyped := Program.wellTyped_of_isClean hclean hf hfrag
  obtain ⟨g, hg, hruns⟩ := lowerFunction_runs htyped (p.analyze library).hierarchy
    (p.analyze library).program.prototypes (depthBound (p.analyze library).program.prototypes)
  refine ⟨g, hg, fun P call w args hargs n hrun => ?_⟩
  have heager : f.run true n args ≠ .error .exhausted := by
    rcases f.run_eager_of_run n args with h | h | ⟨failure, h, hne⟩
    · exact absurd h hrun
    · rw [h]
      exact hrun
    · rw [h]
      exact fun heq => hne (Except.error.inj heq)
  obtain ⟨k, hk⟩ := hruns P call w hargs n heager
  constructor
  · rintro ⟨m, hm⟩
    -- Neither run of the lowered function is cut off, so they have one outcome.
    have hunique := P.runFunction_outcome_unique (n := k) (m := m)
      (by rw [hk]; exact outcomeOf_ne_exhausted heager) (by rw [hm]; exact outcomeOf_ne_exhausted hrun)
    rw [hk, hm] at hunique
    exact outcomeOf_injective hunique
  · intro heq
    exact ⟨k, by rw [hk, heq]⟩

/-- Where every variable has an initial value and nothing is assigned by `&&` or `||`, the lowered
function ends in the outcome of its source. -/
theorem outcome_lowerFunction_of_settled (hclean : (p.analyze library).isClean)
    (hf : f ∈ (p.analyze library).program.functions) (hfrag : f.inFragment)
    (hsettled : stmtsSettled f.body) :
    ∃ g, lowerFunction (p.analyze library).hierarchy (p.analyze library).program.prototypes
        (depthBound (p.analyze library).program.prototypes) none f = .ok g ∧
      ∀ {R W : Type} (P : Platform R W) (call : String → List (Value R) → W → Ending R W) (w : W)
        (args : List Constant), args.map Constant.ty = f.params.map Param.ty →
        ∀ n : Nat, f.run false n args ≠ .error .exhausted →
        ∃ m, (P.runFunction call m g (args.map .scalar) w).outcome = outcomeOf (f.run false n args) := by
  have htyped := Program.wellTyped_of_isClean hclean hf hfrag
  obtain ⟨g, hg, hruns⟩ := lowerFunction_runs htyped (p.analyze library).hierarchy
    (p.analyze library).program.prototypes (depthBound (p.analyze library).program.prototypes)
  refine ⟨g, hg, fun P call w args hargs n hrun => ?_⟩
  have heager := htyped.run_eager hsettled hargs n
  rw [← heager] at hrun ⊢
  exact hruns P call w hargs n hrun

end

/-- A function that may break off its loop before it assigns `x`, and then asks for `!c && x`. -/
def brokenOff : Program where
  file := "f.ps"
  imports := []
  decls :=
    [.function
      { name := "f", params := [⟨"c", .bool, .origin⟩], ret := .bool
        body :=
          [.varDecl .origin "x" .bool false none,
            .doWhile .origin
              [.ifThen .origin (.ident {} "c") [.break .origin],
                .assign .origin (.ident {} "x") none (.literal {} (.bool true))]
              (.literal {} (.bool false)),
            .ret .origin (some (.binary {} .and (.unary {} .not (.ident {} "c")) (.ident {} "x")))] }]

/-- No problem is found in `brokenOff`. Where the loop ends the lowered function returns what its source
returns; where it is broken off the source returns `false`, which the lowered function never does. -/
theorem outcome_lowerFunction_brokenOff :
    ∃ f g, (brokenOff.analyze ⟨[]⟩).isClean ∧ (brokenOff.analyze ⟨[]⟩).program.functions = [f] ∧
      lowerFunction (brokenOff.analyze ⟨[]⟩).hierarchy [] 1 none f = .ok g ∧
      f.run false 1 [.bool false] = .ok (some (.bool true)) ∧
      (∃ m, (Heap.platform.runFunction (fun _ _ w => ⟨.failed .stuck, w⟩) m g
        [.scalar (.bool false)] .empty).outcome = .returned (some (.scalar (.bool true)))) ∧
      f.run false 1 [.bool true] = .ok (some (.bool false)) ∧
      ¬ ∃ m, (Heap.platform.runFunction (fun _ _ w => ⟨.failed .stuck, w⟩) m g
        [.scalar (.bool true)] .empty).outcome = .returned (some (.scalar (.bool false))) := by
  have hclean : (brokenOff.analyze ⟨[]⟩).isClean := by decide +kernel
  obtain ⟨f, hf⟩ : ∃ f, (brokenOff.analyze ⟨[]⟩).program.functions = [f] := ⟨_, rfl⟩
  have hfacts : [f].map (fun f => (f.inFragment, f.params.map Param.ty, f.run false 1 [.bool false],
      f.run true 1 [.bool false], f.run false 1 [.bool true], f.run true 1 [.bool true])) =
      [(true, [.bool], .ok (some (.bool true)), .ok (some (.bool true)), .ok (some (.bool false)),
        .error .stuck)] := by
    rw [← hf]
    rfl
  simp only [List.map_cons, List.map_nil, List.cons.injEq, Prod.mk.injEq, and_true] at hfacts
  obtain ⟨hfrag, hparams, hends, hendsEager, hbreaks, hbreaksEager⟩ := hfacts
  obtain ⟨g, hg, hiff⟩ := outcome_lowerFunction_iff hclean (by rw [hf]; exact List.mem_singleton_self f) hfrag
  have hends' := hiff Heap.platform (fun _ _ w => ⟨.failed .stuck, w⟩) .empty [.bool false]
    (by rw [hparams]; rfl) 1 (by rw [hends]; simp)
  have hbreaks' := hiff Heap.platform (fun _ _ w => ⟨.failed .stuck, w⟩) .empty [.bool true]
    (by rw [hparams]; rfl) 1 (by rw [hbreaks]; simp)
  rw [hends, hendsEager] at hends'
  rw [hbreaks, hbreaksEager] at hbreaks'
  refine ⟨f, g, hclean, hf, hg, hends, hends'.2 rfl, hbreaks, fun h => ?_⟩
  cases hbreaks'.1 h

end ProtoScript.Lowering
