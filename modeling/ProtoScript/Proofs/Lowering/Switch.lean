import ProtoScript.Proofs.Lowering.Stmt

set_option autoImplicit false

/-!
# Switches

A switch tests its value against its arms one after the other and goes to the label of the arm that
it finds (`lowerTests_goes`). The bodies of the arms stand behind the tests, each with a label of
its own, and fall through to one another or behind the switch (`armsGo_cons`).
-/

namespace ProtoScript.Lowering

open Ir

variable {c : Context} {newInstance : String → Lower Temp} {Γ : TyEnv} {b b' : Builder}

/-! ## Tests -/

/-- The label of the first test that the value passes. -/
def firstLabel (ρ : Env) (v : Constant) : List (String × Expr) → Except Failure (Option String)
  | [] => .ok none
  | (label, e) :: rest => do
    match ← BinaryOp.equal.apply v (← e.eval true ρ) with
    | .bool true => return some label
    | .bool false => firstLabel ρ v rest
    | _ => .error .stuck

/-- The arms of a switch and their tests find the same. -/
theorem firstLabel_armTests {ρ : Env} {v : Constant} {arms : List SwitchArm} {labels : List String}
    (h : labels.length = arms.length) :
    firstLabel ρ v (armTests arms labels) =
      (firstMatch true ρ v arms).map fun i? => i?.bind fun i => labels[i]? := by
  induction arms generalizing labels with
  | nil =>
      obtain rfl : labels = [] := List.eq_nil_of_length_eq_zero h
      rfl
  | cons arm rest ih =>
      obtain ⟨span, test, body, falls⟩ := arm
      cases labels with
      | nil => cases h
      | cons label labels =>
          have hrest := ih (Nat.succ.inj h)
          cases test with
          | none =>
              have htests : armTests (.mk span none body falls :: rest) (label :: labels) =
                  armTests rest labels := rfl
              rw [htests, hrest, firstMatch]
              cases firstMatch true ρ v rest with
              | error f => rfl
              | ok i? => cases i? <;> rfl
          | some e =>
              have htests : armTests (.mk span (some e) body falls :: rest) (label :: labels) =
                  (label, e) :: armTests rest labels := rfl
              rw [htests, firstLabel, firstMatch, hrest]
              cases e.eval true ρ with
              | error f => rfl
              | ok w =>
                  simp only [ok_bind]
                  cases BinaryOp.equal.apply v w with
                  | error f => rfl
                  | ok same =>
                      simp only [ok_bind]
                      cases same with
                      | bool same =>
                          cases same with
                          | true => rfl
                          | false =>
                              simp only
                              cases firstMatch true ρ v rest with
                              | error f => rfl
                              | ok i? => cases i? <;> rfl
                      | _ => rfl

theorem checkFor?_equal (l r : Temp) (ty : Ty) : checkFor? .equal l r ty = none := by
  unfold checkFor?
  split <;> rfl

theorem binaryApplies_equal {τ : Ty} (h : τ.isWord) : Analysis.binaryApplies .equal τ := by
  unfold Ty.isWord at h
  split at h
  · rfl
  · rfl
  · rfl
  · cases h

/-- The builder behind a test, but for the terminator. -/
def Builder.emitTest (b : Builder) (value t : Temp) : Builder :=
  b.takeTemp.emit (.binary b.nextTemp .equal value t)

/-- A test of the value of a switch, followed by a branch. -/
theorem Computes.does_test {R W : Type} {T : Target R W} {σ : State R (Frame R W)} {ρ : Env}
    {e : Expr} {value t : Temp} {v : Constant} {τ : Ty} {thenLabel elseLabel : String}
    (h : Computes Γ b b' t (e.eval true)) (he : e.HasTy Γ τ)
    (hF : Extends T.function
      ((b'.emitTest value t).finish (.branch b'.nextTemp thenLabel elseLabel)))
    (hσ : Tracks Γ b.scopes σ ρ) (hlt : value < b.nextTemp)
    (hvalue : σ.temps value = some (.scalar v)) (hv : v.ty = τ) :
    T.Does b σ (e.eval true ρ >>= fun w => BinaryOp.equal.apply v w) fun same => ∃ r σ',
      same = .bool r ∧ T.ReachesLabel b σ (if r then thenLabel else elseLabel) σ' ∧
        Undisturbed b σ σ' := by
  have hτ := he.isWord
  have hopen : (b'.emitTest value t).ended = none := h.grown.ended
  have hF₂ := (Step.finish hopen _).back _ hF
  have hF₁ := ((Grown.refl h.grown.ready).takeTemp.emit (.binary b'.nextTemp .equal value t)).step.back _ hF₂
  refine Target.Does.bind ((h.does T σ ρ hF₁ hσ.vars hσ.types).mono fun w hw hg => ?_)
  obtain ⟨σ₁, hreach, ht, hu⟩ := hg
  have hvalue₁ : σ₁.temps value = some (.scalar v) := (hu.temps value hlt).trans hvalue
  have hdoes := Target.does_emitBinary (T := T) (τ := τ) h.grown.ended
    (by rw [checkFor?_equal]; exact hF₂) hτ hv (he.eval hσ.types hw) rfl (binaryApplies_equal hτ)
    hvalue₁ ht
  rw [checkFor?_equal] at hdoes
  refine hreach.does (hdoes.mono fun same hsame hg => ?_)
  obtain ⟨σ₂, hreach₂, ht₂, hu₂⟩ := hg
  have hty := BinaryOp.apply_ty hτ hv (he.eval hσ.types hw) hsame
  obtain ⟨r, rfl⟩ := Constant.eq_bool_of_ty hty
  refine ⟨r, σ₂, rfl, (hreach.trans hreach₂).label (Target.reachesLabel_branch hF ht₂), ?_⟩
  exact hu.trans (hu₂.of_step h.grown.step)

variable (c newInstance) in
/-- The code of the tests of a switch finds the label of the first one that the value passes. -/
theorem lowerTests_goes {value : Temp} (otherwise : String) {τ : Ty} :
    (tests : List (String × Expr)) → {b : Builder} → (∀ p ∈ tests, p.2.HasTy Γ τ) → b.Ready →
    Named Γ b.scopes → value < b.nextTemp →
    ∃ b', Runs c (lowerTests newInstance value otherwise tests) b () b' ∧ Written b b' ∧
      ∀ {R W : Type} (T : Target R W) {σ : State R (Frame R W)} {ρ : Env} {v : Constant},
        Extends T.function b' → Tracks Γ b.scopes σ ρ → σ.temps value = some (.scalar v) →
        v.ty = τ → T.Does b σ (firstLabel ρ v tests) fun label? =>
          ∃ σ', T.ReachesLabel b σ (label?.getD otherwise) σ' ∧ Tracks Γ b.scopes σ' ρ
  | [], b, _, hb, _, _ => by
      refine ⟨b.finish (.jump otherwise), ?_, ?_, ?_⟩
      · rw [lowerTests]
        exact runs_endWith hb.ended _
      · exact ⟨Step.finish hb.ended _, hb.wf.finish _, rfl, rfl⟩
      · intro R W T σ ρ v hF hσ _ _
        exact ⟨σ, Target.reachesLabel_jump hF, hσ⟩
  | [(label, e)], b, htests, hb, hnames, hlt => by
      have he : e.HasTy Γ τ := htests (label, e) (by simp)
      obtain ⟨t, b₁, hrun, hcode⟩ := lowerExpr?_computes he c newInstance hb hnames
      have hgrown : Grown b (b₁.emitTest value t) := (hcode.grown.takeTemp).emit _
      refine ⟨(b₁.emitTest value t).finish (.branch b₁.nextTemp label otherwise), ?_, ?_, ?_⟩
      · rw [lowerTests]
        exact (runs_lowerExpr hrun).bind ((runs_emitValue _).bind (runs_endWith hgrown.ended _))
      · exact ⟨hgrown.finish _, hgrown.wf.finish _, hgrown.scopes, hgrown.jumps⟩
      · intro R W T σ ρ v hF hσ hvalue hv
        have hdoes := hcode.does_test he hF hσ hlt hvalue hv
        simp only [firstLabel]
        rw [← bind_assoc]
        refine Target.Does.bind (hdoes.mono fun same _ hg => ?_)
        obtain ⟨r, σ', rfl, hgoto, hu⟩ := hg
        cases r with
        | true => exact ⟨σ', hgoto, hσ.undisturbed hb.wf hu⟩
        | false => exact ⟨σ', hgoto, hσ.undisturbed hb.wf hu⟩
  | (label, e) :: next :: rest, b, htests, hb, hnames, hlt => by
      have he : e.HasTy Γ τ := htests (label, e) (by simp)
      obtain ⟨t, b₁, hrun, hcode⟩ := lowerExpr?_computes he c newInstance hb hnames
      have hgrown : Grown b (b₁.emitTest value t) := (hcode.grown.takeTemp).emit _
      generalize hlabel : (b₁.emitTest value t).newLabel "case_test" = other
      have hpend : Pending b (b₁.emitTest value t).takeLabel other :=
        hlabel ▸ Pending.of_takeLabel hgrown rfl
      have hnext := hgrown.takeLabel.next (.branch b₁.nextTemp label other) hpend
      obtain ⟨b', hrest, hwritten, hgoes⟩ := lowerTests_goes otherwise (next :: rest)
        (fun p hp => htests p (List.mem_cons_of_mem _ hp)) hnext.ready
        (by rw [hnext.scopes]; exact hnames) (Nat.lt_of_lt_of_le hlt hnext.step.nextTemp)
      refine ⟨b', ?_, hnext.toWritten.trans hwritten, ?_⟩
      · rw [lowerTests.eq_3 _ _ _ _ _ _ (List.cons_ne_nil _ _)]
        refine (runs_lowerExpr hrun).bind ((runs_emitValue _).bind ((runs_freshLabel _).bind ?_))
        rw [← Builder.emitTest, hlabel]
        exact (runs_endWith hgrown.takeLabel.ended _).bind ((runs_startBlock _).bind hrest)
      · intro R W T σ ρ v hF hσ hvalue hv
        have hFbranch := (hwritten.step.back _ hF).of_start
        have hdoes := hcode.does_test he hFbranch hσ hlt hvalue hv
        rw [firstLabel, ← bind_assoc]
        refine Target.Does.bind (hdoes.mono fun same _ hg => ?_)
        obtain ⟨r, σ', rfl, hgoto, hu⟩ := hg
        have hσ' := hσ.undisturbed hb.wf hu
        cases r with
        | true => exact ⟨σ', hgoto, hσ'⟩
        | false =>
            have hstart : T.Starts other (((b₁.emitTest value t).takeLabel.finish
                (.branch b₁.nextTemp label other)).start other) := Target.starts hpend.fresh
            have henter := hstart hgoto
            rw [← hnext.scopes] at hσ' ⊢
            refine henter.does ((hgoes T hF hσ' ((hu.temps value hlt).trans hvalue) hv).mono
              fun label? _ hfound => ?_)
            obtain ⟨σ'', hreach, hσ''⟩ := hfound
            exact ⟨σ'', henter.label hreach, hσ''⟩

/-! ## Arms -/

/-- The labels that the builder gives out next. -/
def Builder.newLabels (b : Builder) (stem : String) : Nat → List String
  | 0 => []
  | n + 1 => b.newLabel stem :: b.takeLabel.newLabels stem n

/-- The builder with labels given out. -/
def Builder.takeLabels (b : Builder) (n : Nat) : Builder := { b with nextLabel := b.nextLabel + n }

theorem Builder.takeLabels_takeLabel (b : Builder) (n : Nat) :
    b.takeLabel.takeLabels n = b.takeLabels (n + 1) := by
  simp only [takeLabels, takeLabel, Nat.add_assoc, Nat.add_comm 1 n]

theorem runs_freshLabels (stem : String) (n : Nat) :
    Runs c (freshLabels stem n) b (b.newLabels stem n) (b.takeLabels n) := by
  induction n generalizing b with
  | zero => exact runs_pure _
  | succ n ih =>
      rw [← Builder.takeLabels_takeLabel]
      exact (runs_freshLabel stem).bind (ih.bind (runs_pure _))

theorem Builder.length_newLabels (b : Builder) (stem : String) (n : Nat) :
    (b.newLabels stem n).length = n := by
  induction n generalizing b with
  | zero => rfl
  | succ n ih => rw [newLabels, List.length_cons, ih]

theorem Grown.takeLabels {b₀ : Builder} (h : Grown b₀ b) (n : Nat) : Grown b₀ (b.takeLabels n) := by
  induction n generalizing b with
  | zero => exact h
  | succ n ih =>
      rw [← Builder.takeLabels_takeLabel]
      exact ih h.takeLabel

theorem pending_newLabels {b₀ : Builder} (h : Grown b₀ b) {stem : String} (hstem : isStem stem)
    (n : Nat) : ∀ label ∈ b.newLabels stem n, Pending b₀ (b.takeLabels n) label := by
  induction n generalizing b with
  | zero =>
      intro label hlabel
      cases hlabel
  | succ n ih =>
      intro label hlabel
      rw [← Builder.takeLabels_takeLabel]
      rcases List.mem_cons.1 hlabel with rfl | hlabel
      · exact (Pending.of_takeLabel h hstem).step ((Grown.refl h.takeLabel.ready).takeLabels n).step
      · exact ih h.takeLabel label hlabel

/-- Labels have larger numbers the later they are given out. -/
theorem nextLabel_lt_of_mem_newLabels {stem : String} (hstem : isStem stem) {n : Nat} :
    ∀ label ∈ b.newLabels stem n, b.nextLabel < labelNumber label := by
  induction n generalizing b with
  | zero =>
      intro label hlabel
      cases hlabel
  | succ n ih =>
      intro label hlabel
      rcases List.mem_cons.1 hlabel with rfl | hlabel
      · rw [Builder.newLabel, labelNumber_append hstem]
        exact Nat.lt_succ_self _
      · exact Nat.lt_of_succ_lt (ih label hlabel)

theorem nodup_newLabels {stem : String} (hstem : isStem stem) (n : Nat) :
    (b.newLabels stem n).Nodup := by
  induction n generalizing b with
  | zero => exact List.nodup_nil
  | succ n ih =>
      refine List.nodup_cons.2 ⟨fun hmem => ?_, ih⟩
      have hlt := nextLabel_lt_of_mem_newLabels hstem _ hmem
      rw [Builder.newLabel, labelNumber_append hstem] at hlt
      exact Nat.lt_irrefl _ hlt

/-- The code between two points holds the arms of a switch, each behind its label. Since the labels were
given out before, it is compared with an earlier builder. -/
structure ArmsGo (Γ : TyEnv) (b₀ : Builder) (done : String) (labels : List String) (b b' : Builder)
    (run : Nat → Nat → Env → Run) : Prop where
  written : Written b₀ b'
  pending : ∀ {l}, Pending b₀ b l → l ∉ labels → Pending b₀ b' l
  back : ∀ F, Extends F b' → Extends F b
  does {R W : Type} (T : Target R W) (fuel i : Nat) {label : String} {x : Builder}
    {τ σ : State R (Frame R W)} {ρ : Env} : Extends T.function b' → labels[i]? = some label →
      T.ReachesLabel x τ label σ → Tracks Γ b₀.scopes σ ρ →
      T.Does x τ (run fuel i ρ) (T.GoesTo x τ b₀.jumps done (Tracks Γ b₀.scopes))

section

variable {b₀ b₁ : Builder} {done : String}

theorem armsGo_nil (h : Written b₀ b) :
    ArmsGo Γ b₀ done [] b b fun fuel i ρ => execArms true fuel i [] ρ where
  written := h
  pending hl _ := hl
  back _ hF := hF
  does T fuel i _ _ _ _ _ _ hlabel := by cases hlabel

/-- The block of a label is started. -/
theorem Written.start (h : Written b₀ b) {label : String} (hlabel : Pending b₀ b label) :
    Grown b₀ (b.start label) where
  step := h.step.start hlabel.new hlabel.number
  wf := h.wf.start hlabel.toFree
  scopes := h.scopes
  jumps := h.jumps
  ended := rfl

/-- An arm before others. -/
theorem armsGo_cons {span : Span} {test : Option Expr} {body : List Stmt} {falls : Bool}
    {rest : List SwitchArm} {label target : String} {labels : List String} {start : Builder}
    (hb : Written b₀ b) (hlabel : Pending b₀ b label) (hother : label ∉ labels)
    (hlength : labels.length = rest.length) (hstart : start = b.start label)
    (htarget : target = if falls then labels.head?.getD done else done)
    (hbody : Body Γ (start.jumpingTo (⟨done, none, start.tryDepth⟩ :: start.jumps)) b₁
      fun fuel ρ => withScope (execStmts true fuel body) ρ)
    (hrest : ArmsGo Γ b₀ done labels ((b₁.jumpingTo b₁.jumps.tail).close (.jump target)) b'
      fun fuel i ρ => execArms true fuel i rest ρ) :
    ArmsGo Γ b₀ done (label :: labels) b b'
      fun fuel i ρ => execArms true fuel i (.mk span test body falls :: rest) ρ := by
  have hgrown : Grown b₀ start := hstart ▸ hb.start hlabel
  have hwritten : Written start (b₁.jumpingTo b₁.jumps.tail) := hbody.loop
  have hback : ∀ F, Extends F b' → Extends F start := fun F hF =>
    hwritten.step.back F ((Step.close _ _).back F (hrest.back F hF))
  refine ⟨hrest.written, fun hl hmem => ?_, fun F hF => ?_, ?_⟩
  · obtain ⟨hne, hmem⟩ := not_or.1 (mt List.mem_cons.2 hmem)
    have hfree := hl.start hne
    rw [← hstart] at hfree
    exact hrest.pending ((hfree.step hwritten.step).step (Step.close _ _)) hmem
  · have hF' := hback F hF
    rw [hstart] at hF'
    exact hF'.of_start
  · intro R W T fuel i l x τ σ ρ hF hl hreach hσ
    cases i with
    | succ i =>
        simp only [execArms]
        exact hrest.does T fuel i hF hl hreach hσ
    | zero =>
        obtain rfl : label = l := Option.some.inj hl
        have hclose := hrest.back _ hF
        have hstarts : T.Starts label start := hstart ▸ Target.starts hlabel.fresh
        have henter := hstarts hreach
        have hdoes := hbody.does_close hgrown.scopes (congrArg (List.cons _) hgrown.jumps) hclose
          fuel hσ
        simp only [execArms]
        refine henter.does (Target.Does.bind (hdoes.mono fun r _ hr => ?_))
        obtain ⟨flow, ρ'⟩ := r
        cases flow with
        | next =>
            obtain ⟨σ₁, hjump, hσ₁⟩ := hr
            cases falls with
            | false =>
                obtain rfl : target = done := htarget
                exact ⟨σ₁, henter.label hjump, hσ₁⟩
            | true =>
                obtain rfl : target = labels.head?.getD done := htarget
                cases labels with
                | nil =>
                    obtain rfl : rest = [] := List.eq_nil_of_length_eq_zero hlength.symm
                    simp only [execArms]
                    exact ⟨σ₁, henter.label hjump, hσ₁⟩
                | cons l labels =>
                    refine (hrest.does T fuel 0 hF rfl hjump hσ₁).mono fun r _ hr => ?_
                    exact henter.goesTo hr
        | broke =>
            obtain ⟨_, σ₁, ⟨⟩, hjump, hσ₁⟩ := hr
            exact ⟨σ₁, henter.label hjump, hσ₁⟩
        | continued =>
            obtain ⟨_, σ₁, hcontinue, hjump, hσ₁⟩ := hr
            exact ⟨_, σ₁, hcontinue, henter.label hjump, hσ₁⟩
        | returned v => exact henter _ hr

end

/-! ## The switch -/

theorem lt_of_firstMatch {ρ : Env} {v : Constant} {arms : List SwitchArm} {i : Nat}
    (h : firstMatch true ρ v arms = .ok (some i)) : i < arms.length := by
  induction arms generalizing i with
  | nil => cases h
  | cons arm rest ih =>
      obtain ⟨span, test, body, falls⟩ := arm
      have hlater : ∀ {i? : Option Nat}, firstMatch true ρ v rest = .ok i? →
          i?.map (· + 1) = some i → i < rest.length + 1 := by
        intro i? hi? hi
        obtain ⟨j, rfl, rfl⟩ := Option.map_eq_some_iff.1 hi
        exact Nat.succ_lt_succ (ih hi?)
      cases test with
      | none =>
          obtain ⟨i?, hi?, hi⟩ := bind_eq_ok.1 h
          exact hlater hi? (Except.ok.inj hi)
      | some e =>
          obtain ⟨w, _, h⟩ := bind_eq_ok.1 h
          obtain ⟨same, _, h⟩ := bind_eq_ok.1 h
          split at h
          · cases h
            exact Nat.succ_pos _
          · obtain ⟨i?, hi?, hi⟩ := bind_eq_ok.1 h
            exact hlater hi? (Except.ok.inj hi)
          · cases h

/-- Where a switch goes if no test holds. -/
theorem defaultLabel_eq {arms : List SwitchArm} {labels : List String}
    (h : labels.length = arms.length) (done : String) :
    defaultLabel arms labels done =
      ((arms.findIdx? fun arm => arm.test.isNone).bind fun i => labels[i]?).getD done := by
  induction arms generalizing labels with
  | nil =>
      obtain rfl : labels = [] := List.eq_nil_of_length_eq_zero h
      rfl
  | cons arm rest ih =>
      obtain ⟨span, test, body, falls⟩ := arm
      cases labels with
      | nil => cases h
      | cons label labels =>
          cases test with
          | none => rfl
          | some e =>
              have hskip : defaultLabel (.mk span (some e) body falls :: rest) (label :: labels) done =
                  defaultLabel rest labels done := rfl
              rw [hskip, ih (Nat.succ.inj h), List.findIdx?_cons]
              cases rest.findIdx? fun arm => arm.test.isNone <;> rfl

theorem Target.Does.of_map {R W : Type} {T : Target R W} {σ : State R (Frame R W)} {α β : Type}
    {x : Except Failure α} {f : α → β} {post : β → Prop} (h : T.Does b σ (x.map f) post) :
    T.Does b σ x fun a => post (f a) := by
  cases x with
  | ok a => exact h
  | error e => exact h

/-- From the builder, the arms of a switch are lowered. -/
def ArmsFrom (c : Context) (newInstance : String → Lower Temp) (Γ : TyEnv) (b₀ : Builder)
    (done : String) (labels : List String) (arms : List SwitchArm) (b : Builder) : Prop :=
  ∃ b', Runs c (lowerArms newInstance done labels arms) b () b' ∧
    ArmsGo Γ b₀ done labels b b' fun fuel i ρ => execArms true fuel i arms ρ

theorem ArmsWellTyped.test {ret τ : Ty} {loop : Bool} {arms : List SwitchArm}
    (h : ArmsWellTyped ret loop τ Γ arms) (labels : List String) :
    ∀ p ∈ armTests arms labels, p.2.HasTy Γ τ := by
  induction arms generalizing labels with
  | nil =>
      intro p hp
      rw [armTests, List.zip_nil_right] at hp
      cases hp
  | cons arm rest ih =>
      obtain ⟨span, test, body, falls⟩ := arm
      rw [ArmsWellTyped] at h
      intro p hp
      cases labels with
      | nil => cases hp
      | cons label labels =>
          cases test with
          | none => exact ih h.2.2 labels p hp
          | some e =>
              rcases List.mem_cons.1 hp with rfl | hp
              · exact h.1 e rfl
              · exact ih h.2.2 labels p hp

/-- How a switch runs: the tests find a label, and control goes on from there. -/
theorem does_switch {R W : Type} {T : Target R W} {σ : State R (Frame R W)} {ρ : Env} {span : Span}
    {e : Expr} {arms : List SwitchArm} {τ : Ty} {value : Temp} {done : String}
    {labels : List String} {b₁ : Builder} {fuel : Nat} (hb : b.WF) (he : e.HasTy Γ τ)
    (hcode : Computes Γ b b₁ value (e.eval true)) (hF : Extends T.function b₁)
    (hlength : labels.length = arms.length)
    (htests : ∀ {σ₁ v}, Tracks Γ b.scopes σ₁ ρ → σ₁.temps value = some (.scalar v) → v.ty = τ →
      T.Does b₁ σ₁ (firstLabel ρ v (armTests arms labels)) fun label? => ∃ σ₂,
        T.ReachesLabel b₁ σ₁ (label?.getD (defaultLabel arms labels done)) σ₂ ∧
          Tracks Γ b.scopes σ₂ ρ)
    (harms : ∀ {i label σ₁ σ₂}, labels[i]? = some label → T.ReachesLabel b₁ σ₁ label σ₂ →
      Tracks Γ b.scopes σ₂ ρ → T.Does b₁ σ₁ (execArms true fuel i arms ρ)
        (T.GoesTo b₁ σ₁ b.jumps done (Tracks Γ b.scopes)))
    (hσ : Tracks Γ b.scopes σ ρ) :
    T.Does b σ ((Stmt.switch span e arms).exec true fuel ρ)
      (T.GoesTo b σ b.jumps done (Tracks Γ b.scopes)) := by
  rw [Stmt.exec]
  refine Target.Does.bind ((hcode.does T σ ρ hF hσ.vars hσ.types).mono fun v hv hg => ?_)
  obtain ⟨σ₁, hreach, hvalue, hu⟩ := hg
  have hfound := htests (hσ.undisturbed hb hu) hvalue (he.eval hσ.types hv)
  rw [firstLabel_armTests hlength] at hfound
  refine hreach.does (Target.Does.bind (Target.Does.bind (hfound.of_map.mono fun i? hi? hgoto => ?_)))
  obtain ⟨σ₂, hgoto, hσ₂⟩ := hgoto
  cases i? with
  | some i =>
      have hget := List.getElem?_eq_getElem (l := labels) (hlength ▸ lt_of_firstMatch hi?)
      simp only [Option.bind_some, hget, Option.getD_some] at hgoto
      exact (harms hget hgoto hσ₂).mono fun r _ hr => hreach.goesTo hr
  | none =>
      simp only [Option.bind_none, Option.getD_none, defaultLabel_eq hlength] at hgoto
      cases hfind : arms.findIdx? fun arm => arm.test.isNone with
      | some j =>
          have hj : j < arms.length := (List.findIdx?_eq_some_iff_findIdx_eq.1 hfind).1
          have hget := List.getElem?_eq_getElem (l := labels) (hlength ▸ hj)
          simp only [hfind, Option.bind_some, hget, Option.getD_some] at hgoto
          exact (harms hget hgoto hσ₂).mono fun r _ hr => hreach.goesTo hr
      | none =>
          simp only [hfind, Option.bind_none, Option.getD_none] at hgoto
          exact ⟨σ₂, hreach.label hgoto, hσ₂⟩

variable (c newInstance) in
/-- The code of a switch: its value, its tests, its arms. -/
theorem lowerStmt_switch (span : Span) {e : Expr} {arms : List SwitchArm} {ret τ : Ty} {loop : Bool}
    (hb : b.Ready) (hnames : Named Γ b.scopes) (he : e.HasTy Γ τ)
    (harmsTy : ArmsWellTyped ret loop τ Γ arms)
    (hpart : ∀ {b₀ b' labels} done, Grown b b₀ → Written b₀ b' → labels.length = arms.length →
      (∀ l ∈ labels, Pending b₀ b' l) → labels.Nodup →
      ArmsFrom c newInstance Γ b₀ done labels arms b') :
    ∃ b', Runs c (lowerStmt newInstance (.switch span e arms)) b () b' ∧
      Body Γ b b' fun fuel ρ => (Stmt.switch span e arms).exec true fuel ρ := by
  obtain ⟨value, b₁, hrun, hcode⟩ := lowerExpr?_computes he c newInstance hb hnames
  have hready := Grown.refl hcode.grown.ready
  have htaken : Grown b₁ (b₁.takeLabel.takeLabels arms.length) := hready.takeLabel.takeLabels _
  generalize hdone : b₁.newLabel "switch_done" = done
  generalize hlabels : b₁.takeLabel.newLabels "case_body" arms.length = labels
  have hlength : labels.length = arms.length := by rw [← hlabels, Builder.length_newLabels]
  have hpendDone : Pending b₁ (b₁.takeLabel.takeLabels arms.length) done :=
    hdone ▸ (Pending.of_takeLabel hready rfl).step
      ((Grown.refl hready.takeLabel.ready).takeLabels _).step
  have hdoneMem : done ∉ labels := by
    intro hmem
    rw [← hlabels] at hmem
    have hlt := nextLabel_lt_of_mem_newLabels rfl _ hmem
    rw [← hdone, Builder.newLabel, labelNumber_append rfl] at hlt
    exact Nat.lt_irrefl _ hlt
  have hpendLabels : ∀ l ∈ labels, Pending b₁ (b₁.takeLabel.takeLabels arms.length) l :=
    hlabels ▸ pending_newLabels hready.takeLabel rfl _
  obtain ⟨b₂, hrun₂, hwritten, htests⟩ := lowerTests_goes c newInstance
    (defaultLabel arms labels done) (armTests arms labels)
    (ArmsWellTyped.test harmsTy labels) htaken.ready
    (by rw [htaken.scopes, hcode.grown.scopes]; exact hnames) hcode.lt
  obtain ⟨b₃, hrun₃, harms⟩ := hpart done hcode.grown (htaken.toWritten.trans hwritten)
    hlength (fun l hl => (hpendLabels l hl).step hwritten.step) (hlabels ▸ nodup_newLabels rfl _)
  have hpend : Pending b₁ b₃ done := harms.pending (hpendDone.step hwritten.step) hdoneMem
  have hend : Grown b₁ (b₃.start done) := harms.written.start hpend
  refine ⟨b₃.start done, ?_, hcode.grown.toWritten.trans hend.toWritten,
    fun T fuel σ ρ hF hσ => ?_⟩
  · rw [lowerStmt]
    refine (runs_lowerExpr hrun).bind ((runs_freshLabel _).bind ((runs_freshLabels _ _).bind ?_))
    rw [hdone, hlabels]
    exact hrun₂.bind (hrun₃.bind (runs_startBlock _))
  have hFarms := hF.of_start
  have hFtests := harms.back _ hFarms
  have hdoes : T.Does b σ ((Stmt.switch span e arms).exec true fuel ρ)
      (T.GoesTo b σ b.jumps done (Tracks Γ b.scopes)) := does_switch hb.wf he hcode
    (hwritten.step.back _ hFtests) hlength
    (fun {σ₁ v} hσ₁ => by
      rw [← hcode.grown.scopes] at hσ₁ ⊢
      exact htests T hFtests hσ₁)
    (fun {i label σ₁ σ₂} hget hgoto hσ₂ => by
      rw [← hcode.grown.scopes] at hσ₂ ⊢
      rw [← hcode.grown.jumps]
      exact harms.does T fuel i hFarms hget hgoto hσ₂) hσ
  exact hdoes.mono fun r _ hr => hr.start (Target.starts hpend.fresh) rfl

end ProtoScript.Lowering
