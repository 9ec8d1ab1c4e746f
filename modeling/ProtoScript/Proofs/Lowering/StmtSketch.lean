import ProtoScript.Proofs.Lowering.ExprSketch
import ProtoScript.Proofs.Lowering.StmtMoves

set_option autoImplicit false

/-!
# Claims about statements

A statement is left at its end, by a `break` or by a `continue`; what holds there are its exits (`Exits`).
`Zone.Leads` says that wherever the claim of a zone holds in front of a statement, it can be written so that
the law is obeyed, and leads to its exits. There is one rule for each kind of statement, which takes what it
needs of the bodies in it as hypotheses: an invariant for a loop, the same claim at the labels of all arms of
a switch, and a claim for the handler of a `try` region that holds however little of its body has run.

Where a body begins is said by the runs that come before it (`Reached`), so that the rules can be used along
a way through a function.
-/

namespace ProtoScript.Lowering

open Ir

variable {H : Type} {α β : Type}

/-- If no test holds, control goes to one of the arms, or behind a switch that has no default arm. -/
theorem defaultLabel_cases {arms : List SwitchArm} {labels : List String} (done : String)
    (hlength : labels.length = arms.length) :
    defaultLabel arms labels done ∈ labels ∨
      defaultLabel arms labels done = done ∧ ∀ arm ∈ arms, arm.test.isSome := by
  unfold defaultLabel
  generalize hfind : List.findSome? _ (labels.zip arms) = found
  cases found with
  | some label =>
      left
      obtain ⟨⟨l, arm⟩, hzip, heq⟩ := List.exists_of_findSome?_eq_some hfind
      dsimp only at heq
      split at heq
      · cases heq
        exact (List.of_mem_zip hzip).1
      · cases heq
  | none =>
      refine .inr ⟨rfl, fun arm harm => ?_⟩
      obtain ⟨i, hi, rfl⟩ := List.mem_iff_getElem.1 harm
      have hmem : (labels[i], arms[i]) ∈ labels.zip arms :=
        List.mem_iff_getElem.2 ⟨i, by simp [hi, hlength], by simp⟩
      have hnone := List.findSome?_eq_none_iff.1 hfind _ hmem
      dsimp only at hnone
      split at hnone
      · cases hnone
      · rename_i htest
        simpa [Option.isSome_iff_ne_none] using htest

/-- What holds behind a statement, and where its jumps lead. -/
structure Exits (H : Type) where
  next : H → Prop
  brk : H → Prop
  cont : H → Prop

/-- The claims at the labels that jumps go to are those of the exits. -/
structure Sketch.Jumps (s : Sketch H) (E : Exits H) : Prop where
  brk : ∀ t ∈ s.builder.jumps.head?, (t.breakLabel, E.brk) ∈ s.claims
  cont : ∀ l ∈ s.builder.jumps.findSome? JumpTargets.continueLabel, (l, E.cont) ∈ s.claims

/-- The builder inside a scope of its own. -/
def Builder.enter (b : Builder) : Builder := b.withScopes ([] :: b.scopes)

/-- The builder inside a loop or switch. -/
def Builder.looping (b : Builder) (breakLabel : String) (continueLabel : Option String) : Builder :=
  b.jumpingTo (⟨breakLabel, continueLabel, b.tryDepth⟩ :: b.jumps)

/-- The builders that a step comes to from builders with the property, seen in some way. -/
def Reached (c : Context) (P : Builder → Prop) (m : Lower α) (view : α → Builder → Builder)
    (b' : Builder) : Prop :=
  ∃ b a b₁, P b ∧ Runs c m b a b₁ ∧ b' = view a b₁

/-- A `for` loop behind its first statement. -/
def lowerForRest (ni : String → Lower Temp) (e : Option Expr) (update : Option Stmt) (body : List Stmt) :
    Lower Unit := do
  let labels ← openForStep ni e body
  lowerStmt? ni update
  jump labels.condLabel
  startBlock labels.done

namespace Zone

/-- The zone with another claim. -/
def claiming (Z : Zone H) (A : H → Prop) : Zone H := { Z with claim := A }

/-- The zone inside a scope of its own. -/
def inner (Z : Zone H) : Zone H := { Z with scopes := [] :: Z.scopes }

/-- The sketch is within the zone, and its jumps lead to the exits. -/
structure Inside (Z : Zone H) (E : Exits H) (s : Sketch H) : Prop extends Z.Within s where
  jumps : s.Jumps E

/-- From every builder with the property, wherever the claim of the zone holds, the statement leads to the
exits. -/
def Leads (law : Law H) (c : Context) (Z : Zone H) (E : Exits H) (P : Builder → Prop) (m : Lower Unit) :
    Prop :=
  ∀ s, Z.Inside E s → s.At Z.claim → P s.builder → Draws law c s m fun _ s' => s'.Ends E.next

variable {law : Law H} {c : Context} {Z : Zone H} {E : Exits H} {P : Builder → Prop} {s : Sketch H}
  {m : Lower α} {A B : H → Prop} {ni : String → Lower Temp}

theorem Inside.along {Q : α → Sketch H → Prop} (hs : Z.Inside E s) (hm : Steady m)
    (h : Draws law c s m Q) : Draws law c s m fun a s' => Z.Inside E s' ∧ Q a s' := by
  refine ((hs.toWithin.along hm h).steady hm).mono fun a s' hgrows hQ => ?_
  obtain ⟨hsame, hw, hQ⟩ := hQ
  refine ⟨⟨hw, ?_, ?_⟩, hQ⟩
  · intro t ht
    rw [hsame.jumps] at ht
    exact hgrows.claims (hs.jumps.brk t ht)
  · intro l hl
    rw [hsame.jumps] at hl
    exact hgrows.claims (hs.jumps.cont l hl)

/-! ## Between the parts of a statement -/

theorem Inside.expr {e : Expr} (hs : Z.Inside E s) (hat : s.At A) (hA : (Z.claiming A).Stable law)
    (hni : Inert law c ni) (he : e.Leaves ((Z.claiming A).Readable law)) :
    Draws law c s (lowerExpr ni e) fun t s' => Z.Inside E s' ∧ s'.At A ∧ t < s'.builder.nextTemp := by
  have hholds : (Z.claiming A).Holds s := ⟨⟨hs.nextTemp, hs.used, hs.scopes⟩, hat⟩
  have hkeeps := keeps_lowerExpr hA (hni.keeps hA) he s hholds
  refine (hs.along (steady_lowerExpr hni.steady e) hkeeps).mono fun t s' _ h => ?_
  exact ⟨h.1, h.2.1.point, h.2.2 t List.mem_cons_self⟩

theorem Inside.label {stem : String} (hs : Z.Inside E s) (hat : s.Ends A) (hstem : isStem stem)
    (B : H → Prop) : Draws law c s (freshLabel stem) fun l s' =>
      Z.Inside E s' ∧ (l, B) ∈ s'.claims ∧ s'.builder.ended = s.builder.ended ∧ s'.Ends A :=
  hs.along (steady_freshLabel stem) (draws_freshLabel hstem B hat)

theorem Inside.jump {label : String} (hs : Z.Inside E s) (hends : s.Ends A)
    (hlabel : (label, A) ∈ s.claims) :
    Draws law c s (Lowering.jump label) fun _ s' => Z.Inside E s' ∧ s'.Closed :=
  hs.along (steady_jump label) (draws_jump hends hlabel)

theorem Inside.branch {cond : Temp} {l l' : String} {B' : H → Prop} (hs : Z.Inside E s) (hat : s.At A)
    (hl : (l, B) ∈ s.claims) (hl' : (l', B') ∈ s.claims) (hB : ∀ x, A x → B x) (hB' : ∀ x, A x → B' x) :
    Draws law c s (endWith (.branch cond l l')) fun _ s' => Z.Inside E s' ∧ s'.Closed :=
  hs.along (steady_endWith _) (draws_branch hat hl hl' hB hB')

theorem Inside.start {label : String} (hs : Z.Inside E s) (hclosed : s.Closed)
    (hlabel : (label, A) ∈ s.claims) :
    Draws law c s (startBlock label) fun _ s' => Z.Inside E s' ∧ s'.At A :=
  hs.along (steady_startBlock label) (draws_startBlock hclosed hlabel)

/-- Control goes on to a label, and the block of the label is started. -/
theorem Inside.pass {label : String} (hs : Z.Inside E s) (hends : s.Ends A)
    (hlabel : (label, A) ∈ s.claims) :
    Draws law c s (do Lowering.jump label; startBlock label) fun _ s' => Z.Inside E s' ∧ s'.At A :=
  (hs.jump hends hlabel).bind fun _ _ hgrows h => h.1.start h.2 (hgrows.claims hlabel)

/-- A step in a scope of its own. -/
theorem Inside.scope {m : Lower Unit} (hs : Z.Inside E s) (hat : s.At A) (hm : Scoped m)
    (h : Z.inner.Inside E s.inScope → s.inScope.At A → Draws law c s.inScope m fun _ s' => s'.Ends B) :
    Draws law c s (inScope m) fun _ s' => Z.Inside E s' ∧ s'.Ends B := by
  refine hs.along hm.inScope (Draws.inScope (P := fun _ s' => s'.Ends B) (h ?_ ?_) fun _ _ _ h => h)
  · exact ⟨⟨hs.nextTemp, hs.used, congrArg (List.cons []) hs.scopes⟩, hs.jumps.brk, hs.jumps.cont⟩
  · exact ⟨hat.isOpen, hat.holds⟩

/-- A body in a scope of its own. -/
theorem Inside.body {m : Lower Unit} {P' : Builder → Prop} (hs : Z.Inside E s) (hat : s.At Z.claim)
    (hm : Scoped m) (hbody : Z.inner.Leads law c E P' m) (hP' : P' s.builder.enter) :
    Draws law c s (inScope m) fun _ s' => Z.Inside E s' ∧ s'.Ends E.next :=
  hs.scope hat hm fun hs' hat' => hbody s.inScope hs' hat' hP'

/-- The body of a loop, in a scope of its own. -/
theorem Inside.loop {m : Lower Unit} {D : Exits H} {P' : Builder → Prop} {done again : String}
    (hs : Z.Inside E s) (hat : s.At Z.claim) (hm : Scoped m) (hdone : (done, D.brk) ∈ s.claims)
    (hagain : (again, D.cont) ∈ s.claims) (hbody : Z.inner.Leads law c D P' m)
    (hP' : P' (s.builder.looping done (some again)).enter) :
    Draws law c s (withJumps done (some again) (inScope m)) fun _ s' =>
      Z.Inside E s' ∧ s'.Ends D.next := by
  refine hs.along (hm.inScope.withJumps _ _) (Draws.withJumps (P := fun _ s' => s'.Ends D.next) ?_
    fun _ _ _ h => h)
  have hloop : Z.Inside D (s.jumpingTo done (some again)) := by
    refine ⟨⟨hs.nextTemp, hs.used, hs.scopes⟩, ?_, ?_⟩
    · rintro t ⟨⟩
      exact hdone
    · rintro l ⟨⟩
      exact hagain
  exact (hloop.body ⟨hat.isOpen, hat.holds⟩ hm hbody hP').mono fun _ _ _ h => h.2

/-- The body of an arm of a switch, in a scope of its own. -/
theorem Inside.arm {m : Lower Unit} {D : Exits H} {P' : Builder → Prop} {done : String}
    (hs : Z.Inside E s) (hat : s.At Z.claim) (hm : Scoped m) (hdone : (done, D.brk) ∈ s.claims)
    (hcont : D.cont = E.cont) (hbody : Z.inner.Leads law c D P' m)
    (hP' : P' (s.builder.looping done none).enter) :
    Draws law c s (withJumps done none (inScope m)) fun _ s' => Z.Inside E s' ∧ s'.Ends D.next := by
  refine hs.along (hm.inScope.withJumps _ _) (Draws.withJumps (P := fun _ s' => s'.Ends D.next) ?_
    fun _ _ _ h => h)
  have harm : Z.Inside D (s.jumpingTo done none) := by
    refine ⟨⟨hs.nextTemp, hs.used, hs.scopes⟩, ?_, fun l hl => ?_⟩
    · rintro t ⟨⟩
      exact hdone
    · rw [hcont]
      exact hs.jumps.cont l hl
  exact (harm.body ⟨hat.isOpen, hat.holds⟩ hm hbody hP').mono fun _ _ _ h => h.2

/-- The statement before ends, and the block behind is started. -/
theorem Inside.finish {label : String} (hs : Z.Inside E s) (hends : s.Ends E.next)
    (hlabel : (label, E.next) ∈ s.claims) :
    Draws law c s (do Lowering.jump label; startBlock label) fun _ s' => s'.Ends E.next :=
  (hs.pass hends hlabel).mono fun _ _ _ h => h.2.ends

/-! ## Choices -/

section

variable {e : Expr} (hZ : Z.Stable law) (hni : Inert law c ni) (he : e.Leaves (Z.Readable law))

include hZ hni he

theorem Inside.openIf (hs : Z.Inside E s) (hat : s.At Z.claim) (hskip : ∀ x, Z.claim x → E.next x) :
    Draws law c s (openIf ni e) fun done s' =>
      Z.Inside E s' ∧ s'.At Z.claim ∧ (done, E.next) ∈ s'.claims := by
  refine (hs.expr hat hZ hni he).bind fun cond s₁ _ ⟨hs₁, hat₁, _⟩ => ?_
  refine (hs₁.label hat₁.ends rfl Z.claim).bind fun thenLabel s₂ _ ⟨hs₂, hthen, hsame₂, hends₂⟩ => ?_
  refine (hs₂.label hends₂ rfl E.next).bind fun done s₃ hgrows₃ ⟨hs₃, hdone, hsame₃, hends₃⟩ => ?_
  have hat₃ := hends₃.at (hsame₃.trans (hsame₂.trans hat₁.isOpen))
  have hthen₃ := hgrows₃.claims hthen
  refine (hs₃.branch hat₃ hthen₃ hdone (fun _ hx => hx) hskip).bind fun _ s₄ hgrows₄ ⟨hs₄, hclosed⟩ => ?_
  refine (hs₄.start hclosed (hgrows₄.claims hthen₃)).bind fun _ s₅ hgrows₅ ⟨hs₅, hat₅⟩ => draws_pure ?_
  exact ⟨hs₅, hat₅, hgrows₅.claims (hgrows₄.claims hdone)⟩

theorem Inside.openIfElse (hs : Z.Inside E s) (hat : s.At Z.claim) :
    Draws law c s (openIfElse ni e) fun r s' => Z.Inside E s' ∧ s'.At Z.claim ∧
      (r.1, Z.claim) ∈ s'.claims ∧ (r.2, E.next) ∈ s'.claims := by
  refine (hs.expr hat hZ hni he).bind fun cond s₁ _ ⟨hs₁, hat₁, _⟩ => ?_
  refine (hs₁.label hat₁.ends rfl Z.claim).bind fun thenLabel s₂ _ ⟨hs₂, hthen, hsame₂, hends₂⟩ => ?_
  refine (hs₂.label hends₂ rfl E.next).bind fun done s₃ hgrows₃ ⟨hs₃, hdone, hsame₃, hends₃⟩ => ?_
  refine (hs₃.label hends₃ rfl Z.claim).bind
    fun elseLabel s₄ hgrows₄ ⟨hs₄, helse, hsame₄, hends₄⟩ => ?_
  have hat₄ := hends₄.at (hsame₄.trans (hsame₃.trans (hsame₂.trans hat₁.isOpen)))
  have hthen₄ := hgrows₄.claims (hgrows₃.claims hthen)
  refine (hs₄.branch hat₄ hthen₄ helse (fun _ hx => hx) fun _ hx => hx).bind
    fun _ s₅ hgrows₅ ⟨hs₅, hclosed⟩ => ?_
  refine (hs₅.start hclosed (hgrows₅.claims hthen₄)).bind fun _ s₆ hgrows₆ ⟨hs₆, hat₆⟩ => draws_pure ?_
  have hgrows := hgrows₅.trans hgrows₆
  exact ⟨hs₆, hat₆, hgrows.claims helse, hgrows.claims (hgrows₄.claims hdone)⟩

theorem leads_ifThen {sp : Span} {body : List Stmt} (hskip : ∀ x, Z.claim x → E.next x)
    (hbody : Z.inner.Leads law c E (Reached c P (Lowering.openIf ni e) fun _ b => b.enter)
      (lowerStmts ni body)) :
    Z.Leads law c E P (lowerStmt ni (.ifThen sp e body)) := by
  intro s hs hat hP
  rw [lowerStmt_ifThen_eq]
  refine (hs.openIf hZ hni he hat hskip).runs.bind fun done s₁ _ ⟨hrun, hs₁, hat₁, hdone⟩ => ?_
  refine (hs₁.body hat₁ (scoped_lowerStmts hni.steady body) hbody
    ⟨_, _, _, hP, hrun, rfl⟩).bind fun _ s₂ hgrows₂ ⟨hs₂, hends₂⟩ => ?_
  exact hs₂.finish hends₂ (hgrows₂.claims hdone)

theorem leads_ifElse {sp : Span} {x y : List Stmt}
    (hx : Z.inner.Leads law c E (Reached c P (Lowering.openIfElse ni e) fun _ b => b.enter) (lowerStmts ni x))
    (hy : Z.inner.Leads law c E (Reached c P (openElse ni e x) fun _ b => b.enter) (lowerStmts ni y)) :
    Z.Leads law c E P (lowerStmt ni (.ifElse sp e x y)) := by
  intro s hs hat hP
  have hopen : Draws law c s (openElse ni e x) fun done s' =>
      Z.Inside E s' ∧ s'.At Z.claim ∧ (done, E.next) ∈ s'.claims := by
    refine (hs.openIfElse hZ hni he hat).runs.bind fun ⟨elseLabel, done⟩ s₁ _ h₁ => ?_
    obtain ⟨hrun, hs₁, hat₁, helse, hdone⟩ := h₁
    refine (hs₁.body hat₁ (scoped_lowerStmts hni.steady x) hx
      ⟨_, _, _, hP, hrun, rfl⟩).bind fun _ s₂ hgrows₂ ⟨hs₂, hends₂⟩ => ?_
    refine (hs₂.jump hends₂ (hgrows₂.claims hdone)).bind fun _ s₃ hgrows₃ ⟨hs₃, hclosed⟩ => ?_
    have hgrows := hgrows₂.trans hgrows₃
    refine (hs₃.start hclosed (hgrows.claims helse)).bind fun _ s₄ hgrows₄ ⟨hs₄, hat₄⟩ => draws_pure ?_
    exact ⟨hs₄, hat₄, (hgrows.trans hgrows₄).claims hdone⟩
  rw [lowerStmt_ifElse_eq]
  refine hopen.runs.bind fun done s₁ _ ⟨hrun, hs₁, hat₁, hdone⟩ => ?_
  refine (hs₁.body hat₁ (scoped_lowerStmts hni.steady y) hy
    ⟨_, _, _, hP, hrun, rfl⟩).bind fun _ s₂ hgrows₂ ⟨hs₂, hends₂⟩ => ?_
  exact hs₂.finish hends₂ (hgrows₂.claims hdone)

/-! ## Loops -/

/-- The claim of the zone is the invariant of the loop. -/
theorem leads_while {sp : Span} {body : List Stmt} (hdone : ∀ x, Z.claim x → E.next x)
    (hbody : Z.inner.Leads law c ⟨Z.claim, E.next, Z.claim⟩
      (Reached c P (openWhileBody ni e) fun r b => (b.looping r.2 (some r.1)).enter) (lowerStmts ni body)) :
    Z.Leads law c E P (lowerStmt ni (.while sp e body)) := by
  intro s hs hat hP
  have hopen : Draws law c s (openWhileBody ni e) fun r s' => Z.Inside E s' ∧ s'.At Z.claim ∧
      (r.1, Z.claim) ∈ s'.claims ∧ (r.2, E.next) ∈ s'.claims := by
    have hhead : Draws law c s openWhile fun r s' => Z.Inside E s' ∧ s'.At Z.claim ∧
        (r.1, Z.claim) ∈ s'.claims ∧ (r.2.1, Z.claim) ∈ s'.claims ∧ (r.2.2, E.next) ∈ s'.claims := by
      refine (hs.label hat.ends rfl Z.claim).bind fun again s₁ _ ⟨hs₁, hagain, _, hends₁⟩ => ?_
      refine (hs₁.label hends₁ rfl Z.claim).bind fun inside s₂ hgrows₂ ⟨hs₂, hinside, _, hends₂⟩ => ?_
      refine (hs₂.label hends₂ rfl E.next).bind fun done s₃ hgrows₃ ⟨hs₃, hdone, _, hends₃⟩ => ?_
      have hagain₃ := hgrows₃.claims (hgrows₂.claims hagain)
      refine (hs₃.jump hends₃ hagain₃).bind fun _ s₄ hgrows₄ ⟨hs₄, hclosed⟩ => ?_
      refine (hs₄.start hclosed (hgrows₄.claims hagain₃)).bind fun _ s₅ hgrows₅ ⟨hs₅, hat₅⟩ =>
        draws_pure ?_
      have hgrows := hgrows₄.trans hgrows₅
      exact ⟨hs₅, hat₅, hgrows.claims hagain₃, hgrows.claims (hgrows₃.claims hinside),
        hgrows.claims hdone⟩
    refine hhead.bind fun ⟨again, inside, done⟩ s₁ _ ⟨hs₁, hat₁, hagain, hinside, hexit⟩ => ?_
    refine (hs₁.expr hat₁ hZ hni he).bind fun cond s₂ hgrows₂ ⟨hs₂, hat₂, _⟩ => ?_
    refine (hs₂.branch hat₂ (hgrows₂.claims hinside) (hgrows₂.claims hexit) (fun _ hx => hx)
      hdone).bind fun _ s₃ hgrows₃ ⟨hs₃, hclosed⟩ => ?_
    have hgrows := hgrows₂.trans hgrows₃
    refine (hs₃.start hclosed (hgrows.claims hinside)).bind fun _ s₄ hgrows₄ ⟨hs₄, hat₄⟩ =>
      draws_pure ?_
    have hgrows' := hgrows.trans hgrows₄
    exact ⟨hs₄, hat₄, hgrows'.claims hagain, hgrows'.claims hexit⟩
  rw [lowerStmt_while_eq]
  refine hopen.runs.bind fun ⟨again, done⟩ s₁ _ ⟨hrun, hs₁, hat₁, hagain, hexit⟩ => ?_
  refine (hs₁.loop hat₁ (scoped_lowerStmts hni.steady body) hexit hagain hbody
    ⟨_, _, _, hP, hrun, rfl⟩).bind fun _ s₂ hgrows₂ ⟨hs₂, hends₂⟩ => ?_
  refine (hs₂.jump hends₂ (hgrows₂.claims hagain)).bind fun _ s₃ hgrows₃ ⟨hs₃, hclosed⟩ => ?_
  exact (hs₃.start hclosed (hgrows₃.claims (hgrows₂.claims hexit))).mono fun _ _ _ h => h.2.ends

end

/-- What holds at the condition of a loop that runs at least once is a matter of its own; from there control
goes back into the body or behind the loop. -/
theorem leads_doWhile {sp : Span} {body : List Stmt} {e : Expr} {C : H → Prop} (hni : Inert law c ni)
    (hC : (Z.claiming C).Stable law) (he : e.Leaves ((Z.claiming C).Readable law))
    (hagain : ∀ x, C x → Z.claim x) (hdone : ∀ x, C x → E.next x)
    (hbody : Z.inner.Leads law c ⟨C, E.next, C⟩
      (Reached c P openDo fun r b => (b.looping r.2.2 (some r.1)).enter) (lowerStmts ni body)) :
    Z.Leads law c E P (lowerStmt ni (.doWhile sp body e)) := by
  intro s hs hat hP
  have hhead : Draws law c s openDo fun r s' => Z.Inside E s' ∧ s'.At Z.claim ∧
      (r.1, C) ∈ s'.claims ∧ (r.2.1, Z.claim) ∈ s'.claims ∧ (r.2.2, E.next) ∈ s'.claims := by
    refine (hs.label hat.ends rfl Z.claim).bind fun inside s₁ _ ⟨hs₁, hinside, _, hends₁⟩ => ?_
    refine (hs₁.label hends₁ rfl C).bind fun again s₂ hgrows₂ ⟨hs₂, hagain, _, hends₂⟩ => ?_
    refine (hs₂.label hends₂ rfl E.next).bind fun done s₃ hgrows₃ ⟨hs₃, hdone, _, hends₃⟩ => ?_
    have hinside₃ := hgrows₃.claims (hgrows₂.claims hinside)
    refine (hs₃.jump hends₃ hinside₃).bind fun _ s₄ hgrows₄ ⟨hs₄, hclosed⟩ => ?_
    refine (hs₄.start hclosed (hgrows₄.claims hinside₃)).bind fun _ s₅ hgrows₅ ⟨hs₅, hat₅⟩ =>
      draws_pure ?_
    have hgrows := hgrows₄.trans hgrows₅
    exact ⟨hs₅, hat₅, hgrows.claims (hgrows₃.claims hagain), hgrows.claims hinside₃, hgrows.claims hdone⟩
  have hopen : Draws law c s (openDoTest ni body) fun r s' => Z.Inside E s' ∧ s'.At C ∧
      (r.1, Z.claim) ∈ s'.claims ∧ (r.2, E.next) ∈ s'.claims := by
    refine hhead.runs.bind fun ⟨again, inside, done⟩ s₁ _ h₁ => ?_
    obtain ⟨hrun, hs₁, hat₁, hagain, hinside, hexit⟩ := h₁
    refine (hs₁.loop hat₁ (scoped_lowerStmts hni.steady body) hexit hagain hbody
      ⟨_, _, _, hP, hrun, rfl⟩).bind fun _ s₂ hgrows₂ ⟨hs₂, hends₂⟩ => ?_
    refine (hs₂.jump hends₂ (hgrows₂.claims hagain)).bind fun _ s₃ hgrows₃ ⟨hs₃, hclosed⟩ => ?_
    have hgrows := hgrows₂.trans hgrows₃
    refine (hs₃.start hclosed (hgrows.claims hagain)).bind fun _ s₄ hgrows₄ ⟨hs₄, hat₄⟩ => draws_pure ?_
    have hgrows' := hgrows.trans hgrows₄
    exact ⟨hs₄, hat₄, hgrows'.claims hinside, hgrows'.claims hexit⟩
  rw [lowerStmt_doWhile_eq]
  refine hopen.bind fun ⟨inside, done⟩ s₁ _ ⟨hs₁, hat₁, hinside, hexit⟩ => ?_
  refine (hs₁.expr hat₁ hC hni he).bind fun cond s₂ hgrows₂ ⟨hs₂, hat₂, _⟩ => ?_
  refine (hs₂.branch hat₂ (hgrows₂.claims hinside) (hgrows₂.claims hexit) hagain hdone).bind
    fun _ s₃ hgrows₃ ⟨hs₃, hclosed⟩ => ?_
  exact (hs₃.start hclosed (hgrows₃.claims (hgrows₂.claims hexit))).mono fun _ _ _ h => h.2.ends

/-! ### Loops with a step -/

/-- What holds at the labels of a `for` loop. -/
def ForClaims (claims : Claims H) (labels : ForLabels) (I S D : H → Prop) : Prop :=
  (labels.condLabel, I) ∈ claims ∧ (labels.bodyLabel, I) ∈ claims ∧ (labels.stepLabel, S) ∈ claims ∧
    (labels.done, D) ∈ claims

theorem ForClaims.of_subset {claims claims' : Claims H} {labels : ForLabels} {I S D : H → Prop}
    (h : ForClaims claims labels I S D) (hclaims : claims ⊆ claims') : ForClaims claims' labels I S D :=
  ⟨hclaims h.1, hclaims h.2.1, hclaims h.2.2.1, hclaims h.2.2.2⟩

theorem Inside.openFor {S : H → Prop} (hs : Z.Inside E s) (hends : s.Ends Z.claim) :
    Draws law c s Lowering.openFor fun labels s' => Z.Inside E s' ∧ s'.At Z.claim ∧
      ForClaims s'.claims labels Z.claim S E.next := by
  refine (hs.label hends rfl Z.claim).bind fun again s₁ _ ⟨hs₁, hagain, _, hends₁⟩ => ?_
  refine (hs₁.label hends₁ rfl Z.claim).bind fun inside s₂ hgrows₂ ⟨hs₂, hinside, _, hends₂⟩ => ?_
  refine (hs₂.label hends₂ rfl S).bind fun step s₃ hgrows₃ ⟨hs₃, hstep, _, hends₃⟩ => ?_
  refine (hs₃.label hends₃ rfl E.next).bind fun done s₄ hgrows₄ ⟨hs₄, hdone, _, hends₄⟩ => ?_
  have hagain₄ := hgrows₄.claims (hgrows₃.claims (hgrows₂.claims hagain))
  refine (hs₄.jump hends₄ hagain₄).bind fun _ s₅ hgrows₅ ⟨hs₅, hclosed⟩ => ?_
  refine (hs₅.start hclosed (hgrows₅.claims hagain₄)).bind fun _ s₆ hgrows₆ ⟨hs₆, hat₆⟩ => draws_pure ?_
  have hclaims : ForClaims s₄.claims ⟨again, inside, step, done⟩ Z.claim S E.next :=
    ⟨hagain₄, hgrows₄.claims (hgrows₃.claims hinside), hgrows₄.claims hstep, hdone⟩
  exact ⟨hs₆, hat₆, hclaims.of_subset (hgrows₅.trans hgrows₆).claims⟩

theorem Inside.openForBody {S : H → Prop} {e : Option Expr} (hs : Z.Inside E s) (hends : s.Ends Z.claim)
    (hZ : Z.Stable law) (hni : Inert law c ni) (he : ∀ e' ∈ e, e'.Leaves (Z.Readable law))
    (hdone : e.isSome → ∀ x, Z.claim x → E.next x) :
    Draws law c s (Lowering.openForBody ni e) fun labels s' => Z.Inside E s' ∧ s'.At Z.claim ∧
      ForClaims s'.claims labels Z.claim S E.next := by
  refine (hs.openFor hends (S := S)).bind fun labels s₁ _ ⟨hs₁, hat₁, hclaims⟩ => ?_
  cases e with
  | none =>
      refine (hs₁.jump hat₁.ends hclaims.2.1).bind fun _ s₂ hgrows₂ ⟨hs₂, hclosed⟩ => ?_
      have hclaims₂ := hclaims.of_subset hgrows₂.claims
      refine (hs₂.start hclosed hclaims₂.2.1).bind fun _ s₃ hgrows₃ ⟨hs₃, hat₃⟩ => draws_pure ?_
      exact ⟨hs₃, hat₃, hclaims₂.of_subset hgrows₃.claims⟩
  | some e =>
      dsimp only
      refine (hs₁.expr hat₁ hZ hni (he e rfl)).bind fun cond s₂ hgrows₂ ⟨hs₂, hat₂, _⟩ => ?_
      have hclaims₂ := hclaims.of_subset hgrows₂.claims
      refine (hs₂.branch hat₂ hclaims₂.2.1 hclaims₂.2.2.2 (fun _ hx => hx) (hdone rfl)).bind
        fun _ s₃ hgrows₃ ⟨hs₃, hclosed⟩ => ?_
      have hclaims₃ := hclaims₂.of_subset hgrows₃.claims
      refine (hs₃.start hclosed hclaims₃.2.1).bind fun _ s₄ hgrows₄ ⟨hs₄, hat₄⟩ => draws_pure ?_
      exact ⟨hs₄, hat₄, hclaims₃.of_subset hgrows₄.claims⟩

/-- The claim of the zone is the invariant of the loop; the step leads from what holds at its label back to
the invariant. Jumps in the step are jumps out of the loops around. -/
theorem draws_forRest {S : H → Prop} {e : Option Expr} {update : Option Stmt} {body : List Stmt}
    (hZ : Z.Stable law) (hni : Inert law c ni) (he : ∀ e' ∈ e, e'.Leaves (Z.Readable law))
    (hdone : e.isSome → ∀ x, Z.claim x → E.next x)
    (hbody : Z.inner.Leads law c ⟨S, E.next, S⟩
      (Reached c P (Lowering.openForBody ni e) fun r b => (b.looping r.done (some r.stepLabel)).enter)
      (lowerStmts ni body))
    (hupdate : (Z.claiming S).Leads law c ⟨Z.claim, E.brk, E.cont⟩
      (Reached c P (openForStep ni e body) fun _ b => b) (lowerStmt? ni update))
    (hs : Z.Inside E s) (hends : s.Ends Z.claim) (hP : P s.builder) :
    Draws law c s (lowerForRest ni e update body) fun _ s' => s'.Ends E.next := by
  have hstep : Draws law c s (openForStep ni e body) fun labels s' => Z.Inside E s' ∧ s'.At S ∧
      ForClaims s'.claims labels Z.claim S E.next := by
    refine (hs.openForBody hends hZ hni he hdone (S := S)).runs.bind fun labels s₁ _ h₁ => ?_
    obtain ⟨hrun, hs₁, hat₁, hclaims⟩ := h₁
    refine (hs₁.loop hat₁ (scoped_lowerStmts hni.steady body) hclaims.2.2.2 hclaims.2.2.1 hbody
      ⟨_, _, _, hP, hrun, rfl⟩).bind fun _ s₂ hgrows₂ ⟨hs₂, hends₂⟩ => ?_
    have hclaims₂ := hclaims.of_subset hgrows₂.claims
    refine (hs₂.jump hends₂ hclaims₂.2.2.1).bind fun _ s₃ hgrows₃ ⟨hs₃, hclosed⟩ => ?_
    have hclaims₃ := hclaims₂.of_subset hgrows₃.claims
    refine (hs₃.start hclosed hclaims₃.2.2.1).bind fun _ s₄ hgrows₄ ⟨hs₄, hat₄⟩ => draws_pure ?_
    exact ⟨hs₄, hat₄, hclaims₃.of_subset hgrows₄.claims⟩
  refine hstep.runs.bind fun labels s₁ _ ⟨hrun, hs₁, hat₁, hclaims⟩ => ?_
  have hs₁' : (Z.claiming S).Inside ⟨Z.claim, E.brk, E.cont⟩ s₁ :=
    ⟨⟨hs₁.nextTemp, hs₁.used, hs₁.scopes⟩, hs₁.jumps.brk, hs₁.jumps.cont⟩
  refine (hupdate s₁ hs₁' hat₁ ⟨_, _, _, hP, hrun, rfl⟩).bind fun _ s₂ hgrows₂ hends₂ => ?_
  have hclaims₂ := hclaims.of_subset hgrows₂.claims
  refine (draws_jump hends₂ hclaims₂.1).bind fun _ s₃ hgrows₃ hclosed => ?_
  exact (draws_startBlock hclosed (hgrows₃.claims hclaims₂.2.2.2)).mono fun _ _ _ h => h.ends

/-! ## Switches -/

/-- The labels of all arms of a switch claim the same. -/
theorem Inside.labels {stem : String} (hs : Z.Inside E s) (hat : s.Ends A) (hstem : isStem stem)
    (B : H → Prop) (n : Nat) : Draws law c s (freshLabels stem n) fun ls s' =>
      Z.Inside E s' ∧ ls.length = n ∧ (∀ l ∈ ls, (l, B) ∈ s'.claims) ∧
        s'.builder.ended = s.builder.ended ∧ s'.Ends A := by
  induction n generalizing s with
  | zero => exact draws_pure ⟨hs, rfl, nofun, rfl, hat⟩
  | succ n ih =>
      refine (hs.label hat hstem B).bind fun l s₁ _ ⟨hs₁, hl, hsame₁, hends₁⟩ => ?_
      refine (ih hs₁ hends₁).bind fun ls s₂ hgrows₂ ⟨hs₂, hlen, hls, hsame₂, hends₂⟩ => draws_pure ?_
      refine ⟨hs₂, congrArg Nat.succ hlen, fun l' hl' => ?_, hsame₂.trans hsame₁, hends₂⟩
      rcases List.mem_cons.1 hl' with rfl | hl'
      · exact hgrows₂.claims hl
      · exact hls l' hl'

/-- All tests are written where the claim of the zone holds, and it holds wherever they lead. -/
theorem Inside.tests {value : Temp} {otherwise : String} {tests : List (String × Expr)}
    {D : H → Prop} (hs : Z.Inside E s) (hat : s.At Z.claim) (hZ : Z.Stable law) (hni : Inert law c ni)
    (hreads : ∀ test ∈ tests, test.2.Leaves (Z.Readable law))
    (hlabels : ∀ test ∈ tests, (test.1, Z.claim) ∈ s.claims) (hotherwise : (otherwise, D) ∈ s.claims)
    (hD : ∀ x, Z.claim x → D x) :
    Draws law c s (lowerTests ni value otherwise tests) fun _ s' => Z.Inside E s' ∧ s'.Closed := by
  have htest : ∀ {s : Sketch H} {e : Expr}, Z.Inside E s → s.At Z.claim → e.Leaves (Z.Readable law) →
      Draws law c s (do
        let t ← lowerExpr ni e
        emitValue (.binary · .equal value t)) fun _ s' => Z.Inside E s' ∧ s'.At Z.claim := by
    intro s e hs hat he
    refine (hs.expr hat hZ hni he).bind fun t s₁ _ ⟨hs₁, hat₁, _⟩ => ?_
    have hholds : Z.Holds s₁ := ⟨hs₁.toWithin, hat₁⟩
    refine (hs₁.along (steady_emitValue _) (keeps_emitValue hZ (fun _ => rfl) (fun _ => rfl) s₁
      hholds)).mono fun _ _ _ h => ⟨h.1, h.2.1.point⟩
  induction tests generalizing s with
  | nil =>
      refine hs.along (steady_jump otherwise) (draws_endWith hat fun x hx => ⟨trivial, fun l hl => ?_⟩)
      rw [List.mem_singleton.1 hl]
      exact ⟨D, hotherwise, hD x hx⟩
  | cons test rest ih =>
      obtain ⟨label, e⟩ := test
      obtain ⟨he, hreads⟩ := List.forall_mem_cons.1 hreads
      obtain ⟨hlabel, hlabels⟩ := List.forall_mem_cons.1 hlabels
      cases rest with
      | nil =>
          have hlast := (htest hs hat he).bind (f := fun same => endWith (.branch same label otherwise))
            fun same s₁ hgrows₁ ⟨hs₁, hat₁⟩ => hs₁.branch hat₁ (hgrows₁.claims hlabel)
              (hgrows₁.claims hotherwise) (fun _ hx => hx) hD
          rwa [bind_assoc] at hlast
      | cons next rest =>
          have hfirst : Draws law c s (lowerTest ni value label e) fun _ s' =>
              Z.Inside E s' ∧ s'.At Z.claim := by
            have hsame := (htest hs hat he).bind (f := fun same => do
                let next ← freshLabel "case_test"
                endWith (.branch same label next)
                startBlock next) (R := fun _ s' => Z.Inside E s' ∧ s'.At Z.claim)
              fun same s₁ hgrows₁ ⟨hs₁, hat₁⟩ => by
                refine (hs₁.label hat₁.ends rfl Z.claim).bind
                  fun other s₂ hgrows₂ ⟨hs₂, hother, hsame₂, hends₂⟩ => ?_
                refine (hs₂.branch (hends₂.at (hsame₂.trans hat₁.isOpen))
                  (hgrows₂.claims (hgrows₁.claims hlabel)) hother (fun _ hx => hx) fun _ hx => hx).bind
                  fun _ s₃ hgrows₃ ⟨hs₃, hclosed⟩ => ?_
                exact hs₃.start hclosed (hgrows₃.claims hother)
            rwa [bind_assoc] at hsame
          rw [lowerTests_cons_cons]
          refine hfirst.bind fun _ s₁ hgrows₁ ⟨hs₁, hat₁⟩ => ?_
          exact ih hs₁ hat₁ hreads (fun t ht => hgrows₁.claims (hlabels t ht))
            (hgrows₁.claims hotherwise)

/-- Behind a block that has ended, arms of a switch can be written: wherever the claim of the zone holds at
their labels, they lead to the exits. -/
def LeadsArms (law : Law H) (c : Context) (Z : Zone H) (E : Exits H) (P : Builder → Prop)
    (ni : String → Lower Temp) (done : String) (labels : List String) (arms : List SwitchArm) : Prop :=
  ∀ s, Z.Inside E s → s.Closed → (∀ l ∈ labels, (l, Z.claim) ∈ s.claims) → (done, E.next) ∈ s.claims →
    P s.builder → Draws law c s (lowerArms ni done labels arms) fun _ s' => Z.Inside E s' ∧ s'.Closed

theorem leadsArms_nil {done : String} {labels : List String} :
    Z.LeadsArms law c E P ni done labels [] := by
  intro s hs hclosed _ _ _
  rw [lowerArms]
  · exact draws_pure ⟨hs, hclosed⟩
  · exact nofun

/-- An arm that falls through leads to the label of the next one, if there is one. -/
theorem leadsArms_cons {done label : String} {labels : List String} {sp : Span} {test : Option Expr}
    {body : List Stmt} {falls : Bool} {rest : List SwitchArm} {N : H → Prop} (hni : Inert law c ni)
    (hN : N = if falls ∧ labels ≠ [] then Z.claim else E.next)
    (hbody : Z.inner.Leads law c ⟨N, E.next, E.cont⟩
      (Reached c P (startBlock label) fun _ b => (b.looping done none).enter) (lowerStmts ni body))
    (hrest : Z.LeadsArms law c E (Reached c P (lowerArm ni done label labels body falls) fun _ b => b) ni
      done labels rest) :
    Z.LeadsArms law c E P ni done (label :: labels) (.mk sp test body falls :: rest) := by
  intro s hs hclosed hlabels hdone hP
  obtain ⟨hlabel, hlabels⟩ := List.forall_mem_cons.1 hlabels
  have harm : Draws law c s (lowerArm ni done label labels body falls) fun _ s' =>
      Z.Inside E s' ∧ s'.Closed := by
    refine (hs.start hclosed hlabel).runs.bind fun _ s₁ hgrows₁ ⟨hrun, hs₁, hat₁⟩ => ?_
    have hdone₁ := hgrows₁.claims hdone
    refine (hs₁.arm (D := ⟨N, E.next, E.cont⟩) hat₁ (scoped_lowerStmts hni.steady body) hdone₁ rfl hbody
      ⟨_, _, _, hP, hrun, rfl⟩).bind fun _ s₂ hgrows₂ ⟨hs₂, hends₂⟩ => ?_
    have hgrows := hgrows₁.trans hgrows₂
    refine hs₂.jump hends₂ ?_
    subst hN
    cases falls with
    | false => simpa using hgrows.claims hdone
    | true =>
        cases labels with
        | nil => simpa using hgrows.claims hdone
        | cons next labels => simpa using hgrows.claims (hlabels next List.mem_cons_self)
  rw [lowerArms_cons]
  refine harm.runs.bind fun _ s₁ hgrows₁ ⟨hrun, hs₁, hclosed₁⟩ => ?_
  exact hrest s₁ hs₁ hclosed₁ (fun l hl => hgrows₁.claims (hlabels l hl)) (hgrows₁.claims hdone)
    ⟨_, _, _, hP, hrun, rfl⟩

/-- The claim of the zone is made at the labels of all arms. Without a default arm the switch may do
nothing. -/
theorem leads_switch {sp : Span} {e : Expr} {arms : List SwitchArm} (hZ : Z.Stable law)
    (hni : Inert law c ni) (he : e.Leaves (Z.Readable law))
    (htests : ∀ arm ∈ arms, ∀ t ∈ arm.test, t.Leaves (Z.Readable law))
    (hskip : (∀ arm ∈ arms, arm.test.isSome) → ∀ x, Z.claim x → E.next x)
    (harms : ∀ done labels, labels.length = arms.length →
      Z.LeadsArms law c E (fun b' => ∃ b, P b ∧ Runs c (openArms ni e arms) b (done, labels) b') ni done
        labels arms) :
    Z.Leads law c E P (lowerStmt ni (.switch sp e arms)) := by
  intro s hs hat hP
  have hopen : Draws law c s (openArms ni e arms) fun r s' => Z.Inside E s' ∧ s'.Closed ∧
      r.2.length = arms.length ∧ (∀ l ∈ r.2, (l, Z.claim) ∈ s'.claims) ∧ (r.1, E.next) ∈ s'.claims := by
    have hhead : Draws law c s (openSwitch ni e arms.length) fun r s' => Z.Inside E s' ∧ s'.At Z.claim ∧
        r.2.2.length = arms.length ∧ (∀ l ∈ r.2.2, (l, Z.claim) ∈ s'.claims) ∧
          (r.2.1, E.next) ∈ s'.claims := by
      refine (hs.expr hat hZ hni he).bind fun value s₁ _ ⟨hs₁, hat₁, _⟩ => ?_
      refine (hs₁.label hat₁.ends rfl E.next).bind fun done s₂ _ ⟨hs₂, hdone, hsame₂, hends₂⟩ => ?_
      refine (hs₂.labels hends₂ rfl Z.claim arms.length).bind fun labels s₃ hgrows₃ h₃ => draws_pure ?_
      obtain ⟨hs₃, hlength, hlabels, hsame₃, hends₃⟩ := h₃
      exact ⟨hs₃, hends₃.at (hsame₃.trans (hsame₂.trans hat₁.isOpen)), hlength, hlabels,
        hgrows₃.claims hdone⟩
    refine hhead.bind fun ⟨value, done, labels⟩ s₁ _ ⟨hs₁, hat₁, hlength, hlabels, hdone⟩ => ?_
    have hreads : ∀ test ∈ armTests arms labels, test.2.Leaves (Z.Readable law) := by
      intro test htest
      obtain ⟨⟨label, arm⟩, hzip, heq⟩ := List.mem_filterMap.1 htest
      obtain ⟨e', he', rfl⟩ := Option.map_eq_some_iff.1 heq
      exact htests arm (List.of_mem_zip hzip).2 e' he'
    have htestLabels : ∀ test ∈ armTests arms labels, (test.1, Z.claim) ∈ s₁.claims := fun test htest =>
      hlabels _ (armTests_subset arms labels (List.mem_map_of_mem htest))
    have hotherwise : ∃ D, (defaultLabel arms labels done, D) ∈ s₁.claims ∧ ∀ x, Z.claim x → D x := by
      rcases defaultLabel_cases done hlength with hmem | ⟨heq, hnone⟩
      · exact ⟨_, hlabels _ hmem, fun _ hx => hx⟩
      · rw [heq]
        exact ⟨_, hdone, hskip hnone⟩
    obtain ⟨D, hD, hclaim⟩ := hotherwise
    refine (hs₁.tests hat₁ hZ hni hreads htestLabels hD hclaim).bind fun _ s₂ hgrows₂ h₂ => draws_pure ?_
    exact ⟨h₂.1, h₂.2, hlength, fun l hl => hgrows₂.claims (hlabels l hl), hgrows₂.claims hdone⟩
  rw [lowerStmt_switch_eq]
  refine hopen.runs.bind fun ⟨done, labels⟩ s₁ _ ⟨hrun, hs₁, hclosed, hlength, hlabels, hdone⟩ => ?_
  refine (harms done labels hlength s₁ hs₁ hclosed hlabels hdone ⟨_, hP, hrun⟩).bind
    fun _ s₂ hgrows₂ ⟨_, hclosed₂⟩ => ?_
  exact (draws_startBlock hclosed₂ (hgrows₂.claims hdone)).mono fun _ _ _ h => h.ends

/-! ## Jumps -/

/-- `try` regions are closed, which breaks no stable claim. -/
theorem draws_unwindTo {depth : Nat} (hZ : Z.Stable law) (hat : s.At Z.claim) :
    Draws law c s (unwindTo depth) fun _ s' => s'.At Z.claim ∧ s'.claims = s.claims := by
  have hinner : Z.base.Inner .endTry :=
    ⟨nofun, nofun, nofun⟩
  have hmany : ∀ n, ∃ s' : Sketch H,
      s'.builder = { s.builder with code := s.builder.code ++ List.replicate n .endTry } ∧
      (s.Sound law → s'.Sound law) ∧ s.Grows s' ∧ s'.At Z.claim ∧ s'.claims = s.claims := by
    intro n
    induction n with
    | zero =>
        refine ⟨s, ?_, id, .refl s, hat, rfl⟩
        rw [List.replicate_zero, List.append_nil]
    | succ n ih =>
        obtain ⟨s', hb, hsound, hgrows, hat', hclaims⟩ := ih
        refine ⟨⟨s'.builder.emit .endTry, s'.claims, Z.claim⟩, ?_, fun hs => ?_, ?_, ⟨hat'.isOpen, ?_⟩,
          hclaims⟩
        · rw [hb]
          show Builder.emit _ _ = _
          rw [List.replicate_succ']
          simp [Builder.emit]
        · refine (hsound hs).write hat'.isOpen (fun x _ => obeys_singleton trivial rfl) fun x y hx hy => ?_
          exact hZ .endTry x y hinner hy (hat'.holds x hx)
        · exact hgrows.trans ⟨List.Subset.refl _, Nat.le_refl _, List.Subset.refl _⟩
        · exact fun x hx => hx
  obtain ⟨s', hb, hsound, hgrows, hat', hclaims⟩ := hmany (s.builder.tryDepth - depth)
  refine draws_of_runs () s' ?_ hsound hgrows ⟨hat', hclaims⟩
  rw [hb]
  exact runs_modify _

/-- Control leaves for a label whose claim holds. -/
theorem draws_leaveTo {depth : Nat} {label : String} (hZ : Z.Stable law) (hat : s.At Z.claim)
    (hlabel : (label, A) ∈ s.claims) (hA : ∀ x, Z.claim x → A x) :
    Draws law c s (do unwindTo depth; Lowering.jump label) fun _ s' => s'.Closed := by
  refine (draws_unwindTo hZ hat).bind fun _ s₁ _ ⟨hat₁, hclaims⟩ => ?_
  refine draws_endWith hat₁ fun x hx => ⟨trivial, fun l hl => ?_⟩
  rw [List.mem_singleton.1 hl]
  exact ⟨A, hclaims ▸ hlabel, hA x hx⟩

theorem leads_break (hZ : Z.Stable law) (hbrk : ∀ x, Z.claim x → E.brk x) (sp : Span) :
    Z.Leads law c E P (lowerStmt ni (.break sp)) := by
  intro s hs hat _
  rw [lowerStmt]
  refine (draws_get (Q := fun b s' => b = s.builder ∧ s' = s) ⟨rfl, rfl⟩).bind ?_
  rintro _ _ _ ⟨rfl, rfl⟩
  split
  · exact draws_fail _
  · rename_i t rest hjumps
    refine (draws_leaveTo hZ hat (hs.jumps.brk t ?_) hbrk).mono fun _ _ _ h => h.ends
    rw [hjumps]
    rfl

theorem leads_continue (hZ : Z.Stable law) (hcont : ∀ x, Z.claim x → E.cont x) (sp : Span) :
    Z.Leads law c E P (lowerStmt ni (.continue sp)) := by
  intro s hs hat _
  rw [lowerStmt]
  refine (draws_get (Q := fun b s' => b = s.builder ∧ s' = s) ⟨rfl, rfl⟩).bind ?_
  rintro _ _ _ ⟨rfl, rfl⟩
  split
  · exact draws_fail _
  · rename_i label depth hfind
    refine (draws_leaveTo hZ hat (hs.jumps.cont label ?_) hcont).mono fun _ _ _ h => h.ends
    rw [List.findSome?_eq_some_iff] at hfind
    obtain ⟨before, t, after, hsplit, ht, hbefore⟩ := hfind
    refine List.findSome?_eq_some_iff.2 ?_
    obtain ⟨label', hlabel, heq⟩ := Option.map_eq_some_iff.1 ht
    cases heq
    exact ⟨before, t, after, hsplit, hlabel, fun u hu => Option.map_eq_none_iff.1 (hbefore u hu)⟩

/-- A value is returned. -/
theorem leads_ret {sp : Span} {e : Expr} (hZ : Z.Stable law) (hni : Inert law c ni)
    (he : e.Leaves (Z.Readable law)) : Z.Leads law c E P (lowerStmt ni (.ret sp (some e))) := by
  intro s hs hat _
  rw [lowerStmt]
  refine (hs.expr hat hZ hni he).bind fun t s₁ _ ⟨hs₁, hat₁, _⟩ => ?_
  refine (draws_unwindTo hZ hat₁).bind fun _ s₂ _ ⟨hat₂, _⟩ => ?_
  refine (draws_endWith (t := .ret t) hat₂ fun x _ => ⟨trivial, ?_⟩).mono fun _ _ _ h => h.ends
  exact List.forall_mem_nil _

/-- No value is returned, where that may be. -/
theorem leads_retVoid {sp : Span} (hZ : Z.Stable law) (hvoid : ∀ x, Z.claim x → law.returnsNothing) :
    Z.Leads law c E P (lowerStmt ni (.ret sp none)) := by
  intro s hs hat _
  rw [lowerStmt]
  refine (draws_unwindTo hZ hat).bind fun _ s₁ _ ⟨hat₁, _⟩ => ?_
  refine (draws_endWith (t := .retVoid) hat₁ fun x hx => ⟨hvoid x hx, ?_⟩).mono fun _ _ _ h => h.ends
  exact List.forall_mem_nil _

/-- An exception is thrown, behind which control never goes on. -/
theorem draws_throw {t : Temp} (hat : s.At A) :
    Draws law c s (do emit (.throw t); endWith .unreachable) fun _ s' => s'.Closed := by
  refine (draws_emit (i := .throw t) (B := fun _ => True) hat
    (fun x _ => obeys_singleton trivial rfl) fun _ _ _ _ => trivial).runs.bind
    fun _ s₁ _ ⟨hrun, hat₁⟩ => ?_
  refine draws_endWith hat₁ fun x _ => ⟨?_, List.forall_mem_nil _⟩
  obtain ⟨_, hb⟩ := Prod.mk.inj (Except.ok.inj ((runs_emit (.throw t)).symm.trans hrun))
  show law.stops s₁.builder.code
  rw [← hb]
  exact law.stops_throw

theorem leads_throw {sp : Span} {e : Expr} (hZ : Z.Stable law) (hni : Inert law c ni)
    (he : e.Leaves (Z.Readable law)) : Z.Leads law c E P (lowerStmt ni (.throw sp e)) := by
  intro s hs hat _
  rw [lowerStmt]
  refine (hs.expr hat hZ hni he).bind fun t s₁ _ ⟨hs₁, hat₁, _⟩ => ?_
  exact (draws_throw hat₁).mono fun _ _ _ h => h.ends

/-! ## Declarations -/

/-- The zone behind the declaration of a name, from the given builder on. -/
def declaring (Z : Zone H) (b : Builder) (x v : String) (A : H → Prop) : Zone H :=
  ⟨b, A, Frames.declare x v Z.scopes⟩

/-- A variable is declared in the zone, and the builder is one behind it. -/
structure New (Z : Zone H) (v : String) (b : Builder) : Prop where
  fresh : v ∉ Z.base.used
  used : v ∈ b.used
  old : Z.base.used ⊆ b.used
  nextTemp : Z.base.nextTemp ≤ b.nextTemp

/-- Behind a declaration one is inside its zone. -/
theorem Inside.declared {s' : Sketch H} {x v : String} (hs : Z.Inside E s) (hgrows : s.Grows s')
    (hscopes : s'.builder.scopes = Frames.declare x v s.builder.scopes)
    (hjumps : s'.builder.jumps = s.builder.jumps) :
    (Z.declaring s'.builder x v A).Inside E s' := by
  refine ⟨⟨Nat.le_refl _, List.Subset.refl _, ?_⟩, ?_, ?_⟩
  · rw [hscopes, hs.scopes]
    rfl
  · intro t ht
    rw [hjumps] at ht
    exact hgrows.claims (hs.jumps.brk t ht)
  · intro l hl
    rw [hjumps] at hl
    exact hgrows.claims (hs.jumps.cont l hl)

/-- A declaration leads into the zone of its variable. -/
theorem Inside.declareThen {m : Lower String} {x : String} {B : String → H → Prop} (hs : Z.Inside E s)
    (hm : Declares m x) (h : Draws law c s m fun v s' =>
      v ∉ s.builder.used ∧ v ∈ s'.builder.used ∧ s'.At (B v)) :
    Draws law c s m fun v s' => Z.New v s'.builder ∧ (Z.declaring s'.builder x v (B v)).Inside E s' ∧
      s'.At (B v) := by
  refine (h.along (φ := fun b v b' => b'.scopes = Frames.declare x v b.scopes ∧ b'.jumps = b.jumps)
    fun v b' hrun => hm c _ v b' hrun).mono fun v s' hgrows ⟨⟨hscopes, hjumps⟩, hnew, hused, hat⟩ => ?_
  refine ⟨⟨fun hmem => hnew (hs.used hmem), hused, List.Subset.trans hs.used hgrows.used,
    Nat.le_trans hs.nextTemp hgrows.nextTemp⟩, hs.declared hgrows hscopes hjumps, hat⟩

/-- What holds behind the declaration of a variable that is given a value at once. -/
def Binding (law : Law H) (Z : Zone H) (ty : Ty) (B : String → H → Prop) : Prop :=
  ∀ v x y, v ∉ Z.base.used → Z.claim x → law.after (.varDecl v ty) x y →
    ∀ t z, law.after (.storeVar v t) y z → B v z

/-- What holds behind a declaration, and behind the initial value if there is one. -/
def Declaring (law : Law H) (Z : Zone H) (ty : Ty) (init : Option Expr) (B : String → H → Prop) : Prop :=
  if init.isSome then Z.Binding law ty B
  else ∀ v x y, v ∉ Z.base.used → Z.claim x → law.after (.varDecl v ty) x y → B v y

/-- A new variable is declared and given a value. -/
theorem draws_bind {x : String} {ty : Ty} {t : Temp} {B : String → H → Prop} (hw : Z.Within s)
    (hat : s.At Z.claim) (hB : Z.Binding law ty B) :
    Draws law c s (do let v ← declareVar x ty; emit (.storeVar v t); return v) fun v s' =>
      v ∉ s.builder.used ∧ v ∈ s'.builder.used ∧ s'.At (B v) := by
  refine (draws_declareVar (B := fun v y => ∀ t z, law.after (.storeVar v t) y z → B v z) hat
    fun v y z hv hy hz => hB v y z (fun hmem => hv (hw.used hmem)) hy hz).bind
    fun v s₁ _ ⟨hnew, hused, hat₁⟩ => ?_
  exact (draws_emit (i := .storeVar v t) hat₁ (fun y _ => obeys_singleton trivial rfl)
    fun y z hy hz => hy t z hz).bind fun _ s₂ hgrows₂ hat₂ =>
      draws_pure ⟨hnew, hgrows₂.used hused, hat₂⟩

theorem Inside.lowerDeclared {x : String} {ty : Ty} {init : Option Expr} {B : String → H → Prop}
    (hs : Z.Inside E s) (hat : s.At Z.claim) (hZ : Z.Stable law) (hni : Inert law c ni)
    (hinit : ∀ e ∈ init, e.Leaves (Z.Readable law)) (hB : Z.Declaring law ty init B) :
    Draws law c s (lowerDeclared ni x ty init) fun v s' => Z.New v s'.builder ∧
      (Z.declaring s'.builder x v (B v)).Inside E s' ∧ s'.At (B v) := by
  refine hs.declareThen (declares_lowerDeclared hni.steady x ty init) ?_
  cases init with
  | none => exact draws_declareVar hat fun v y z hv hy hz => hB v y z (fun hmem => hv (hs.used hmem)) hy hz
  | some e =>
      refine (hs.expr hat hZ hni (hinit e rfl)).bind fun t s₁ hgrows₁ ⟨hs₁, hat₁, _⟩ => ?_
      exact (draws_bind hs₁.toWithin hat₁ hB).mono fun v s₂ _ ⟨hnew, hused, hat₂⟩ =>
        ⟨fun hmem => hnew (hgrows₁.used hmem), hused, hat₂⟩

/-- A declaration with nothing behind it. -/
theorem leads_varDecl {sp : Span} {x : String} {ty : Ty} {isConst : Bool} {init : Option Expr}
    (hZ : Z.Stable law) (hni : Inert law c ni) (hinit : ∀ e ∈ init, e.Leaves (Z.Readable law))
    (hB : Z.Declaring law ty init fun _ => E.next) :
    Z.Leads law c E P (lowerStmt ni (.varDecl sp x ty isConst init)) := by
  intro s hs hat _
  rw [lowerStmt_varDecl]
  refine (hs.lowerDeclared hat hZ hni hinit hB).bind fun v s₁ _ ⟨_, _, hat₁⟩ => draws_pure hat₁.ends

/-! ## Sequences -/

/-- Statements are written as far as they can be reached. -/
theorem draws_stmtsOf {body : List Stmt} {Q : Sketch H → Prop} (hclosed : s.Closed) (hQ : Q s) :
    Draws law c s (lowerStmts ni body) fun _ s' => Q s' := by
  cases body with
  | nil =>
      rw [lowerStmts]
      exact draws_pure hQ
  | cons stmt rest =>
      rw [lowerStmts]
      refine (draws_isOpen (Q := fun isOpen s' => isOpen = false ∧ s' = s) ⟨?_, rfl⟩).bind ?_
      · obtain ⟨t, ht⟩ := Option.isSome_iff_exists.1 hclosed
        rw [ht]
        rfl
      · rintro _ _ _ ⟨rfl, rfl⟩
        exact draws_pure hQ

theorem leads_nil (hnext : ∀ x, Z.claim x → E.next x) : Z.Leads law c E P (lowerStmts ni []) := by
  intro s hs hat _
  rw [lowerStmts]
  exact draws_pure (hat.mono hnext).ends

/-- Between two statements, control may have gone elsewhere. -/
theorem Inside.rest {Z' : Zone H} {P' : Builder → Prop} {rest : List Stmt} (hs : Z'.Inside E s)
    (hends : s.Ends Z'.claim) (hrest : Z'.Leads law c E P' (lowerStmts ni rest)) (hP' : P' s.builder) :
    Draws law c s (lowerStmts ni rest) fun _ s' => s'.Ends E.next := by
  cases hended : s.builder.ended with
  | none => exact hrest s hs (hends.at hended) hP'
  | some t =>
      have hclosed : s.Closed := Option.isSome_iff_exists.2 ⟨t, hended⟩
      exact draws_stmtsOf hclosed hclosed.ends

/-- A statement that declares nothing, and those behind it. -/
theorem leads_cons {stmt : Stmt} {rest : List Stmt} {A : H → Prop} (hni : Inert law c ni)
    (hstmt : Analysis.declares stmt = false)
    (hfirst : Z.Leads law c ⟨A, E.brk, E.cont⟩ (fun b => P b ∧ b.ended = none) (lowerStmt ni stmt))
    (hrest : (Z.claiming A).Leads law c E
      (Reached c (fun b => P b ∧ b.ended = none) (lowerStmt ni stmt) fun _ b => b) (lowerStmts ni rest)) :
    Z.Leads law c E P (lowerStmts ni (stmt :: rest)) := by
  intro s hs hat hP
  rw [lowerStmts]
  refine (draws_isOpen (Q := fun isOpen s' => isOpen = true ∧ s' = s) ⟨?_, rfl⟩).bind ?_
  · rw [hat.isOpen]
    rfl
  · rintro _ _ _ ⟨rfl, rfl⟩
    have hs' : Z.Inside ⟨A, E.brk, E.cont⟩ _ := ⟨hs.toWithin, hs.jumps.brk, hs.jumps.cont⟩
    refine (hs.along (steady_lowerStmt hni.steady stmt hstmt)
      (hfirst _ hs' hat ⟨hP, hat.isOpen⟩).runs).bind fun _ s₁ _ ⟨hs₁, hrun, hends⟩ => ?_
    have hs₁' : (Z.claiming A).Inside E s₁ := ⟨⟨hs₁.nextTemp, hs₁.used, hs₁.scopes⟩, hs₁.jumps⟩
    exact hs₁'.rest hends hrest ⟨_, _, _, ⟨hP, hat.isOpen⟩, hrun, rfl⟩

/-- A declaration, and the statements behind it. -/
theorem leads_cons_varDecl {sp : Span} {x : String} {ty : Ty} {isConst : Bool} {init : Option Expr}
    {rest : List Stmt} {B : String → H → Prop} (hZ : Z.Stable law) (hni : Inert law c ni)
    (hinit : ∀ e ∈ init, e.Leaves (Z.Readable law)) (hB : Z.Declaring law ty init B)
    (hrest : ∀ v b, Z.New v b → (Z.declaring b x v (B v)).Leads law c E
      (Reached c (fun b => P b ∧ b.ended = none) (lowerStmt ni (.varDecl sp x ty isConst init)) fun _ b => b)
      (lowerStmts ni rest)) :
    Z.Leads law c E P (lowerStmts ni (.varDecl sp x ty isConst init :: rest)) := by
  intro s hs hat hP
  rw [lowerStmts]
  refine (draws_isOpen (Q := fun isOpen s' => isOpen = true ∧ s' = s) ⟨?_, rfl⟩).bind ?_
  · rw [hat.isOpen]
    rfl
  · rintro _ s' _ ⟨rfl, rfl⟩
    have hfirst : Draws law c s' (lowerStmt ni (.varDecl sp x ty isConst init)) fun _ s₁ => ∃ v,
        Z.New v s₁.builder ∧ (Z.declaring s₁.builder x v (B v)).Inside E s₁ ∧ s₁.At (B v) := by
      rw [lowerStmt_varDecl]
      exact (hs.lowerDeclared hat hZ hni hinit hB).bind fun v s₁ _ h => draws_pure ⟨v, h⟩
    refine hfirst.runs.bind fun _ s₁ _ ⟨hrun, v, hnew, hs₁, hat₁⟩ => ?_
    exact hs₁.rest hat₁.ends (hrest v _ hnew) ⟨_, _, _, ⟨hP, hat.isOpen⟩, hrun, rfl⟩

/-! ## Simple statements -/

/-- The expression of a statement may give no value. -/
theorem leads_expr {sp : Span} {e : Expr} (hZ : Z.Stable law) (hni : Inert law c ni)
    (he : e.Leaves (Z.Readable law)) (hnext : ∀ x, Z.claim x → E.next x) :
    Z.Leads law c E P (lowerStmt ni (.expr sp e)) := by
  intro s hs hat _
  rw [lowerStmt]
  refine (keeps_lowerExpr? hZ (hni.keeps hZ) e he s ⟨hs.toWithin, hat⟩).bind fun _ s₁ _ h => draws_pure ?_
  exact (h.1.point.mono hnext).ends

theorem leads_block {sp : Span} {body : List Stmt} (hni : Inert law c ni)
    (hbody : Z.inner.Leads law c E (fun b' => ∃ b, P b ∧ b' = b.enter) (lowerStmts ni body)) :
    Z.Leads law c E P (lowerStmt ni (.block sp body)) := by
  intro s hs hat hP
  rw [lowerStmt]
  exact (hs.body hat (scoped_lowerStmts hni.steady body) hbody ⟨_, hP, rfl⟩).mono fun _ _ _ h => h.2

/-- A `for` loop is written in a scope of its own. -/
theorem leads_for {sp : Span} {init : Option Stmt} {e : Option Expr} {update : Option Stmt}
    {body : List Stmt} (hni : Inert law c ni)
    (hloop : Z.inner.Leads law c E (fun b' => ∃ b, P b ∧ b' = b.enter)
      (do lowerStmt? ni init; lowerForRest ni e update body)) :
    Z.Leads law c E P (lowerStmt ni (.for sp init e update body)) := by
  intro s hs hat hP
  have hscoped : Scoped (do lowerStmt? ni init; lowerForRest ni e update body) :=
    (scoped_lowerStmt? hni.steady init).bind fun _ =>
      (steady_openForStep hni.steady e (scoped_lowerStmts hni.steady body)).scoped.bind fun _ =>
        (scoped_lowerStmt? hni.steady update).bind fun _ =>
          ((steady_jump _).bind fun _ => steady_startBlock _).scoped
  rw [lowerStmt_for_eq]
  exact (hs.body hat hscoped hloop ⟨_, hP, rfl⟩).mono fun _ _ _ h => h.2

/-! ## Assignments -/

/-- The value of an assignment is written where the claim of the zone holds, with what the target held before
if the operator needs it. -/
theorem keeps_lowerAssigned (target : Expr) {value : Expr} (op : Option BinaryOp) {current : Lower Temp}
    (hZ : Z.Stable law) (hni : Inert law c ni) (hvalue : value.Leaves (Z.Readable law))
    (hcurrent : op.isSome → Z.Keeps law c current fun t => [t]) :
    Z.Keeps law c (lowerAssigned ni target op value current) fun t => [t] := by
  have hexpr := keeps_lowerExpr hZ (hni.keeps hZ) hvalue
  cases op with
  | none => exact hexpr
  | some op =>
      exact (hcurrent rfl).bind fun _ => hexpr.bind fun _ => keeps_typeOf fun _ => keeps_emitBinary hZ

theorem keeps_lowerElement {ty : Ty} {a j : Temp} (hZ : Z.Stable law) :
    Z.Keeps law c (lowerElement ty a j) fun t => [t] := by
  have hvalue : Z.Keeps law c (emitValue (.indexGet · a j)) fun t => [t] :=
    keeps_emitValue hZ (fun _ => rfl) fun _ => rfl
  unfold lowerElement
  split
  · exact (keeps_emit hZ rfl rfl).bind fun _ => hvalue
  · exact hvalue

theorem leads_assignName {sp : Span} {n : Note} {x : String} {op : Option BinaryOp} {e : Expr}
    (hZ : Z.Stable law) (hni : Inert law c ni) (he : e.Leaves (Z.Readable law))
    (hread : op.isSome → ∀ v, Frames.find? Z.scopes x = some v → ∀ y, Z.claim y → law.reads y v)
    (hnext : ∀ v, Frames.find? Z.scopes x = some v → ∀ t y z, Z.claim y → law.after (.storeVar v t) y z →
      E.next z) :
    Z.Leads law c E P (lowerStmt ni (.assign sp (.ident n x) op e)) := by
  intro s hs hat _
  rw [lowerStmt]
  refine (draws_varOf? (Q := fun v s' => v = Frames.find? Z.scopes x ∧ s' = s) ⟨?_, rfl⟩).bind ?_
  · rw [hs.scopes]
  · rintro v _ _ ⟨hv, rfl⟩
    cases v with
    | none => exact draws_fail _
    | some v =>
        have hassigned := keeps_lowerAssigned (.ident n x) op hZ hni he
          fun hop => keeps_load hZ (hread hop v hv.symm)
        refine (hassigned _ ⟨hs.toWithin, hat⟩).bind fun t s₁ _ h => ?_
        exact (draws_emit (i := .storeVar v t) h.1.point (fun y _ => obeys_singleton trivial rfl)
          fun y z hy hz => hnext v hv.symm t y z hy hz).mono fun _ _ _ h => h.ends

theorem leads_assignMember {sp : Span} {n : Note} {object e : Expr} {name : String}
    {op : Option BinaryOp} (hZ : Z.Stable law) (hni : Inert law c ni)
    (hobject : object.Leaves (Z.Readable law)) (he : e.Leaves (Z.Readable law))
    (hnext : ∀ x, Z.claim x → E.next x) :
    Z.Leads law c E P (lowerStmt ni (.assign sp (.member n object name) op e)) := by
  intro s hs hat _
  rw [lowerStmt]
  unfold lowerAssign
  dsimp only
  split
  · rename_i proto _ _
    refine (hs.expr hat hZ hni hobject).bind fun a s₁ _ ⟨hs₁, hat₁, _⟩ => ?_
    have hcurrent : Z.Keeps law c (emitValue (.fieldGet · a proto name)) fun t => [t] :=
      keeps_emitValue hZ (fun _ => rfl) fun _ => rfl
    have hassigned := keeps_lowerAssigned (.member n object name) op hZ hni he fun _ => hcurrent
    refine (hassigned _ ⟨hs₁.toWithin, hat₁⟩).bind fun t s₂ _ h => ?_
    exact (keeps_emit hZ rfl rfl s₂ h.1).mono fun _ _ _ h => (h.1.point.mono hnext).ends
  · exact draws_fail _

/-- An element is assigned to. In front of the value the claim may become a stronger one, that the place can
be written to, which the code of the value does not break. -/
theorem leads_assignElement {sp : Span} {n : Note} {object i e : Expr} {op : Option BinaryOp}
    {W : Temp → Temp → H → Prop} (hZ : Z.Stable law) (hni : Inert law c ni)
    (hobject : object.Leaves (Z.Readable law)) (hi : i.Leaves (Z.Readable law))
    (he : e.Leaves (Z.Readable law)) (hnext : ∀ x, Z.claim x → E.next x)
    (hW : ∀ {a j : Temp} {ty : Ty} {b b₁ b₂ : Builder}, P b → object.type? = some ty →
      Runs c (lowerExpr ni object) b a b₁ → Runs c (lowerExpr ni i) b₁ j b₂ →
      (if isMap ty then ∀ x, Z.claim x → W a j x else
        ∀ x y, Z.claim x → law.after (.check (.indexBounds a j)) x y → W a j y))
    (hstable : ∀ {a j : Temp} {b : Builder}, Z.base.used ⊆ b.used → Z.base.nextTemp ≤ b.nextTemp →
      a < b.nextTemp → j < b.nextTemp → Stable law ⟨b, fun x => Z.claim x ∧ W a j x, Z.scopes⟩)
    (hwrites : ∀ a j t x, W a j x → law.writes x a j t) :
    Z.Leads law c E P (lowerStmt ni (.assign sp (.index n object i) op e)) := by
  intro s hs hat hP
  rw [lowerStmt, lowerAssign_index]
  refine (draws_typeOf (Q := fun τ s' => object.type? = some τ ∧ s' = s) fun τ hτ => ⟨hτ, rfl⟩).bind ?_
  rintro ty s' _ ⟨hty, rfl⟩
  -- In front of the value the place can be written to.
  have hopen : Draws law c s' (openElement ni ty object i) fun r s₁ => Z.Inside E s₁ ∧
      r.1 < s₁.builder.nextTemp ∧ r.2 < s₁.builder.nextTemp ∧
        s₁.At fun x => Z.claim x ∧ W r.1 r.2 x := by
    refine (hs.expr hat hZ hni hobject).runs.bind fun a s₁ _ ⟨hrun₁, hs₁, hat₁, ha⟩ => ?_
    refine (hs₁.expr hat₁ hZ hni hi).runs.bind fun j s₂ hgrows₂ ⟨hrun₂, hs₂, hat₂, hj⟩ => ?_
    have hplace := hW hP hty hrun₁ hrun₂
    have ha₂ := Nat.lt_of_lt_of_le ha hgrows₂.nextTemp
    cases hmap : isMap ty with
    | true =>
        rw [hmap, if_pos rfl] at hplace
        exact draws_pure ⟨hs₂, ha₂, hj, hat₂.mono fun x hx => ⟨hx, hplace x hx⟩⟩
    | false =>
        rw [hmap, if_neg Bool.false_ne_true] at hplace
        have hcheck : Z.Fits law (.check (.indexBounds a j)) := .of_computes rfl nofun
        refine (hs₂.along (steady_emit _) (draws_emit (B := fun x => Z.claim x ∧ W a j x) hat₂
          (fun x hx => obeys_singleton (hcheck.allows x hx) rfl) fun x y hx hy =>
            ⟨hZ _ x y hcheck.inner hy hx, hplace x y hx hy⟩)).bind
          fun _ s₃ hgrows₃ ⟨hs₃, hat₃⟩ => draws_pure ?_
        exact ⟨hs₃, Nat.lt_of_lt_of_le ha₂ hgrows₃.nextTemp, Nat.lt_of_lt_of_le hj hgrows₃.nextTemp, hat₃⟩
  refine hopen.bind fun ⟨a, j⟩ s₁ _ ⟨hs₁, ha, hj, hat₁⟩ => ?_
  let Z₁ : Zone H := ⟨s₁.builder, fun x => Z.claim x ∧ W a j x, Z.scopes⟩
  have hZ₁ : Z₁.Stable law := hstable hs₁.used hs₁.nextTemp ha hj
  have he₁ : e.Leaves (Z₁.Readable law) := Expr.Leaves.mono (fun e' he' => by
    cases e' with
    | ident n x => exact fun v hv y hy => he' v hv y hy.1
    | self n => exact fun y hy => he' y hy.1
    | _ => trivial) he
  have hcurrent : Z₁.Keeps law c (lowerElement ty a j) fun t => [t] := keeps_lowerElement hZ₁
  have hassigned := keeps_lowerAssigned (.index n object i) op hZ₁ hni he₁ fun _ => hcurrent
  refine (hassigned s₁ ⟨⟨Nat.le_refl _, List.Subset.refl _, hs₁.scopes⟩, hat₁⟩).bind fun t s₂ _ h => ?_
  have hwrite : Z₁.base.Inner (.indexSet a j t) :=
    ⟨nofun, nofun, nofun⟩
  refine (draws_emit (i := .indexSet a j t) h.1.point (fun x hx => obeys_singleton ?_ rfl)
    fun x y hx hy => hZ₁ _ x y hwrite hy hx).mono fun _ _ _ hat₃ => ?_
  · exact hwrites a j t x hx.2
  · exact (hat₃.mono fun x hx => hnext x hx.1).ends

end Zone

end ProtoScript.Lowering
