import ProtoScript.Proofs.Lowering.Function
import ProtoScript.Proofs.Lowering.StmtSketch
import ProtoScript.Proofs.Lowering.WellFormed

set_option autoImplicit false

/-!
# Claims about regions and functions

The rules for statements with variables of their own: loops with a first statement, loops over containers and
`try` regions. With the rules for other statements they say what holds in the body of a function; from there
the law is obeyed on all paths through the lowered function (`kept_of_lowerFunction`).
-/

namespace ProtoScript.Lowering

open Ir

variable {H : Type} {α : Type}

section

variable {law : Law H} {c : Context} {s : Sketch H} {ni : String → Lower Temp}

/-- A statement that may be missing is written where it can be reached. -/
theorem runs_lowerStmt?_some {stmt : Stmt} {b b' : Builder} (hopen : b.ended = none)
    (hrun : Runs c (lowerStmt? ni (some stmt)) b () b') : Runs c (lowerStmt ni stmt) b () b' := by
  rw [lowerStmt?] at hrun
  obtain ⟨isOpen, b₁, h₁, hrun⟩ := hrun.of_bind
  cases h₁
  rw [hopen] at hrun
  exact hrun

theorem runs_lowerStmt? {stmt : Stmt} {b b' : Builder} (hopen : b.ended = none)
    (hrun : Runs c (lowerStmt ni stmt) b () b') : Runs c (lowerStmt? ni (some stmt)) b () b' := by
  rw [lowerStmt?]
  have hisOpen : Runs c isOpen b true b := by
    have hrun := runs_isOpen (c := c) (b := b)
    rwa [hopen] at hrun
  exact hisOpen.bind hrun

theorem draws_lowerStmt?_some {stmt : Stmt} {Q : Unit → Sketch H → Prop} (hopen : s.builder.ended = none)
    (h : Draws law c s (lowerStmt ni stmt) Q) : Draws law c s (lowerStmt? ni (some stmt)) Q :=
  fun hs _ b hrun => h hs () b (runs_lowerStmt?_some hopen hrun)

end

namespace Zone

variable {law : Law H} {c : Context} {Z : Zone H} {E : Exits H} {P : Builder → Prop} {s : Sketch H}
  {ni : String → Lower Temp}

/-! ## Loops with a first statement -/

/-- The step leads to the exits from wherever a statement ends, also if control has gone elsewhere. -/
def Resumes (law : Law H) (c : Context) (Z : Zone H) (E : Exits H) (P : Builder → Prop) (m : Lower Unit) :
    Prop :=
  ∀ s, Z.Inside E s → s.Ends Z.claim → P s.builder → Draws law c s m fun _ s' => s'.Ends E.next

theorem leads_first_none {m : Lower Unit} (hrest : Z.Resumes law c E P m) :
    Z.Leads law c E P (do lowerStmt? ni none; m) := by
  intro s hs hat hP
  rw [lowerStmt?]
  exact hrest s hs hat.ends hP

theorem leads_some {stmt : Stmt}
    (hstmt : Z.Leads law c E (fun b => P b ∧ b.ended = none) (lowerStmt ni stmt)) :
    Z.Leads law c E P (lowerStmt? ni (some stmt)) :=
  fun s hs hat hP => draws_lowerStmt?_some hat.isOpen (hstmt s hs hat ⟨hP, hat.isOpen⟩)

/-- A first statement that declares nothing. -/
theorem leads_first {stmt : Stmt} {m : Lower Unit} {A : H → Prop} (hni : Inert law c ni)
    (hstmt : Analysis.declares stmt = false)
    (hfirst : Z.Leads law c ⟨A, E.brk, E.cont⟩ (fun b => P b ∧ b.ended = none) (lowerStmt ni stmt))
    (hrest : (Z.claiming A).Resumes law c E
      (Reached c (fun b => P b ∧ b.ended = none) (lowerStmt ni stmt) fun _ b => b) m) :
    Z.Leads law c E P (do lowerStmt? ni (some stmt); m) := by
  intro s hs hat hP
  have hs' : Z.Inside ⟨A, E.brk, E.cont⟩ s := ⟨hs.toWithin, hs.jumps.brk, hs.jumps.cont⟩
  refine (draws_lowerStmt?_some hat.isOpen (hs.along (steady_lowerStmt hni.steady stmt hstmt)
    (hfirst s hs' hat ⟨hP, hat.isOpen⟩).runs)).bind fun _ s₁ _ ⟨hs₁, hrun, hends⟩ => ?_
  have hs₁' : (Z.claiming A).Inside E s₁ := ⟨⟨hs₁.nextTemp, hs₁.used, hs₁.scopes⟩, hs₁.jumps⟩
  exact hrest s₁ hs₁' hends ⟨_, _, _, ⟨hP, hat.isOpen⟩, hrun, rfl⟩

/-- A loop whose first statement declares its variable. -/
theorem leads_first_varDecl {sp : Span} {x : String} {ty : Ty} {isConst : Bool} {init : Option Expr}
    {m : Lower Unit} {B : String → H → Prop} (hZ : Z.Stable law) (hni : Inert law c ni)
    (hinit : ∀ e ∈ init, e.Leaves (Z.Readable law)) (hB : Z.Declaring law ty init B)
    (hrest : ∀ v b, Z.New v b → (Z.declaring b x v (B v)).Resumes law c E
      (Reached c (fun b => P b ∧ b.ended = none) (lowerStmt ni (.varDecl sp x ty isConst init)) fun _ b => b)
      m) :
    Z.Leads law c E P (do lowerStmt? ni (some (.varDecl sp x ty isConst init)); m) := by
  intro s hs hat hP
  have hfirst : Draws law c s (lowerStmt ni (.varDecl sp x ty isConst init)) fun _ s₁ => ∃ v,
      Z.New v s₁.builder ∧ (Z.declaring s₁.builder x v (B v)).Inside E s₁ ∧ s₁.At (B v) := by
    rw [lowerStmt_varDecl]
    exact (hs.lowerDeclared hat hZ hni hinit hB).bind fun v s₁ _ h => draws_pure ⟨v, h⟩
  refine (draws_lowerStmt?_some hat.isOpen hfirst.runs).bind fun _ s₁ _ ⟨hrun, v, hnew, hs₁, hat₁⟩ => ?_
  exact hrest v _ hnew s₁ hs₁ hat₁.ends ⟨_, _, _, ⟨hP, hat.isOpen⟩, hrun, rfl⟩

/-! ## Loops over containers -/

/-- The claim of the zone is the invariant of the loop. -/
theorem leads_forEach {sp : Span} {kind : IterKind} {declared : Option Ty} {x : String} {e : Expr}
    {body : List Stmt} {B : String → H → Prop} (hZ : Z.Stable law) (hni : Inert law c ni)
    (he : e.Leaves (Z.Readable law)) (hdone : ∀ y, Z.claim y → E.next y)
    (hB : ∀ ty, Z.Binding law ty B)
    (hbody : ∀ v b, Z.New v b → (Z.inner.declaring b x v (B v)).inner.Leads law c
      ⟨Z.claim, E.next, Z.claim⟩ (fun b' => ∃ b r b₁ v b₂, P b ∧
        Runs c (openForEach ni kind declared e) b r b₁ ∧
        Runs c (lowerVisited x r.1 r.2.1) b₁.enter v b₂ ∧
        b' = (b₂.looping r.2.2.2 (some r.2.2.1)).enter) (lowerStmts ni body)) :
    Z.Leads law c E P (lowerStmt ni (.forEach sp kind declared x e body)) := by
  intro s hs hat hP
  have hopen : Draws law c s (openForEach ni kind declared e) fun r s' => Z.Inside E s' ∧
      s'.At Z.claim ∧ (r.2.2.1, Z.claim) ∈ s'.claims ∧ (r.2.2.2, E.next) ∈ s'.claims := by
    refine (draws_typeOf (Q := fun _ s' => s' = s) fun _ _ => rfl).bind ?_
    rintro _ _ _ rfl
    refine (hs.expr hat hZ hni he).bind fun a s₁ _ ⟨hs₁, hat₁, _⟩ => ?_
    refine (hs₁.along (steady_emitValue _) (keeps_emitValue hZ (fun _ => rfl) (fun _ => rfl) s₁
      ⟨hs₁.toWithin, hat₁⟩)).bind fun iter s₂ _ ⟨hs₂, hholds₂, _⟩ => ?_
    refine (hs₂.label hholds₂.point.ends rfl Z.claim).bind fun head s₃ _ ⟨hs₃, hhead, hsame₃, hends₃⟩ => ?_
    refine (hs₃.label hends₃ rfl Z.claim).bind fun inside s₄ hgrows₄ ⟨hs₄, hinside, _, hends₄⟩ => ?_
    refine (hs₄.label hends₄ rfl E.next).bind fun done s₅ hgrows₅ ⟨hs₅, hexit, _, hends₅⟩ => ?_
    have hhead₅ := hgrows₅.claims (hgrows₄.claims hhead)
    refine (hs₅.jump hends₅ hhead₅).bind fun _ s₆ hgrows₆ ⟨hs₆, hclosed⟩ => ?_
    refine (hs₆.start hclosed (hgrows₆.claims hhead₅)).bind fun _ s₇ hgrows₇ ⟨hs₇, hat₇⟩ => ?_
    have hgrows := hgrows₆.trans hgrows₇
    have hinside₇ := hgrows.claims (hgrows₅.claims hinside)
    have hexit₇ := hgrows.claims hexit
    refine (hs₇.along (steady_endWith (.branchIter iter inside done)) (draws_endWith hat₇
      fun y hy => ⟨trivial, fun l hl => ?_⟩)).bind fun _ s₈ hgrows₈ ⟨hs₈, hclosed⟩ => ?_
    · rcases List.mem_cons.1 hl with rfl | hl
      · exact ⟨_, hinside₇, hy⟩
      · rw [List.mem_singleton.1 hl]
        exact ⟨_, hexit₇, hdone y hy⟩
    refine (hs₈.start hclosed (hgrows₈.claims hinside₇)).bind fun _ s₉ hgrows₉ ⟨hs₉, hat₉⟩ =>
      draws_pure ?_
    have hgrows' := hgrows₈.trans hgrows₉
    exact ⟨hs₉, hat₉, hgrows'.claims (hgrows.claims hhead₅), hgrows'.claims hexit₇⟩
  rw [lowerStmt_forEach_eq]
  refine hopen.runs.bind fun ⟨iter, elem, head, done⟩ s₁ _ ⟨hrun, hs₁, hat₁, hhead, hexit⟩ => ?_
  have hscoped : Scoped (do
      let _ ← lowerVisited x iter elem
      withJumps done (some head) (inScope (lowerStmts ni body))) :=
    (declares_lowerVisited x iter elem).scoped.bind fun _ =>
      ((scoped_lowerStmts hni.steady body).inScope.withJumps _ _).scoped
  -- One round of the loop leads back to its head.
  have hround : Draws law c s₁ (inScope do
      let _ ← lowerVisited x iter elem
      withJumps done (some head) (inScope (lowerStmts ni body))) fun _ s' =>
        Z.Inside E s' ∧ s'.Ends Z.claim := by
    refine hs₁.scope hat₁ hscoped fun hs₂ hat₂ => ?_
    have hvisited : Draws law c s₁.inScope (lowerVisited x iter elem) fun v s' =>
        v ∉ s₁.inScope.builder.used ∧ v ∈ s'.builder.used ∧ s'.At (B v) := by
      refine (keeps_emitValue (Z := Z.inner) hZ (fun _ => rfl) (fun _ => rfl) s₁.inScope
        ⟨hs₂.toWithin, hat₂⟩).bind fun item s₃ hgrows₃ h₃ => ?_
      exact (draws_bind h₃.1.toWithin h₃.1.point (hB elem)).mono fun v s₄ _ ⟨hnew, hused, hat₄⟩ =>
        ⟨fun hmem => hnew (hgrows₃.used hmem), hused, hat₄⟩
    refine (hs₂.declareThen (declares_lowerVisited x iter elem) hvisited).runs.bind
      fun v s₃ hgrows₃ ⟨hrun₃, hnew, hs₃, hat₃⟩ => ?_
    refine (hs₃.loop (D := ⟨Z.claim, E.next, Z.claim⟩) hat₃ (scoped_lowerStmts hni.steady body)
      (hgrows₃.claims hexit) (hgrows₃.claims hhead)
      (hbody v s₃.builder ⟨hnew.fresh, hnew.used, hnew.old, hnew.nextTemp⟩) ?_).mono fun _ _ _ h => h.2
    exact ⟨_, _, _, v, _, hP, hrun, hrun₃, rfl⟩
  refine hround.bind fun _ s₂ hgrows₂ ⟨hs₂, hends₂⟩ => ?_
  refine (hs₂.jump hends₂ (hgrows₂.claims hhead)).bind fun _ s₃ hgrows₃ ⟨hs₃, hclosed⟩ => ?_
  exact (hs₃.start hclosed (hgrows₃.claims (hgrows₂.claims hexit))).mono fun _ _ _ h => h.2.ends

/-! ## Regions -/

/-- Catch clauses that follow each other: from wherever the claim of the zone holds, each of them leads to the
exits, and the claim holds behind them. -/
def LeadsClauses (law : Law H) (c : Context) (Z : Zone H) (E : Exits H) (P : Builder → Prop)
    (ni : String → Lower Temp) (exception : Temp) (done : String) (clauses : List CatchClause) : Prop :=
  ∀ s, Z.Inside E s → s.At Z.claim → (done, E.next) ∈ s.claims → P s.builder →
    Draws law c s (lowerClauses ni exception done clauses) fun _ s' => Z.Inside E s' ∧ s'.At Z.claim

theorem leadsClauses_nil {exception : Temp} {done : String} :
    Z.LeadsClauses law c E P ni exception done [] := by
  intro s hs hat _ _
  rw [lowerClauses]
  exact draws_pure ⟨hs, hat⟩

/-- A clause binds the exception. -/
theorem leadsClauses_cons {exception : Temp} {done : String} {sp : Span} {proto x : String}
    {body : List Stmt} {rest : List CatchClause} {B : String → H → Prop} (hZ : Z.Stable law)
    (hni : Inert law c ni) (hB : Z.Binding law (.named proto) B)
    (hbody : ∀ v b, Z.New v b → (Z.inner.declaring b x v (B v)).Leads law c E
      (Reached c (Reached c P (openClause exception proto) fun _ b => b.enter)
        (lowerCaught exception x proto) fun _ b => b) (lowerStmts ni body))
    (hrest : Z.LeadsClauses law c E
      (Reached c P (lowerClause ni exception done proto x body) fun _ b => b) ni exception done rest) :
    Z.LeadsClauses law c E P ni exception done (.mk sp proto x body :: rest) := by
  intro s hs hat hdone hP
  have hopen : Draws law c s (openClause exception proto) fun next s' => Z.Inside E s' ∧
      s'.At Z.claim ∧ (next, Z.claim) ∈ s'.claims := by
    refine (hs.along (steady_emitValue _) (keeps_emitValue hZ (fun _ => rfl) (fun _ => rfl) s
      ⟨hs.toWithin, hat⟩)).bind fun caught s₁ _ ⟨hs₁, hholds₁, _⟩ => ?_
    refine (hs₁.label hholds₁.point.ends rfl Z.claim).bind fun inside s₂ _ ⟨hs₂, hinside, hsame₂, hends₂⟩ => ?_
    refine (hs₂.label hends₂ rfl Z.claim).bind fun next s₃ hgrows₃ ⟨hs₃, hnext, hsame₃, hends₃⟩ => ?_
    have hat₃ := hends₃.at (hsame₃.trans (hsame₂.trans hholds₁.point.isOpen))
    have hinside₃ := hgrows₃.claims hinside
    refine (hs₃.branch hat₃ hinside₃ hnext (fun _ hx => hx) fun _ hx => hx).bind
      fun _ s₄ hgrows₄ ⟨hs₄, hclosed⟩ => ?_
    refine (hs₄.start hclosed (hgrows₄.claims hinside₃)).bind fun _ s₅ hgrows₅ ⟨hs₅, hat₅⟩ => draws_pure ?_
    exact ⟨hs₅, hat₅, hgrows₅.claims (hgrows₄.claims hnext)⟩
  have hclause : Draws law c s (lowerClause ni exception done proto x body) fun _ s' =>
      Z.Inside E s' ∧ s'.At Z.claim := by
    refine hopen.runs.bind fun next s₁ hgrows₁ ⟨hrun, hs₁, hat₁, hnext⟩ => ?_
    have hscoped : Scoped (do
        let _ ← lowerCaught exception x proto
        lowerStmts ni body) :=
      (declares_lowerCaught exception x proto).scoped.bind fun _ => scoped_lowerStmts hni.steady body
    have hcaught : Draws law c s₁ (inScope do
        let _ ← lowerCaught exception x proto
        lowerStmts ni body) fun _ s' => Z.Inside E s' ∧ s'.Ends E.next := by
      refine hs₁.scope hat₁ hscoped fun hs₂ hat₂ => ?_
      refine (hs₂.declareThen (declares_lowerCaught exception x proto)
        (draws_bind (Z := Z.inner) hs₂.toWithin hat₂ hB)).runs.bind
        fun v s₃ hgrows₃ ⟨hrun₃, hnew, hs₃, hat₃⟩ => ?_
      refine hbody v s₃.builder ⟨hnew.fresh, hnew.used, hnew.old, hnew.nextTemp⟩ s₃ hs₃ hat₃ ?_
      exact ⟨_, _, _, ⟨_, _, _, hP, hrun, rfl⟩, hrun₃, rfl⟩
    refine hcaught.bind fun _ s₂ hgrows₂ ⟨hs₂, hends₂⟩ => ?_
    refine (hs₂.jump hends₂ (hgrows₂.claims (hgrows₁.claims hdone))).bind
      fun _ s₃ hgrows₃ ⟨hs₃, hclosed⟩ => ?_
    exact hs₃.start hclosed (hgrows₃.claims (hgrows₂.claims hnext))
  rw [lowerClauses_cons]
  refine hclause.runs.bind fun _ s₁ hgrows₁ ⟨hrun, hs₁, hat₁⟩ => ?_
  exact hrest s₁ hs₁ hat₁ (hgrows₁.claims hdone) ⟨_, _, _, hP, hrun, rfl⟩

/-- The number of open regions is of no importance to claims. -/
theorem Inside.setDepth {g : Nat → Nat} {A : H → Prop} (hs : Z.Inside E s) (hends : s.Ends A) :
    Draws law c s (modify fun b => { b with tryDepth := g b.tryDepth }) fun _ s' => Z.Inside E s' ∧
      s'.claims = s.claims ∧ s'.builder.ended = s.builder.ended ∧ s'.Ends A :=
  hs.along (steady_modify fun _ => ⟨rfl, rfl⟩) (draws_modify rfl rfl rfl rfl rfl rfl rfl ⟨rfl, rfl, hends⟩)

/-- The handler of a region is written where the claim `Hc` holds, which has to be true wherever an exception
of the body is caught. -/
theorem leads_try {sp : Span} {body : List Stmt} {clauses : List CatchClause} {C : H → Prop}
    (hZ : Z.Stable law) (hni : Inert law c ni) (hC : (Z.claiming C).Stable law)
    (hcaught : ∀ l x y z, Z.claim x → law.after (.setupTry l) x y → law.caught y z → C z)
    (hend : ∀ x y, E.next x → law.after .endTry x y → E.next y)
    (hbody : Z.inner.Leads law c E (Reached c P openTry fun _ b => b.enter) (lowerStmts ni body))
    (hclauses : ∀ exception done, (Z.claiming C).LeadsClauses law c E
      (fun b' => ∃ b, P b ∧ Runs c (openClauses ni body) b (exception, done) b') ni exception done
        clauses) :
    Z.Leads law c E P (lowerStmt ni (.try sp body clauses)) := by
  intro s hs hat hP
  have hopenTry : Draws law c s openTry fun r s' => Z.Inside E s' ∧ s'.At Z.claim ∧
      (r.1, C) ∈ s'.claims ∧ (r.2, E.next) ∈ s'.claims := by
    refine (hs.label hat.ends rfl C).bind fun handler s₁ _ ⟨hs₁, hhandler, hsame₁, hends₁⟩ => ?_
    refine (hs₁.label hends₁ rfl E.next).bind fun done s₂ hgrows₂ ⟨hs₂, hdone, hsame₂, hends₂⟩ => ?_
    have hat₂ := hends₂.at (hsame₂.trans (hsame₁.trans hat.isOpen))
    have hhandler₂ := hgrows₂.claims hhandler
    have hsetup : Z.base.Inner (.setupTry handler) :=
      ⟨nofun, nofun, nofun⟩
    refine (hs₂.along (steady_emit _) (draws_emit (i := .setupTry handler) (B := Z.claim) hat₂
      (fun x hx => ⟨trivial, fun y hy => ⟨?_, trivial⟩⟩) fun x y hx hy => hZ _ x y hsetup hy hx)).bind
      fun _ s₃ hgrows₃ ⟨hs₃, hat₃⟩ => ?_
    · rintro l ⟨⟩ z hz
      exact ⟨C, hhandler₂, hcaught handler x y z hx hy hz⟩
    refine (hs₃.setDepth (g := (· + 1)) hat₃.ends).bind
      fun _ s₄ _ ⟨hs₄, hclaims, hsame₄, hends₄⟩ => draws_pure ?_
    rw [hclaims]
    exact ⟨hs₄, hends₄.at (hsame₄.trans hat₃.isOpen), hgrows₃.claims hhandler₂, hgrows₃.claims hdone⟩
  have hopen : Draws law c s (openClauses ni body) fun r s' => (Z.claiming C).Inside E s' ∧
      s'.At C ∧ (r.2, E.next) ∈ s'.claims := by
    refine hopenTry.runs.bind fun ⟨handler, done⟩ s₁ _ ⟨hrun, hs₁, hat₁, hhandler, hdone⟩ => ?_
    refine (hs₁.body hat₁ (scoped_lowerStmts hni.steady body) hbody ⟨_, _, _, hP, hrun, rfl⟩).bind
      fun _ s₂ hgrows₂ ⟨hs₂, hends₂⟩ => ?_
    refine (hs₂.setDepth (g := (· - 1)) hends₂).bind fun _ s₃ _ ⟨hs₃, hclaims, _, hends₃⟩ => ?_
    have hdone₃ : (done, E.next) ∈ s₃.claims := hclaims ▸ hgrows₂.claims hdone
    have hhandler₃ : (handler, C) ∈ s₃.claims := hclaims ▸ hgrows₂.claims hhandler
    -- What is written behind the end of the region.
    have hrest : ∀ {s₄ : Sketch H}, Z.Inside E s₄ → s₄.Ends E.next → (done, E.next) ∈ s₄.claims →
        (handler, C) ∈ s₄.claims → Draws law c s₄ (do
          Lowering.jump done
          startBlock handler
          let exception ← Lowering.emitValue .catchValue
          return (exception, done)) fun r s' => (Z.claiming C).Inside E s' ∧ s'.At C ∧
            (r.2, E.next) ∈ s'.claims := by
      intro s₄ hs₄ hends₄ hdone₄ hhandler₄
      refine (hs₄.jump hends₄ hdone₄).bind fun _ s₅ hgrows₅ ⟨hs₅, hclosed⟩ => ?_
      refine (hs₅.start hclosed (hgrows₅.claims hhandler₄)).bind fun _ s₆ hgrows₆ ⟨hs₆, hat₆⟩ => ?_
      have hs₆' : (Z.claiming C).Inside E s₆ := ⟨⟨hs₆.nextTemp, hs₆.used, hs₆.scopes⟩, hs₆.jumps⟩
      refine (hs₆'.along (steady_emitValue _) (keeps_emitValue hC (fun _ => rfl) (fun _ => rfl) s₆
        ⟨hs₆'.toWithin, hat₆⟩)).bind fun exception s₇ hgrows₇ ⟨hs₇, hholds₇, _⟩ => draws_pure ?_
      exact ⟨hs₇, hholds₇.point, hgrows₇.claims (hgrows₆.claims (hgrows₅.claims hdone₄))⟩
    refine (draws_isOpen (Q := fun isOpen s' => isOpen = s₃.builder.ended.isNone ∧ s' = s₃)
      ⟨rfl, rfl⟩).bind ?_
    rintro _ s₃ _ ⟨rfl, rfl⟩
    cases hended : s₃.builder.ended with
    | none =>
        refine (hs₃.along (steady_emit _) (draws_emit (i := .endTry) (B := E.next) (hends₃.at hended)
          (fun x _ => obeys_singleton trivial rfl) hend)).bind fun _ s₄ hgrows₄ ⟨hs₄, hat₄⟩ => ?_
        exact hrest hs₄ hat₄.ends (hgrows₄.claims hdone₃) (hgrows₄.claims hhandler₃)
    | some t => exact hrest hs₃ hends₃ hdone₃ hhandler₃
  rw [lowerStmt_try_eq]
  refine hopen.runs.bind fun ⟨exception, done⟩ s₁ _ ⟨hrun, hs₁, hat₁, hdone⟩ => ?_
  refine (hclauses exception done s₁ hs₁ hat₁ hdone ⟨_, hP, hrun⟩).bind
    fun _ s₂ hgrows₂ ⟨hs₂, hat₂⟩ => ?_
  have hraise : Draws law c s₂ (do emit (.throw exception); endWith .unreachable) fun _ s' => s'.Closed :=
    draws_throw hat₂
  have hthrow := hraise.bind (f := fun _ => startBlock done) fun _ s₃ hgrows₃ hclosed => (draws_startBlock hclosed
      (hgrows₃.claims (hgrows₂.claims hdone))).mono fun _ _ _ h => h.ends
  rwa [bind_assoc] at hthrow

end Zone

/-! ## Functions -/

/-- The zone of the body of a function, where the parameters are the only names. -/
def bodyZone (proto? : Option String) (f : FunctionDecl) (A : H → Prop) : Zone H :=
  ⟨startOf proto? f, A, (startOf proto? f).scopes⟩

/-- What is fixed while a function is lowered. -/
def contextOf (hierarchy : Hierarchy) (prototypes : List PrototypeDecl) (proto? : Option String)
    (f : FunctionDecl) : Context :=
  ⟨(proto?.map (Ir.methodName · f.name)).getD f.name, hierarchy, prototypes⟩

/-- The sketch at the start of a function. -/
def startSketch (proto? : Option String) (f : FunctionDecl) (A : H → Prop) : Sketch H :=
  ⟨startOf proto? f, [("entry", A)], A⟩

section

variable {law : Law H} {hierarchy : Hierarchy} {prototypes : List PrototypeDecl} {depth : Nat}
  {proto? : Option String} {f : FunctionDecl} {F : Ir.Function} {A : H → Prop}

theorem sound_startSketch (hstart : A law.start) : (startSketch proto? f A).Sound law where
  nodup := List.nodup_singleton _
  numbers l hl := by
    have hentry : labelNumber "entry" = 0 := by decide
    rw [List.mem_singleton.1 hl]
    exact Nat.le_of_eq hentry
  entry := ⟨A, List.mem_singleton_self _, hstart⟩
  finished := nofun
  current := by
    refine ⟨A, List.mem_singleton_self _, fun x hx => ⟨trivial, ?_⟩⟩
    rintro _ rfl
    exact ⟨fun _ => hx, nofun⟩

/-- A lowered function is what a run of lowering its body has written. -/
theorem runs_lowerBody (hF : lowerFunction hierarchy prototypes depth proto? f = .ok F) :
    ∃ b, Runs (contextOf hierarchy prototypes proto? f) (lowerBody (newInstance depth) f)
      (startOf proto? f) () b ∧ F.blocks = b.blocks ∧ F.ret = f.ret := by
  cases hrun : lowerBody (newInstance depth) f (contextOf hierarchy prototypes proto? f)
      (startOf proto? f) with
  | error e =>
      have hfail : lowerFunction hierarchy prototypes depth proto? f = .error e := by
        unfold lowerFunction
        exact congrArg (· >>= _) hrun
      rw [hfail] at hF
      cases hF
  | ok r =>
      have hok : lowerFunction hierarchy prototypes depth proto? f = .ok
          ⟨(contextOf hierarchy prototypes proto? f).function, functionParams proto? f, f.ret, r.2.blocks⟩ := by
        unfold lowerFunction
        exact congrArg (· >>= _) hrun
      rw [hok] at hF
      cases hF
      exact ⟨r.2, hrun, rfl, rfl⟩

/-- If the body of a function leads from what holds at its start to where the function may end, the law is
obeyed on all paths. -/
theorem kept_of_lowerFunction {E : Exits H}
    (hF : lowerFunction hierarchy prototypes depth proto? f = .ok F) (hstart : A law.start)
    (hbody : (bodyZone proto? f A).Leads law (contextOf hierarchy prototypes proto? f) E
      (· = startOf proto? f) (lowerStmts (newInstance depth) f.body))
    (hend : ∀ x code, E.next x → law.Ends code (lastOf f)) : ∃ claims, F.Kept law claims := by
  have hinside : (bodyZone proto? f A).Inside E (startSketch proto? f A) :=
    ⟨⟨Nat.le_refl _, List.Subset.refl _, rfl⟩, nofun, nofun⟩
  have hdraws : Draws law (contextOf hierarchy prototypes proto? f) (startSketch proto? f A)
      (lowerBody (newInstance depth) f) fun _ s => s.Closed := by
    refine (hbody _ hinside ⟨rfl, fun _ hx => hx⟩ rfl).bind fun _ s₁ _ hends => ?_
    refine hends.endWith (t := lastOf f) fun x hx => ⟨hend x _ hx, ?_⟩
    unfold lastOf
    split <;> exact List.forall_mem_nil _
  obtain ⟨_, _, _, hentry⟩ := annotated_of_lowerFunction hF
  obtain ⟨b, hrun, hblocks, _⟩ := runs_lowerBody hF
  obtain ⟨s, rfl, hsound, _, hclosed⟩ := hdraws (sound_startSketch hstart) () b hrun
  refine ⟨s.claims, hsound.nodup, fun b hb => ?_, ?_⟩
  · rw [hb] at hentry
    rw [Option.some.inj hentry]
    exact hsound.entry
  · rw [hblocks]
    exact hsound.keeps hclosed

end

end ProtoScript.Lowering
