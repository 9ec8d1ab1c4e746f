import ProtoScript.Proofs.Lowering.Known

set_option autoImplicit false

/-!
# Statements that the checker has followed

Along the statements of a checked body the zones of the lowered function claim what the checker knows
(`LeadsStmts`). The checker follows statements to their end; a jump leaves earlier, where perhaps less is
known. In an orderly body that makes no difference: what is known at the end of a part that control may
leave early was known in front of it (`Knowledge.Advances.below`).

Here are the statements in a row, the choices and the loops. The claims at their exits are met by what is known
behind them (`Serves`).
-/

namespace ProtoScript.Lowering

open Ir
open Analysis (State Passes Settled declares checkStmt checkStmts checkStmt? checkArms checkClauses)

/-- A statement may lead to weaker exits. -/
theorem Zone.Leads.mono {H : Type} {law : Law H} {c : Context} {Z : Zone H} {E : Exits H} {A : H → Prop}
    {P : Builder → Prop} {m : Lower Unit} (h : Z.Leads law c ⟨A, E.brk, E.cont⟩ P m)
    (hA : ∀ x, A x → E.next x) : Z.Leads law c E P m := fun s hs hat hP =>
  (h s ⟨hs.toWithin, hs.jumps.brk, hs.jumps.cont⟩ hat hP).mono fun _ _ _ hends => hends.mono hA

/-! ## Claims -/

/-- The claim holds wherever variables have the values they are known to have. -/
def Meets (c : Analysis.Context) (f : Knowledge) (V : Frames String) (A : List Instr → Prop) : Prop :=
  ∀ past, Known c f (Frames.at? V) past → A past

section

variable {c : Analysis.Context} {f g : Knowledge} {V : Frames String} {A : List Instr → Prop}

theorem Meets.below (h : Meets c f V A) (hfg : f.Below g) : Meets c g V A :=
  fun past hpast => h past (hpast.below hfg)

theorem Meets.leave {s : Scopes} (h : Meets c s.leave.known V.tail A) : Meets c s.known V A :=
  fun past hpast => h past hpast.leave

theorem meets_self : Meets c f V (Known c f (Frames.at? V)) := fun _ hpast => hpast

end

/-- The exits of a statement are met by what is known behind it, and in front of it if control may leave it
by a jump. -/
structure Serves (c : Analysis.Context) (s s' : State) (V : Frames String) (stmt' : Stmt)
    (E : Exits (List Instr)) : Prop where
  next : stmt'.isJump = false → Meets c s'.scopes.known V E.next
  brk : stmt'.breaks → Meets c s.scopes.known V E.brk
  cont : stmt'.continues → Meets c s.scopes.known V E.cont

/-- The exits of statements in a scope are met by what is known around it. For the last statement of the scope,
if that is a `break`, it is enough if what is known behind the statements meets the exit. -/
structure ServesAll (c : Analysis.Context) (s s' : State) (V : Frames String) (body' : List Stmt)
    (E : Exits (List Instr)) : Prop where
  next : endsInJump body' = false → Meets c s'.leave.scopes.known V.tail E.next
  early : breaksEarly body' → Meets c s.leave.scopes.known V.tail E.brk
  last : anyBreaks body' → Meets c s'.leave.scopes.known V.tail E.brk
  cont : anyContinues body' → Meets c s.leave.scopes.known V.tail E.cont

section

variable {c : Analysis.Context} {late : List String} {lc : Context} {ni : String → Lower Temp}
  {s s' s₁ s₂ : State} {base : Builder} {V scopes : Frames String} {f : Knowledge}
  {E : Exits (List Instr)} {P : Builder → Prop}

/-! ## Simple statements -/

/-- Nothing that is new is one of the variables, as long as they are declared. -/
theorem Stands.stable_later (h : Stands c late s base V scopes) {b : Builder} (hb : base.used ⊆ b.used)
    {W : List Instr → Prop} (hW : ∀ past, W past) :
    (⟨b, fun past => Known c f (Frames.at? V) past ∧ W past, scopes⟩ : Zone (List Instr)).Stable
      initializing := by
  intro i past _ hi hafter hpast
  cases hafter
  refine ⟨hpast.1.cons (fun k v hv hdeclared => ?_) fun hproto hdeclared => ?_, hW _⟩
  · exact hi.declared v hdeclared (hb (h.used hv))
  · exact hi.declared _ hdeclared (hb (h.self hproto))

/-- An assignment or an expression, where all that it looks at can be read. -/
theorem leads_simple (hni : Inert initializing lc ni) (h : Stands c late s base V scopes) {st : Stmt}
    (hsimple : st.stepNames?.isSome) (hreads : st.Reads ((knowing c base f V scopes).Readable initializing))
    (hnext : (∀ sp n x op e, st ≠ .assign sp (.ident n x) op e) → Meets c f V E.next)
    (hstore : ∀ sp n x op e, st = .assign sp (.ident n x) op e → ∀ v, Frames.find? scopes x = some v →
      ∀ t, Meets c f V fun past => E.next (.storeVar v t :: past)) :
    (knowing c base f V scopes).Leads initializing lc E P (lowerStmt ni st) := by
  have hZ : (knowing c base f V scopes).Stable initializing := h.stable
  cases st with
  | assign sp target op e =>
      cases target with
      | ident n x =>
          refine Zone.leads_assignName hZ hni hreads.2 hreads.1 fun v hv t y z hy hz => ?_
          cases hz
          exact hstore _ _ _ _ _ rfl v hv t y hy
      | member n object name =>
          exact Zone.leads_assignMember hZ hni hreads.1 hreads.2 (hnext (by simp))
      | index n object i =>
          refine Zone.leads_assignElement (W := fun _ _ _ => True) hZ hni hreads.1.1 hreads.1.2 hreads.2
            (hnext (by simp)) (fun _ _ _ _ => ?_) (fun hb _ _ _ => h.stable_later hb fun _ => trivial)
            fun _ _ _ _ _ => trivial
          split
          · exact fun _ _ => trivial
          · exact fun _ _ _ _ => trivial
      | _ =>
          intro s _ _ _
          rw [lowerStmt]
          exact draws_fail _
  | expr sp e => exact Zone.leads_expr hZ hni hreads (hnext (by simp))
  | _ => cases hsimple

/-- An assignment that the checker has gone through. -/
theorem leads_assigns (hni : Inert initializing lc ni) (h : Stands c late s base V scopes) {st : Stmt}
    {names : List String} (hnames : st.stepNames? = some names) (hst : Analysis.Assigns c s s' st)
    (hnext : Meets c s'.scopes.known V E.next) :
    (knowing c base s.scopes.known V scopes).Leads initializing lc E P (lowerStmt ni st) := by
  have hreads : st.Reads ((knowing c base s.scopes.known V scopes).Readable initializing) :=
    hst.reads.of_names hnames (fun _ _ _ hx => h.readable_ident hx fun _ _ hk => hk)
      fun _ hproto _ hpast => hpast.self hproto
  refine leads_simple hni h (by rw [hnames]; rfl) hreads ?_ ?_
  · intro hother
    rcases hst.gives with hsame | ⟨sp, n, x, op, e, _, rfl, _⟩
    · rwa [hsame] at hnext
    · exact absurd rfl (hother sp n x op e)
  · rintro sp n x op e rfl v hv t past hpast
    obtain ⟨k, b, hkey, _, _, hat, _⟩ := h.find? hv
    refine hnext _ ?_
    rcases hst.gives with hsame | ⟨_, _, _, _, _, k', heq, hkey', hknown⟩
    · rw [hsame]
      exact hpast.cons (by simp [Instr.declared?]) (by simp [Instr.declared?])
    · cases heq
      rw [hkey] at hkey'
      cases hkey'
      rw [hknown]
      exact hpast.store hat

/-! ## Parts of statements -/

/-- The judgement that checked statements of this form lead to exits that are met. -/
def LeadsStmt (c : Analysis.Context) (late : List String) (lc : Context) (ni : String → Lower Temp)
    (st : Stmt) : Prop :=
  ∀ {st' s s' base V scopes E P}, Passes (checkStmt st) c s st' s' → declares st = false →
    st'.isOrderly late → st'.collect Stmt.leavesOpen ⊆ late → Stands c late s base V scopes →
    Serves c s s' V st' E →
    (knowing c base s.scopes.known V scopes).Leads initializing lc E P (lowerStmt ni st')

/-- The same for statements in a row. -/
def LeadsStmts (c : Analysis.Context) (late : List String) (lc : Context) (ni : String → Lower Temp)
    (body : List Stmt) : Prop :=
  ∀ {body' s s' base V scopes E P}, Passes (checkStmts body) c s body' s' →
    areOrderly late body' → collectAll Stmt.leavesOpen body' ⊆ late → Stands c late s base V scopes →
    ServesAll c s s' V body' E →
    (knowing c base s.scopes.known V scopes).Leads initializing lc E P (lowerStmts ni body')

/-- A body in a scope of its own, behind which no less is known than in front of it. -/
theorem LeadsStmts.inner {body body' : List Stmt} {kind : ScopeKind} (hlead : LeadsStmts c late lc ni body)
    (h : Passes (checkStmts body) c (s.enter kind) body' s₁) (horderly : areOrderly late body')
    (hlate : collectAll Stmt.leavesOpen body' ⊆ late) (hstands : Stands c late s base V scopes)
    (hnext : endsInJump body = false → Meets c s₁.leave.scopes.known V E.next)
    (hbrk : anyBreaks body' → Meets c s.scopes.known V E.brk)
    (hcont : anyContinues body' → Meets c s.scopes.known V E.cont) :
    (knowing c base s.scopes.known V scopes).inner.Leads initializing lc E P (lowerStmts ni body') := by
  have hadvances := Analysis.advances_inScope h
    (Analysis.advances_stmts body h (List.Subset.refl _) (List.Subset.refl _))
  rw [knowing_inner, ← Analysis.known_enter s kind]
  refine hlead h horderly hlate (hstands.enter kind) ⟨fun hjumps => hnext ?_,
    fun hearly => hbrk (anyBreaks_of_breaksEarly hearly), fun hany => (hbrk hany).below hadvances.kept, hcont⟩
  rwa [← (Analysis.sameEnd_of_passes body h).2.1]

/-! ## Statements in a row -/

theorem leadsStmts_nil : LeadsStmts c late lc ni [] := by
  intro body' s s' base V scopes E P h _ _ hstands hserves
  obtain ⟨rfl, rfl⟩ := Analysis.passes_stmts_nil h
  exact Zone.leads_nil (hserves.next rfl).leave

/-- What is known around a scope stays known along its statements. -/
theorem below_leave {st st' : Stmt} (h : Passes (checkStmt st) c s st' s₁) :
    s.leave.scopes.known.Below s₁.leave.scopes.known := by
  have hadvances := Analysis.advances_stmt st h (List.Subset.refl _) (List.Subset.refl _)
  refine hadvances.below_leave (Analysis.length_of_shape ?_)
  have houter := (Analysis.namesKept.grows_checkStmt st c s).outer
  rw [h.run] at houter
  exact (List.map_tail ..).trans (houter.trans (List.map_tail ..).symm)

/-- A name that has no value behind its declaration is one of the late names. -/
theorem late_of_varDecl {sp : Span} {x : String} {ty : Ty} {isConst : Bool} {init : Option Expr} {b : Binding}
    (hb : b.initialized = init.isSome)
    (hlate : (Stmt.varDecl sp x ty isConst init).collect Stmt.leavesOpen ⊆ late) (hopen : b.initialized = false) :
    x ∈ late := by
  rw [hb] at hopen
  cases init with
  | none => exact hlate (List.mem_singleton_self x)
  | some e => cases hopen

theorem leadsStmts_cons (hni : Inert initializing lc ni) {st : Stmt} {rest : List Stmt}
    (hst : LeadsStmt c late lc ni st) (hrest : LeadsStmts c late lc ni rest) :
    LeadsStmts c late lc ni (st :: rest) := by
  intro body' s s' base V scopes E P h horderly hlate hstands hserves
  obtain ⟨st', s₁, rest', hfirst, hlater, rfl⟩ := Analysis.passes_stmts_cons h
  rw [areOrderly, Bool.and_eq_true] at horderly
  rw [collectAll, List.append_subset] at hlate
  have hbelow := below_leave hfirst
  -- What the exits ask of the statements behind the first.
  have hserves₁ : ∀ {V₁ : Frames String}, V₁.tail = V.tail → rest' ≠ [] ∨ st'.isJump = false →
      ServesAll c s₁ s' V₁ rest' E := by
    intro V₁ hV hne
    refine ⟨fun hjumps => ?_, fun hearly => ?_, fun hany => ?_, fun hcont => ?_⟩
    · rw [hV]
      refine hserves.next ?_
      rw [endsInJump_cons]
      cases rest' with
      | nil => exact hne.resolve_left (fun h => h rfl)
      | cons t rest' => exact hjumps
    · rw [hV]
      refine (hserves.early ?_).below hbelow
      have hrest' : rest' ≠ [] := fun hnil => by
        rw [hnil] at hearly
        cases hearly
      rw [breaksEarly_cons (.inl hrest'), hearly, Bool.or_true]
    · rw [hV]
      refine hserves.last ?_
      rw [anyBreaks, hany, Bool.or_true]
    · rw [hV]
      refine (hserves.cont ?_).below hbelow
      rw [anyContinues, hcont, Bool.or_true]
  cases hdeclares : declares st with
  | true =>
      cases st with
      | varDecl sp x ty isConst init =>
          obtain ⟨init', s₀, b, rfl, hinit, hb, hknown, hshape, hdefine⟩ :=
            Analysis.passes_varDecl_known hfirst
          have hstands₀ : Stands c late s₀ base V scopes := hstands.of_known hshape hknown
          rw [← hknown]
          refine Zone.leads_cons_varDecl hstands₀.stable hni (fun e he => ?_) (hstands₀.declaring hdefine hb)
            fun v b' hnew => ?_
          · rw [hknown]
            exact hstands.readable (hinit e he)
          · have hstands₁ := hstands₀.declare hdefine (late_of_varDecl hb hlate.1) hnew.used hnew.old
            exact hrest hlater horderly.2 hlate.2 hstands₁ (hserves₁ (Frames.tail_declare x v V) (.inr rfl))
      | _ => cases hdeclares
  | false =>
      have hadvances := Analysis.advances_stmt st hfirst (List.Subset.refl _) (List.Subset.refl _)
      have hshape := hfirst.shape (Analysis.keeps_checkStmt st hdeclares)
      have hstands₁ : Stands c late s₁ base V scopes := hstands.of_advances hshape hadvances hlate.1
      have hdeclares' := (Analysis.declares_of_passes hfirst).trans hdeclares
      have hcont : st'.continues → Meets c s.scopes.known V E.cont := fun hcont => by
        refine (hserves.cont ?_).leave
        rw [anyContinues, hcont, Bool.true_or]
      cases rest with
      | nil =>
          obtain ⟨rfl, rfl⟩ := Analysis.passes_stmts_nil hlater
          refine Zone.leads_cons (A := E.next) hni hdeclares' (hst hfirst hdeclares horderly.1 hlate.1 hstands
            ⟨fun hjump => (hserves.next hjump).leave, fun hbreaks => ?_, hcont⟩) (Zone.leads_nil fun _ hx => hx)
          by_cases hlast : ∃ sp, st' = .break sp
          · -- In front of the last `break` just as much is known as behind it.
            obtain ⟨sp, rfl⟩ := hlast
            exact (hserves.last rfl).leave.below (hadvances.below (Analysis.samePlaces_of_shape hshape)
              fun _ _ => List.not_mem_nil)
          · refine (hserves.early ?_).leave
            rw [breaksEarly_cons (.inr fun sp heq => hlast ⟨sp, heq⟩), hbreaks, Bool.true_or]
      | cons t rest =>
          have hne : rest' ≠ [] := by
            obtain ⟨t', _, rest', _, _, rfl⟩ := Analysis.passes_stmts_cons hlater
            exact List.cons_ne_nil _ _
          refine Zone.leads_cons (A := Known c s₁.scopes.known (Frames.at? V)) hni hdeclares'
            (hst hfirst hdeclares horderly.1 hlate.1 hstands ⟨fun _ => meets_self, fun hbreaks => ?_, hcont⟩)
            (hrest hlater horderly.2 hlate.2 hstands₁ (hserves₁ rfl (.inl hne)))
          refine (hserves.early ?_).leave
          rw [breaksEarly_cons (.inl hne), hbreaks, Bool.true_or]

/-! ## Choices -/

theorem leadsStmt_ifThen (hni : Inert initializing lc ni) (sp : Span) (e : Expr) {body : List Stmt}
    (hlead : LeadsStmts c late lc ni body) : LeadsStmt c late lc ni (.ifThen sp e body) := by
  intro st' s s' base V scopes E P h _ horderly hlate hstands hserves
  obtain ⟨e', s₁, body', s₂, he, hbody, rfl, rfl⟩ := Analysis.passes_ifThen h
  obtain ⟨hleaves, hknown⟩ := he.looks (Analysis.looks_checkCondition e)
  have hreads := hstands.readable hleaves
  have hstands₁ := hstands.of_known (he.shape (Analysis.namesKept.looks_checkCondition e).keeps) hknown
  have hshape := hbody.shape_leave (Analysis.grows_checkStmts body)
  obtain ⟨hthen, hskip⟩ := Analysis.restored_afterBranches (s := s₂.leave) (endsInJump body) false
    (Analysis.samePlaces_snapshot rfl) (Analysis.samePlaces_snapshot hshape.symm)
  rw [Scopes.known_snapshot] at hthen hskip
  have hbrk := hserves.brk
  have hcont := hserves.cont
  rw [← hknown] at hreads hbrk hcont ⊢
  exact Zone.leads_ifThen hstands₁.stable hni hreads ((hserves.next rfl).below (hskip rfl))
    (hlead.inner hbody horderly hlate hstands₁ (fun hjumps => (hserves.next rfl).below (hthen hjumps)) hbrk
      hcont)

theorem leadsStmt_ifElse (hni : Inert initializing lc ni) (sp : Span) (e : Expr) {x y : List Stmt}
    (hx : LeadsStmts c late lc ni x) (hy : LeadsStmts c late lc ni y) :
    LeadsStmt c late lc ni (.ifElse sp e x y) := by
  intro st' s s' base V scopes E P h _ horderly hlate hstands hserves
  obtain ⟨e', s₁, x', s₂, y', s₃, he, hx', hy', rfl, rfl⟩ := Analysis.passes_ifElse h
  rw [Stmt.isOrderly, Bool.and_eq_true] at horderly
  rw [Stmt.collect, List.append_subset] at hlate
  obtain ⟨hleaves, hknown⟩ := he.looks (Analysis.looks_checkCondition e)
  have hreads := hstands.readable hleaves
  have hstands₁ := hstands.of_known (he.shape (Analysis.namesKept.looks_checkCondition e).keeps) hknown
  -- The second branch begins as the first one did.
  have hshape₂ := hx'.shape_leave (Analysis.grows_checkStmts x)
  have hknown₂ := Analysis.known_restored_snapshot hshape₂
  have hsame := (s₂.leave.shape_restored s₁.scopes.snapshot).trans hshape₂
  have hstands₂ := hstands₁.of_known hsame hknown₂
  have hshape₃ := (hy'.shape_leave (Analysis.grows_checkStmts y)).trans hsame
  obtain ⟨hfirst, hsecond⟩ := Analysis.restored_afterBranches (s := s₃.leave) (endsInJump x) (endsInJump y)
    (Analysis.samePlaces_snapshot (hshape₂.trans hshape₃.symm)) (Analysis.samePlaces_snapshot rfl)
  rw [Scopes.known_snapshot] at hfirst hsecond
  have hnext : endsInJump x = false ∨ endsInJump y = false → Meets c _ V E.next := fun hopen => by
    refine hserves.next ?_
    rw [Stmt.isJump, (Analysis.sameEnd_of_passes x hx').2.1, (Analysis.sameEnd_of_passes y hy').2.1]
    rcases hopen with hopen | hopen
    · rw [hopen, Bool.false_and]
    · rw [hopen, Bool.and_false]
  have hbrk : anyBreaks x' ∨ anyBreaks y' → Meets c s.scopes.known V E.brk := fun hany =>
    hserves.brk (by rwa [Stmt.breaks, Bool.or_eq_true])
  have hcont : anyContinues x' ∨ anyContinues y' → Meets c s.scopes.known V E.cont := fun hany =>
    hserves.cont (by rwa [Stmt.continues, Bool.or_eq_true])
  rw [← hknown] at hreads hbrk hcont ⊢
  refine Zone.leads_ifElse hstands₁.stable hni hreads
    (hx.inner hx' horderly.1 hlate.1 hstands₁ (fun hjumps => (hnext (.inl hjumps)).below (hfirst hjumps))
      (fun hany => hbrk (.inl hany)) fun hany => hcont (.inl hany)) ?_
  rw [← hknown₂] at hbrk hcont ⊢
  exact hy.inner hy' horderly.2 hlate.2 hstands₂ (fun hjumps => (hnext (.inr hjumps)).below (hsecond hjumps))
    (fun hany => hbrk (.inr hany)) fun hany => hcont (.inr hany)

theorem leadsStmt_block (hni : Inert initializing lc ni) (sp : Span) {body : List Stmt}
    (hlead : LeadsStmts c late lc ni body) : LeadsStmt c late lc ni (.block sp body) := by
  intro st' s s' base V scopes E P h _ horderly hlate hstands hserves
  obtain ⟨body', s₁, hbody, rfl, rfl⟩ := Analysis.passes_block h
  refine Zone.leads_block hni (hlead.inner hbody horderly hlate hstands (fun hjumps => hserves.next ?_)
    hserves.brk hserves.cont)
  rw [Stmt.isJump, (Analysis.sameEnd_of_passes body hbody).2.1, hjumps]

/-! ## Loops -/

theorem leadsStmt_while (hni : Inert initializing lc ni) (sp : Span) (e : Expr) {body : List Stmt}
    (hlead : LeadsStmts c late lc ni body) : LeadsStmt c late lc ni (.while sp e body) := by
  intro st' s s' base V scopes E P h _ horderly hlate hstands hserves
  obtain ⟨e', s₁, body', s₂, he, hbody, rfl, rfl⟩ := Analysis.passes_while h
  have hstands₀ := hstands.of_known s.shape_forget (Analysis.known_forget s)
  obtain ⟨hleaves, hknown⟩ := he.looks (Analysis.looks_checkCondition e)
  have hreads := hstands₀.readable hleaves
  have hstands₁ := hstands₀.of_known (he.shape (Analysis.namesKept.looks_checkCondition e).keeps) hknown
  have hstands₂ := hstands₁.of_known s₁.shape_forget (Analysis.known_forget s₁)
  have hshape := (hbody.shape_leave (Analysis.grows_checkStmts body)).trans s₁.shape_forget
  have hadvances := Analysis.advances_inScope hbody
    (Analysis.advances_stmts body hbody (List.Subset.refl _) (List.Subset.refl _))
  have hnext := hserves.next rfl
  rw [Analysis.known_forget, Analysis.known_restored_snapshot hshape] at hnext
  rw [← Analysis.known_forget s]
  rw [← hknown] at hreads ⊢
  rw [← Analysis.known_forget s₁] at hreads hnext ⊢
  refine Zone.leads_while hstands₂.stable hni hreads hnext ?_
  exact hlead.inner hbody horderly hlate hstands₂ (fun _ => meets_self.below hadvances.kept)
    (fun _ => hnext) fun _ => meets_self

/-- If the body assigns to no late name, no more is known behind it than in front of it. -/
theorem below_of_assignsLate {body' : List Stmt} {L : List String} {f g : Knowledge}
    (h : assignsLate late body' = false) (hadvances : f.Advances (assignedIn body') L g)
    (hplaces : g.SamePlaces f) (hlate : ∀ {k}, f k = some false → k.2 ∈ late) : g.Below f := by
  refine hadvances.below hplaces fun k hk hmem => ?_
  have hany : assignsLate late body' = true :=
    List.any_eq_true.2 ⟨k.2, hmem, List.contains_iff_mem.2 (hlate hk)⟩
  rw [h] at hany
  cases hany

theorem leadsStmt_doWhile (hni : Inert initializing lc ni) (sp : Span) (e : Expr) {body : List Stmt}
    (hlead : LeadsStmts c late lc ni body) : LeadsStmt c late lc ni (.doWhile sp body e) := by
  intro st' s s' base V scopes E P h _ horderly hlate hstands hserves
  obtain ⟨body', s₁, e', s₂, hbody, he, rfl, rfl⟩ := Analysis.passes_doWhile h
  rw [Stmt.isOrderly, Bool.and_eq_true, Bool.not_eq_true'] at horderly
  have hstands₀ := hstands.of_known s.shape_forget (Analysis.known_forget s)
  have hshape := hbody.shape_leave (Analysis.grows_checkStmts body)
  have hadvances := Analysis.advances_inScope hbody
    (Analysis.advances_stmts body hbody (List.Subset.refl _) hlate)
  have hstands₁ := hstands₀.of_advances hshape hadvances (List.Subset.refl _)
  obtain ⟨hleaves, hknown⟩ := he.looks (Analysis.looks_checkCondition e)
  -- If a jump leaves the body before its end, all that is known there was known in front of it.
  have hbelow : anyBreaks body' ∨ anyContinues body' →
      s₁.leave.scopes.known.Below s.forget.scopes.known := by
    intro hjumps
    have hjumps : (anyBreaks body' || anyContinues body') = true := by rwa [Bool.or_eq_true]
    rw [hjumps, Bool.true_and] at horderly
    exact below_of_assignsLate horderly.2 hadvances (Analysis.samePlaces_of_shape hshape) hstands₀.late
  have hdone : Meets c s₁.leave.scopes.known V E.next := by
    have hnext := hserves.next rfl
    rwa [Analysis.known_forget, hknown] at hnext
  rw [← Analysis.known_forget s]
  refine Zone.leads_doWhile (C := Known c s₁.leave.scopes.known (Frames.at? V)) hni hstands₁.stable
    (hstands₁.readable hleaves) (meets_self.below hadvances.kept) hdone ?_
  rw [knowing_inner, ← Analysis.known_enter s.forget .loop]
  exact hlead hbody horderly.1 hlate (hstands₀.enter .loop)
    ⟨fun _ => meets_self, fun hearly => hdone.below (hbelow (.inl (anyBreaks_of_breaksEarly hearly))),
      fun _ => hdone, fun hcont => meets_self.below (hbelow (.inr hcont))⟩

theorem leadsStmt_forEach (hni : Inert initializing lc ni) (sp : Span) (kind : IterKind) (ty : Option Ty)
    (x : String) (e : Expr) {body : List Stmt} (hlead : LeadsStmts c late lc ni body) :
    LeadsStmt c late lc ni (.forEach sp kind ty x e body) := by
  intro st' s s' base V scopes E P h _ horderly hlate hstands hserves
  obtain ⟨e', s₁, elem, s₂, r, s₃, body', s₄, he, helem, hdefine, hbody, rfl, rfl⟩ := Analysis.passes_forEach h
  obtain ⟨hleaves, hknown₁⟩ := he.looks (Analysis.looks_checkExpr none e)
  have hreads := hstands.readable hleaves
  have hinspects := Analysis.namesKept.looks_loopVariable sp kind ty x e'
  have hknown : s₂.forget.scopes.known = s.scopes.known :=
    (Analysis.known_forget s₂).trans ((hinspects.known helem).trans hknown₁)
  have hstands₂ : Stands c late s₂.forget base V scopes := hstands.of_known
    (s₂.shape_forget.trans ((helem.shape hinspects.keeps).trans
      (he.shape (Analysis.inspects_checkExpr none e).keeps))) hknown
  have hshape := (Analysis.shape_leave_of_define hdefine hbody).trans s₂.shape_forget
  have hadvances := Analysis.advances_inScope_define hdefine rfl hbody
    (Analysis.advances_stmts body hbody (List.Subset.refl _) (List.Subset.refl _))
  have hnext := hserves.next rfl
  rw [Analysis.known_forget, Analysis.known_restored_snapshot hshape, ← Analysis.known_forget s₂] at hnext
  obtain rfl := Analysis.define_enter hdefine
  rw [← hknown] at hreads ⊢
  refine Zone.leads_forEach (B := fun v => Known c s₃.scopes.known
    (Frames.at? (Frames.declare x v ([] :: V)))) hstands₂.stable hni hreads hnext
    (fun _ => hstands₂.binding hdefine) fun v b hnew => ?_
  have hstands₃ := ((hstands₂.enter .loop).declare hdefine nofun hnew.used hnew.old).push
  refine hlead hbody horderly hlate hstands₃ ⟨fun _ => meets_self.below hadvances.kept, fun _ => ?_, fun _ =>
    hnext.below hadvances.kept, fun _ => ?_⟩
  · rw [Analysis.leave_of_define hdefine]
    exact hnext
  · rw [Analysis.leave_of_define hdefine]
    exact meets_self

/-! ### Loops with a step -/

/-- A `for` loop behind its first statement. -/
theorem resumes_loop (hni : Inert initializing lc ni) {e e' : Option Expr} {update update' : Option Stmt}
    {body body' : List Stmt} {s₃ s₄ : State} (hlead : LeadsStmts c late lc ni body)
    (hstands : Stands c late s base V scopes)
    (he : Passes (Analysis.checkCondition? e) c s.forget e' s₂)
    (hbody : Passes (checkStmts body) c (s₂.enter .loop) body' s₃)
    (hupdate : Passes (checkStmt? update) c s₃ update' s₄) (horderly : areOrderly late body')
    (hstep : stepOrderly late body' update') (hlate : collectAll Stmt.leavesOpen body' ⊆ late)
    (hnext : Meets c s.scopes.known V E.next) :
    (knowing c base s.scopes.known V scopes).Resumes initializing lc E P
      (lowerForRest ni e' update' body') := by
  intro sk hs hends hP
  have hstands₁ := hstands.of_known s.shape_forget (Analysis.known_forget s)
  obtain ⟨hleaves, hknown₁⟩ := he.looks (Analysis.looks_checkCondition? e)
  have hknown : s₂.scopes.known = s.scopes.known := hknown₁.trans (Analysis.known_forget s)
  have hstands₂ := hstands₁.of_known (he.shape (Analysis.inspects_checkCondition? e).keeps) hknown₁
  have hadvances := Analysis.advances_inScope hbody
    (Analysis.advances_stmts body hbody (List.Subset.refl _) hlate)
  have hshape := hbody.shape_leave (Analysis.grows_checkStmts body)
  have hstands₃ := hstands₂.of_advances hshape hadvances (List.Subset.refl _)
  -- Control comes to the step from the end of the body and from each `continue` in it.
  let f : Knowledge := if anyContinues body' then s₂.scopes.known else s₃.leave.scopes.known
  have hbefore : s₂.scopes.known.Below f := by
    intro k hk
    dsimp only [f]
    split
    · exact hk
    · exact hadvances.kept k hk
  have hafter : f.Below s₃.leave.scopes.known := by
    intro k hk
    dsimp only [f] at hk
    split at hk
    · exact hadvances.kept k hk
    · exact hk
  refine Zone.draws_forRest (S := Known c f (Frames.at? V)) hstands.stable hni
    (fun e₁ he₁ => ?_) (fun _ => hnext) ?_ ?_ hs hends hP
  · have hreads := hstands₁.readable (hleaves e₁ he₁)
    rwa [Analysis.known_forget] at hreads
  · rw [← hknown] at hnext ⊢
    rw [knowing_inner, ← Analysis.known_enter s₂ .loop]
    refine hlead hbody horderly hlate (hstands₂.enter .loop) ⟨fun _ => meets_self.below hafter, fun _ => hnext,
      fun _ => hnext.below hadvances.kept, fun hcont => ?_⟩
    show Meets c s₂.scopes.known V (Known c (if _ then _ else _) _)
    rw [if_pos hcont]
    exact meets_self
  · cases update with
    | none =>
        obtain ⟨rfl, _⟩ := Analysis.passes_stmt?_none hupdate
        intro sk _ hat _
        rw [lowerStmt?]
        exact draws_pure (hat.mono fun past hpast => hpast.below (hknown ▸ hbefore)).ends
    | some st =>
        obtain ⟨st', hst, rfl⟩ := Analysis.passes_stmt?_some hupdate
        obtain ⟨names, hnames, hfree⟩ := stepOrderly_some hstep
        have hback : Meets c f V (Known c s.scopes.known (Frames.at? V)) := meets_self.below (hknown ▸ hbefore)
        refine Zone.leads_some (leads_simple hni hstands₃ (by rw [hnames]; rfl) ?_ (fun _ => hback)
          fun _ _ _ _ _ _ v _ t past hpast => (hback past hpast).cons nofun nofun)
        refine (Analysis.reads_of_passes hst).of_names hnames (fun n x hx hlook => ?_)
          fun _ hproto _ hpast => hpast.self hproto
        obtain ⟨hdeclared, hassigned⟩ := hfree x hx
        -- The step looks the name up behind the scope of the body, which has no such name.
        have hplace : s₃.scopes.known (s₃.leave.scopes.length, x) = none := by
          rw [Option.eq_none_iff_forall_ne_some]
          intro b hb
          rcases Analysis.places_stmts body hbody (Option.isSome_iff_exists.2 ⟨b, hb⟩) with hold | hmem
          · rw [Analysis.known_enter] at hold
            obtain ⟨b', hold⟩ := Option.isSome_iff_exists.1 hold
            obtain ⟨_, hat, _⟩ := Option.map_eq_some_iff.1 hold
            have hlt := Frames.lt_of_at? hat
            rw [Scopes.length_frames, ← Analysis.length_of_shape hshape] at hlt
            exact Nat.lt_irrefl _ hlt
          · exact hdeclared hmem
        have hlook : s₃.leave.scopes.look x ≠ some false := by rwa [← Analysis.look_leave hplace]
        refine hstands₃.readable_ident hlook fun k hname hk => ?_
        show (if _ then _ else _ : Knowledge) k = _
        split
        · rename_i hcont
          exact hadvances.unassigned (Analysis.samePlaces_of_shape hshape)
            (fun hopen => hname ▸ hassigned hcont (hname ▸ hstands₂.late hopen)) hk
        · exact hk

theorem leadsStmt_for (hni : Inert initializing lc ni) (sp : Span) {init : Option Stmt} (e : Option Expr)
    (update : Option Stmt) {body : List Stmt} (hfirst : ∀ st ∈ init, LeadsStmt c late lc ni st)
    (hlead : LeadsStmts c late lc ni body) : LeadsStmt c late lc ni (.for sp init e update body) := by
  intro st' s s' base V scopes E P h _ horderly hlate hstands hserves
  obtain ⟨init', s₁, e', s₂, body', s₃, update', s₄, hinit, he, hbody, hupdate, rfl, rfl⟩ :=
    Analysis.passes_for h
  rw [Stmt.isOrderly, Bool.and_eq_true, Bool.and_eq_true] at horderly
  rw [Stmt.collect, List.append_subset, List.append_subset] at hlate
  -- Behind the loop that is known which is known behind its first statement.
  have hshape : s₄.leave.scopes.shape = s₁.scopes.shape :=
    ((hbody.bind (g := fun _ => checkStmt? update) hupdate).shape_leave
      ((Analysis.grows_checkStmts body).bind fun _ => Analysis.namesKept.grows_checkStmt? update)).trans
      ((he.shape (Analysis.inspects_checkCondition? e).keeps).trans s₁.shape_forget)
  have hknown : (s₄.leave.restored s₁.scopes.snapshot).forget.scopes.known = s₁.scopes.known := by
    rw [Analysis.known_forget, Analysis.known_restored_snapshot hshape]
  have hnext : ∀ {V' : Frames String}, V'.tail = V → Meets c s₁.scopes.known V' E.next := by
    rintro V' rfl
    rw [← hknown]
    exact (hserves.next rfl).leave
  have hrest : ∀ {base V' scopes'} {P : Builder → Prop}, Stands c late s₁ base V' scopes' → V'.tail = V →
      (knowing c base s₁.scopes.known V' scopes').Resumes initializing lc E P
        (lowerForRest ni e' update' body') :=
    fun hstands₁ htail => resumes_loop hni hlead hstands₁ he hbody hupdate horderly.1.2 horderly.2 hlate.1.2
      (hnext htail)
  have hstands₀ := hstands.enter .block
  refine Zone.leads_for hni ?_
  rw [knowing_inner, ← Analysis.known_enter s .block]
  cases init with
  | none =>
      obtain ⟨rfl, rfl⟩ := Analysis.passes_stmt?_none hinit
      exact Zone.leads_first_none (hrest hstands₀ rfl)
  | some st =>
      obtain ⟨st', hst, rfl⟩ := Analysis.passes_stmt?_some hinit
      cases hdeclares : declares st with
      | false =>
          have hadvances := Analysis.advances_stmt st hst (List.Subset.refl _) hlate.1.1
          have hstands₁ := hstands₀.of_advances (hst.shape (Analysis.keeps_checkStmt st hdeclares)) hadvances
            (List.Subset.refl _)
          refine Zone.leads_first (A := Known c s₁.scopes.known (Frames.at? ([] :: V))) hni
            ((Analysis.declares_of_passes hst).trans hdeclares) (hfirst st rfl hst hdeclares horderly.1.1
              hlate.1.1 hstands₀ ⟨fun _ => meets_self, fun hbreaks => ?_, fun hcont => ?_⟩) (hrest hstands₁ rfl)
          · exact Meets.leave (hserves.brk (by rw [Stmt.breaks, breaks?, hbreaks, Bool.true_or]))
          · exact Meets.leave (hserves.cont (by rw [Stmt.continues, continues?, hcont, Bool.true_or]))
      | true =>
          cases st with
          | varDecl sp' x ty isConst init =>
              obtain ⟨init', s₀, b, rfl, hreads, hb, hknown₀, hshape₀, hdefine⟩ :=
                Analysis.passes_varDecl_known hst
              have hstands₁ := hstands₀.of_known hshape₀ hknown₀
              rw [← hknown₀]
              refine Zone.leads_first_varDecl hstands₁.stable hni (fun e₁ he₁ => ?_)
                (hstands₁.declaring hdefine hb) fun v b' hnew => ?_
              · rw [hknown₀]
                exact hstands₀.readable (hreads e₁ he₁)
              · exact hrest (hstands₁.declare hdefine (late_of_varDecl hb hlate.1.1) hnew.used hnew.old)
                  (Frames.tail_declare x v _)
          | _ => cases hdeclares

end

end ProtoScript.Lowering
