import ProtoScript.Proofs.Lowering.Followed
import ProtoScript.Proofs.Lowering.Lenient

set_option autoImplicit false

/-!
# Variables are assigned to before they are read

In every lowered function of a program without problems whose body is orderly, between the declaration of
a variable and a place where it is read, on every path, there is an assignment to it
(`stored_of_isClean`). Without order that need not be so: the checker takes the body of a `do` loop to run to
its end.
-/

namespace ProtoScript.Lowering

open Ir
open Analysis (State Passes checkStmt checkStmts checkArms checkClauses)

section

variable {c : Analysis.Context} {late : List String} {lc : Context} {ni : String → Lower Temp}
  {s s' s₁ s₂ : State} {base : Builder} {V scopes : Frames String} {f : Knowledge}
  {E : Exits (List Instr)} {P : Builder → Prop}

/-! ## Switches -/

/-- The judgement for arms of a switch, at whose labels that is known which is known in front of the switch. -/
def LeadsArms (c : Analysis.Context) (late : List String) (lc : Context) (ni : String → Lower Temp)
    (arms : List SwitchArm) : Prop :=
  ∀ {ty? before merged merged' arms' s s' base V scopes E P done labels},
    Passes (checkArms ty? before merged arms) c s (arms', merged') s' → armsOrderly late arms' →
    armsCollect Stmt.leavesOpen arms' ⊆ late → Stands c late s base V scopes →
    before.known.SamePlaces s.scopes.known → (∀ {k}, before.known k = some false → k.2 ∈ late) →
    (∀ m ∈ merged, m.known.SamePlaces s.scopes.known) → (∀ m ∈ merged', Meets c m.known V E.next) →
    (armsContinue arms' → Meets c before.known V E.cont) → labels.length = arms'.length →
    (knowing c base before.known V scopes).LeadsArms initializing lc E P ni done labels arms'

theorem leadsArms_nil : LeadsArms c late lc ni [] := by
  intro ty? before merged merged' arms' s s' base V scopes E P done labels h _ _ _ _ _ _ _ _ _
  obtain ⟨rfl, _⟩ := Analysis.passes_arms_nil h
  exact Zone.leadsArms_nil

theorem leadsArms_cons (hni : Inert initializing lc ni) (sp : Span) (test : Option Expr) {body : List Stmt}
    (falls : Bool) {rest : List SwitchArm} (hlead : LeadsStmts c late lc ni body)
    (hrest : LeadsArms c late lc ni rest) : LeadsArms c late lc ni (.mk sp test body falls :: rest) := by
  intro ty? before merged merged' arms' s s' base V scopes E P done labels h horderly hlate hstands hplaces
    hopen hmerged hnext hcont hlength
  obtain ⟨test', s₁, body', s₂, rest', htest, hbody, harms, rfl⟩ := Analysis.passes_arms_cons h
  obtain ⟨label, labels, rfl⟩ := List.exists_cons_of_length_eq_add_one hlength
  rw [armsOrderly, Bool.and_eq_true, Bool.and_eq_true, Bool.not_eq_true'] at horderly
  rw [armsCollect, List.append_subset] at hlate
  have htests := Analysis.inspects_checkTest ty? test
  have hplaces₁ : before.known.SamePlaces s₁.scopes.known := by rwa [htests.known htest]
  have hstands₁ := (hstands.of_known (htest.shape htests.keeps) (htests.known htest)).restored hplaces₁ hopen
  have hbefore := Analysis.known_restored hplaces₁
  have hadvances := Analysis.advances_inScope hbody
    (Analysis.advances_stmts body hbody (List.Subset.refl _) hlate.1)
  have hshape := hbody.shape_leave (Analysis.grows_checkStmts body)
  have hstands₂ := hstands₁.of_advances hshape hadvances (List.Subset.refl _)
  rw [hbefore] at hadvances
  have hplaces₂ : before.known.SamePlaces s₂.leave.scopes.known := by
    rw [← hbefore]
    exact fun k => (Analysis.samePlaces_of_shape hshape k).symm
  have hmerged₂ : ∀ m ∈ some (Analysis.joinPath merged s₂.leave.scopes.snapshot),
      m.known.SamePlaces s₂.leave.scopes.known := by
    intro m hm
    cases hm
    exact Analysis.samePlaces_joinPath
      (fun m hm => ((hmerged m hm).trans fun k => (hplaces k).symm).trans hplaces₂)
      (Analysis.samePlaces_snapshot rfl)
  -- What is known behind the switch is known behind each arm.
  have hend : Meets c s₂.leave.scopes.known V E.next := by
    obtain ⟨m, hm, hbelow⟩ := (Analysis.merged_arms rest harms hmerged₂).2 _ rfl
    rw [← Scopes.known_snapshot]
    exact ((hnext m hm).below hbelow).below Analysis.joinPath_below.1
  have hbody' : ∀ {N : List Instr → Prop}, (endsInJump body' = false → Meets c s₂.leave.scopes.known V N) →
      (knowing c base before.known V scopes).inner.Leads initializing lc ⟨N, E.next, E.cont⟩
        (Reached lc P (startBlock label) fun _ b => (b.looping done none).enter) (lowerStmts ni body') := by
    intro N hN
    rw [knowing_inner, ← hbefore, ← Analysis.known_enter _ .switch]
    refine hlead hbody horderly.1.1 hlate.1 (hstands₁.enter .switch) ⟨hN, fun hearly => ?_, fun _ => hend,
      fun hany => ?_⟩
    · show Meets c (s₁.restored before).scopes.known V E.next
      rw [hbefore]
      refine hend.below (below_of_assignsLate ?_ hadvances (fun k => (hplaces₂ k).symm) hopen)
      rw [hearly, Bool.true_and] at horderly
      exact horderly.1.2
    · show Meets c (s₁.restored before).scopes.known V E.cont
      rw [hbefore]
      exact hcont (by rw [armsContinue, hany, Bool.true_or])
  refine Zone.leadsArms_cons hni rfl (hbody' fun _ => ?_) (hrest harms horderly.2 hlate.2 hstands₂ hplaces₂
    hopen hmerged₂ hnext (fun hany => hcont ?_) (Nat.succ.inj hlength))
  · split
    · exact meets_self.below hadvances.kept
    · exact hend
  · rw [armsContinue, hany, Bool.or_true]

/-- A test may stand behind arms that are not run. If it uses no late name that they assign to, all that it
looks at has a value in front of the switch. -/
theorem readable_tests (arms : List SwitchArm) {ty? : Option Ty} {before : FlowSnapshot}
    {merged merged' : Option FlowSnapshot} {arms' : List SwitchArm} {A : List String}
    (h : Passes (checkArms ty? before merged arms) c s (arms', merged') s')
    (hstands : Stands c late s base V scopes) (hA : armsCollect Stmt.assigns arms' ⊆ A)
    (hlate : armsCollect Stmt.leavesOpen arms' ⊆ late) (hplaces : before.known.SamePlaces s.scopes.known)
    (hopen : ∀ {k}, before.known k = some false → k.2 ∈ late)
    (hadvances : before.known.Advances A late s.scopes.known)
    (hnames : ∀ arm ∈ arms', ∀ e ∈ arm.test, ∀ x ∈ e.names, x ∈ late → x ∉ A) :
    ∀ arm ∈ arms', ∀ e ∈ arm.test, e.Leaves ((knowing c base before.known V scopes).Readable initializing) := by
  induction arms generalizing merged arms' s with
  | nil =>
      obtain ⟨rfl, _⟩ := Analysis.passes_arms_nil h
      exact List.forall_mem_nil _
  | cons arm rest ih =>
      obtain ⟨sp, test, body, falls⟩ := arm
      obtain ⟨test', s₁, body', s₂, rest', htest, hbody, harms, rfl⟩ := Analysis.passes_arms_cons h
      rw [armsCollect, List.append_subset] at hA hlate
      rw [List.forall_mem_cons] at hnames ⊢
      constructor
      · intro e he
        obtain ⟨hleaves, _⟩ := htest.looks (Analysis.looks_checkTest ty? test)
        refine (hleaves e he).of_names e (fun n x hx hlook => ?_) fun _ hproto _ hpast => hpast.self hproto
        refine hstands.readable_ident hlook fun k hname hk => hadvances.unassigned (fun k => (hplaces k).symm)
          (fun hfalse => ?_) hk
        exact hname ▸ hnames.1 e he x hx (hname ▸ hopen hfalse)
      · have htests := Analysis.inspects_checkTest ty? test
        have hplaces₁ : before.known.SamePlaces s₁.scopes.known := by rwa [htests.known htest]
        have hstands₁ :=
          (hstands.of_known (htest.shape htests.keeps) (htests.known htest)).restored hplaces₁ hopen
        have hinner := Analysis.advances_inScope hbody (Analysis.advances_stmts body hbody hA.1 hlate.1)
        have hshape := hbody.shape_leave (Analysis.grows_checkStmts body)
        have hstands₂ := hstands₁.of_advances hshape hinner (List.Subset.refl _)
        have hplaces₂ := Analysis.samePlaces_of_shape hshape
        rw [Analysis.known_restored hplaces₁] at hinner hplaces₂
        exact ih harms hstands₂ hA.2 hlate.2 (fun k => (hplaces₂ k).symm) hinner hnames.2

/-- What is known behind a switch is known behind each arm, and in front of the switch if no arm has to be
run. -/
theorem meets_switch {A : List Instr → Prop} {ty? : Option Ty} {arms arms' : List SwitchArm}
    {merged : Option FlowSnapshot}
    (h : Passes (checkArms ty? s.scopes.snapshot none arms) c s (arms', merged) s')
    (hA : Meets c (s'.restored (if arms.any fun arm => arm.test.isNone then merged.getD s.scopes.snapshot
      else Analysis.joinPath merged s.scopes.snapshot)).scopes.known V A) :
    (∀ m ∈ merged, Meets c m.known V A) ∧
      ((arms.any fun arm => arm.test.isNone) = false → Meets c s.scopes.known V A) := by
  have hshape := h.shape (Analysis.namesKept.keeps_checkArms _ _ _ arms)
  have hplaces : s.scopes.known.SamePlaces s'.scopes.known := fun k =>
    (Analysis.samePlaces_of_shape hshape k).symm
  have hmerged := (Analysis.merged_arms arms h (by simp)).1
  have hsame : ∀ m ∈ merged, m.known.SamePlaces s'.scopes.known := fun m hm => (hmerged m hm).trans hplaces
  have hbefore : (FlowSnapshot.known s.scopes.snapshot).SamePlaces s'.scopes.known :=
    (Analysis.samePlaces_snapshot rfl).trans hplaces
  cases hdefault : arms.any fun arm => arm.test.isNone with
  | true =>
      refine ⟨fun m hm => ?_, nofun⟩
      cases hm
      rwa [hdefault, if_pos rfl, Option.getD_some, Analysis.known_restored (hsame m rfl)] at hA
  | false =>
      rw [hdefault, if_neg Bool.false_ne_true,
        Analysis.known_restored (Analysis.samePlaces_joinPath hsame hbefore)] at hA
      refine ⟨fun m hm => hA.below (Analysis.joinPath_below.2 m hm), fun _ => ?_⟩
      rw [← Scopes.known_snapshot]
      exact hA.below Analysis.joinPath_below.1

theorem leadsStmt_switch (hni : Inert initializing lc ni) (sp : Span) (e : Expr) {arms : List SwitchArm}
    (hlead : LeadsArms c late lc ni arms) : LeadsStmt c late lc ni (.switch sp e arms) := by
  intro st' s s' base V scopes E P h _ horderly hlate hstands hserves
  obtain ⟨e', s₁, arms', merged, s₂, he, harms, rfl, rfl⟩ := Analysis.passes_switch h
  rw [Stmt.isOrderly, Bool.and_eq_true] at horderly
  obtain ⟨hleaves, hknown⟩ := he.looks (Analysis.looks_checkSwitched e)
  have hreads := hstands.readable hleaves
  have hstands₁ := hstands.of_known (he.shape (Analysis.namesKept.looks_checkSwitched e).keeps) hknown
  have hbefore : FlowSnapshot.known s₁.scopes.snapshot = s₁.scopes.known := Scopes.known_snapshot _
  have hopen : ∀ {k}, FlowSnapshot.known s₁.scopes.snapshot k = some false → k.2 ∈ late := fun hk =>
    hstands₁.late (hbefore ▸ hk)
  obtain ⟨hmerged, hskip⟩ := meets_switch harms (hserves.next rfl)
  have hcont := hserves.cont
  rw [← hknown, ← hbefore] at hreads hcont ⊢
  rw [← hbefore] at hskip
  refine Zone.leads_switch hstands₁.stable hni hreads ?_ (fun htests => hskip ?_) fun done labels hlength =>
    hlead harms horderly.1 hlate hstands₁ (Analysis.samePlaces_snapshot rfl) hopen (by simp) hmerged hcont
      hlength
  · refine readable_tests arms harms hstands₁ (List.Subset.refl _) hlate (Analysis.samePlaces_snapshot rfl)
      hopen (.of_eq hbefore.symm) fun arm harm t ht x hx hmem hassigned => ?_
    have htest := (Option.all_eq_true ..).1 (List.all_eq_true.1 horderly.2 arm harm) t ht
    have hnone := List.all_eq_true.1 htest x hx
    rw [List.contains_iff_mem.2 hmem, List.contains_iff_mem.2 hassigned] at hnone
    cases hnone
  · rw [← (Analysis.sameEnd_of_passes_arms arms harms).1, List.any_eq_false]
    intro arm harm
    simp [Option.isSome_iff_ne_none.1 (htests arm harm)]

/-! ## Regions -/

/-- The judgement for catch clauses, which begin with what is known in front of the region. -/
def LeadsClauses (c : Analysis.Context) (late : List String) (lc : Context) (ni : String → Lower Temp)
    (clauses : List CatchClause) : Prop :=
  ∀ {before merged merged' clauses' s s' base V scopes E P exception done},
    Passes (checkClauses before merged clauses) c s (clauses', merged') s' → clausesOrderly late clauses' →
    clausesCollect Stmt.leavesOpen clauses' ⊆ late → Stands c late s base V scopes →
    before.known.SamePlaces s.scopes.known → (∀ {k}, before.known k = some false → k.2 ∈ late) →
    merged.known.SamePlaces s.scopes.known → Meets c merged'.known V E.next →
    (clausesBreak clauses' → Meets c before.known V E.brk) →
    (clausesContinue clauses' → Meets c before.known V E.cont) →
    (knowing c base before.known V scopes).LeadsClauses initializing lc E P ni exception done clauses'

theorem leadsClauses_nil : LeadsClauses c late lc ni [] := by
  intro before merged merged' clauses' s s' base V scopes E P exception done h _ _ _ _ _ _ _ _ _
  obtain ⟨rfl, _⟩ := Analysis.passes_clauses_nil h
  exact Zone.leadsClauses_nil

theorem leadsClauses_cons (hni : Inert initializing lc ni) (sp : Span) (proto x : String) {body : List Stmt}
    {rest : List CatchClause} (hlead : LeadsStmts c late lc ni body) (hrest : LeadsClauses c late lc ni rest) :
    LeadsClauses c late lc ni (.mk sp proto x body :: rest) := by
  intro before merged merged' clauses' s s' base V scopes E P exception done h horderly hlate hstands hplaces
    hopen hmerged hnext hbrk hcont
  obtain ⟨r, s₁, body', s₂, rest', _, _, hdefine, hbody, hclauses, rfl⟩ := Analysis.passes_clauses_cons h
  rw [clausesOrderly, Bool.and_eq_true] at horderly
  rw [clausesCollect, List.append_subset] at hlate
  have hstands₀ := hstands.restored hplaces hopen
  have hbefore := Analysis.known_restored hplaces
  have hadvances := Analysis.advances_inScope_define hdefine rfl hbody
    (Analysis.advances_stmts body hbody (List.Subset.refl _) hlate.1)
  have hshape := Analysis.shape_leave_of_define hdefine hbody
  have hstands₂ := hstands₀.of_advances hshape hadvances (List.Subset.refl _)
  rw [hbefore] at hadvances
  have hplaces₂ : before.known.SamePlaces s₂.leave.scopes.known := by
    rw [← hbefore]
    exact fun k => (Analysis.samePlaces_of_shape hshape k).symm
  have hmerged₂ : (merged.join s₂.leave.scopes.snapshot).known.SamePlaces s₂.leave.scopes.known := by
    rw [FlowSnapshot.known_join]
    exact ((hmerged.trans fun k => (hplaces k).symm).trans hplaces₂).join (Analysis.samePlaces_snapshot rfl)
  -- What is known behind the statement is known behind each clause.
  have hend : Meets c s₂.leave.scopes.known V E.next := by
    have hbelow := (Analysis.merged_clauses rest hclauses hmerged₂).2
    rw [FlowSnapshot.known_join, Scopes.known_snapshot] at hbelow
    exact (hnext.below hbelow).below Knowledge.join_below_right
  obtain rfl := Analysis.define_enter hdefine
  have hleave := Analysis.leave_of_define hdefine
  have hbinding : (knowing c base (s.restored before).scopes.known V scopes).Binding initializing
      (.named proto) _ := hstands₀.binding hdefine
  rw [hbefore] at hbinding
  refine Zone.leadsClauses_cons hstands.stable hni hbinding (fun v b hnew => ?_)
    (hrest hclauses horderly.2 hlate.2 hstands₂ hplaces₂ hopen hmerged₂ hnext (fun hany => hbrk ?_)
      fun hany => hcont ?_)
  · have hstands₁ := (hstands₀.enter .block).declare hdefine nofun hnew.used hnew.old
    refine hlead hbody horderly.1 hlate.1 hstands₁ ⟨fun _ => hend, fun hearly => ?_, fun hany => ?_,
      fun hany => ?_⟩
    · rw [hleave, hbefore]
      exact hbrk (by rw [clausesBreak, anyBreaks_of_breaksEarly hearly, Bool.true_or])
    · exact (hbrk (by rw [clausesBreak, hany, Bool.true_or])).below hadvances.kept
    · rw [hleave, hbefore]
      exact hcont (by rw [clausesContinue, hany, Bool.true_or])
  · rw [clausesBreak, hany, Bool.or_true]
  · rw [clausesContinue, hany, Bool.or_true]

theorem leadsStmt_try (hni : Inert initializing lc ni) (sp : Span) {body : List Stmt}
    {clauses : List CatchClause} (hlead : LeadsStmts c late lc ni body)
    (hclauses : LeadsClauses c late lc ni clauses) : LeadsStmt c late lc ni (.try sp body clauses) := by
  intro st' s s' base V scopes E P h _ horderly hlate hstands hserves
  obtain ⟨body', s₁, clauses', merged, s₂, hbody, hcaught, rfl, rfl⟩ := Analysis.passes_try h
  rw [Stmt.isOrderly, Bool.and_eq_true] at horderly
  rw [Stmt.collect, List.append_subset] at hlate
  have hadvances := Analysis.advances_inScope hbody
    (Analysis.advances_stmts body hbody (List.Subset.refl _) hlate.1)
  have hshape := hbody.shape_leave (Analysis.grows_checkStmts body)
  have hstands₁ := hstands.of_advances hshape hadvances (List.Subset.refl _)
  have hbefore : FlowSnapshot.known s.scopes.snapshot = s.scopes.known := Scopes.known_snapshot _
  have hplaces : (FlowSnapshot.known s.scopes.snapshot).SamePlaces s₁.leave.scopes.known :=
    Analysis.samePlaces_snapshot hshape.symm
  obtain ⟨hsame, hbelow⟩ := Analysis.merged_clauses clauses hcaught (Analysis.samePlaces_snapshot rfl)
  rw [Scopes.known_snapshot] at hbelow
  -- No instruction of the region itself declares a variable.
  have hregion : ∀ {f : Knowledge} {i : Instr} {past : List Instr}, i.declared? = none →
      Known c f (Frames.at? V) past → Known c f (Frames.at? V) (i :: past) := by
    intro f i past hi hpast
    exact hpast.cons (by simp [hi]) (by simp [hi])
  refine Zone.Leads.mono (A := Known c merged.known (Frames.at? V)) (Zone.leads_try
    (C := Known c s.scopes.known (Frames.at? V)) hstands.stable hni hstands.stable ?_ ?_ ?_
    fun exception done => ?_) ?_
  · rintro l past _ _ hpast ⟨⟩ ⟨⟩
    exact hregion rfl hpast
  · rintro past _ hpast ⟨⟩
    exact hregion rfl hpast
  · exact hlead.inner hbody horderly.1 hlate.1 hstands (fun _ => meets_self.below hbelow)
      (fun hany => hserves.brk (by rw [Stmt.breaks, hany, Bool.true_or]))
      fun hany => hserves.cont (by rw [Stmt.continues, hany, Bool.true_or])
  · show (knowing c base s.scopes.known V scopes).LeadsClauses _ _ _ _ _ _ _ _
    rw [← hbefore]
    refine hclauses hcaught horderly.2 hlate.2 hstands₁ hplaces (fun hk => hstands.late (hbefore ▸ hk))
      (Analysis.samePlaces_snapshot rfl) meets_self (fun hany => ?_) fun hany => ?_
    · rw [hbefore]
      exact hserves.brk (by rw [Stmt.breaks, hany, Bool.or_true])
    · rw [hbefore]
      exact hserves.cont (by rw [Stmt.continues, hany, Bool.or_true])
  · have hnext := hserves.next rfl
    have hshape₂ := hcaught.shape (Analysis.namesKept.keeps_checkClauses _ _ clauses)
    rw [Analysis.known_restored (hsame.trans fun k => (Analysis.samePlaces_of_shape hshape₂ k).symm)] at hnext
    exact hnext

/-! ## All statements -/

theorem leadsStmt_assign (hni : Inert initializing lc ni) (sp : Span) (target : Expr) (op : Option BinaryOp)
    (e : Expr) : LeadsStmt c late lc ni (.assign sp target op e) := by
  intro st' s s' base V scopes E P h _ _ _ hstands hserves
  obtain ⟨target', e', hassign, rfl⟩ := Analysis.passes_assign h
  exact leads_assigns hni hstands rfl (Analysis.passes_assign_gives hassign) (hserves.next rfl)

theorem leadsStmt_expr (hni : Inert initializing lc ni) (sp : Span) (e : Expr) :
    LeadsStmt c late lc ni (.expr sp e) := by
  intro st' s s' base V scopes E P h _ _ _ hstands hserves
  obtain ⟨e', he, rfl⟩ := Analysis.passes_expr h
  obtain ⟨hleaves, hknown⟩ := he.looks (Analysis.looks_checkExpr none e)
  have hnext := hserves.next rfl
  rw [hknown] at hnext
  exact Zone.leads_expr hstands.stable hni (hstands.readable hleaves) hnext

theorem leadsStmt_break (sp : Span) : LeadsStmt c late lc ni (.break sp) := by
  intro st' s s' base V scopes E P h _ _ _ hstands hserves
  obtain ⟨_, rfl, rfl⟩ := Analysis.passes_break h
  exact Zone.leads_break hstands.stable (hserves.brk rfl) sp

theorem leadsStmt_continue (sp : Span) : LeadsStmt c late lc ni (.continue sp) := by
  intro st' s s' base V scopes E P h _ _ _ hstands hserves
  obtain ⟨_, rfl, rfl⟩ := Analysis.passes_continue h
  exact Zone.leads_continue hstands.stable (hserves.cont rfl) sp

theorem leadsStmt_throw (hni : Inert initializing lc ni) (sp : Span) (e : Expr) :
    LeadsStmt c late lc ni (.throw sp e) := by
  intro st' s s' base V scopes E P h _ _ _ hstands _
  obtain ⟨e', he, rfl⟩ := Analysis.passes_throw h
  exact Zone.leads_throw hstands.stable hni (hstands.readable (he.looks (Analysis.looks_checkThrow sp e)).1)

theorem leadsStmt_ret (hni : Inert initializing lc ni) (sp : Span) (e : Option Expr) :
    LeadsStmt c late lc ni (.ret sp e) := by
  intro st' s s' base V scopes E P h _ _ _ hstands _
  obtain ⟨e', he, rfl⟩ := Analysis.passes_ret h
  cases e' with
  | none => exact Zone.leads_retVoid hstands.stable fun _ _ => trivial
  | some e₁ =>
      exact Zone.leads_ret hstands.stable hni
        (hstands.readable ((he.looks (Analysis.looks_checkReturn sp e)).1 e₁ rfl))

mutual

/-- Every checked statement leads to exits that are met by what the checker knows there. -/
theorem leadsStmt (hni : Inert initializing lc ni) : (st : Stmt) → LeadsStmt c late lc ni st
  | .varDecl .. => fun _ hdeclares => by cases hdeclares
  | .assign sp target op e => leadsStmt_assign hni sp target op e
  | .expr sp e => leadsStmt_expr hni sp e
  | .ifThen sp e body => leadsStmt_ifThen hni sp e (leadsStmts hni body)
  | .ifElse sp e x y => leadsStmt_ifElse hni sp e (leadsStmts hni x) (leadsStmts hni y)
  | .while sp e body => leadsStmt_while hni sp e (leadsStmts hni body)
  | .doWhile sp body e => leadsStmt_doWhile hni sp e (leadsStmts hni body)
  | .for sp init e update body => leadsStmt_for hni sp e update (leadsStmt? hni init) (leadsStmts hni body)
  | .forEach sp kind ty x e body => leadsStmt_forEach hni sp kind ty x e (leadsStmts hni body)
  | .switch sp e arms => leadsStmt_switch hni sp e (leadsArms hni arms)
  | .break sp => leadsStmt_break sp
  | .continue sp => leadsStmt_continue sp
  | .ret sp e => leadsStmt_ret hni sp e
  | .throw sp e => leadsStmt_throw hni sp e
  | .try sp body clauses => leadsStmt_try hni sp (leadsStmts hni body) (leadsClauses hni clauses)
  | .block sp body => leadsStmt_block hni sp (leadsStmts hni body)
termination_by structural x => x

theorem leadsStmts (hni : Inert initializing lc ni) : (body : List Stmt) → LeadsStmts c late lc ni body
  | [] => leadsStmts_nil
  | st :: rest => leadsStmts_cons hni (leadsStmt hni st) (leadsStmts hni rest)
termination_by structural x => x

theorem leadsStmt? (hni : Inert initializing lc ni) : (init : Option Stmt) →
    ∀ st ∈ init, LeadsStmt c late lc ni st
  | none => by simp
  | some st => by
      rintro _ ⟨⟩
      exact leadsStmt hni st
termination_by structural x => x

theorem leadsArms (hni : Inert initializing lc ni) : (arms : List SwitchArm) → LeadsArms c late lc ni arms
  | [] => leadsArms_nil
  | .mk sp test body falls :: rest =>
      leadsArms_cons hni sp test falls (leadsStmts hni body) (leadsArms hni rest)
termination_by structural x => x

theorem leadsClauses (hni : Inert initializing lc ni) : (clauses : List CatchClause) →
    LeadsClauses c late lc ni clauses
  | [] => leadsClauses_nil
  | .mk sp proto x body :: rest =>
      leadsClauses_cons hni sp proto x (leadsStmts hni body) (leadsClauses hni rest)
termination_by structural x => x

end

end

/-! ## Functions -/

section

variable {c : Analysis.Context} {s s' : State} {f f' : FunctionDecl}

/-- All parameters have values. -/
theorem known_params (params : List Param) {s : State}
    (h : Passes (Analysis.checkParams params) c s () s') (hs : ∀ k, s.scopes.known k ≠ some false) :
    ∀ k, s'.scopes.known k ≠ some false := by
  induction params generalizing s with
  | nil =>
      obtain ⟨h, _⟩ := h
      cases h
      exact hs
  | cons p rest ih =>
      obtain ⟨hrun, hsilent⟩ := h
      obtain ⟨_, s₁, h₁, hrest⟩ := Analysis.run_step hrun
      obtain ⟨previous, s₂, h₂, hrest⟩ := Analysis.run_step hrest
      have l₁ := (Analysis.namesKept.keeps_checkTy p.ty p.span).count_le h₁
      have l₂ := Analysis.define_count h₂
      cases previous with
      | some previous =>
          obtain ⟨_, s₃, h₃, hrest⟩ := Analysis.run_step hrest
          have l₃ := Analysis.count_lt_of_report h₃
          have l₄ := (Analysis.namesKept.grows_checkParams rest).count_le hrest
          omega
      | none =>
          have l₃ := (Analysis.namesKept.grows_checkParams rest).count_le hrest
          have hsame : s₁ = s := (Analysis.checkTy_silent h₁ (by omega)).2.2
          refine ih (s := s₂) ⟨hrest, by omega⟩ fun k => ?_
          rw [hsame] at h₂
          rcases Analysis.define_known h₂ with ⟨_, rfl⟩ | ⟨_, _, hknown⟩
          · exact hs k
          · rw [hknown]
            split
            · simp
            · exact hs k

/-- At the start of a function the parameters are the only variables, and all of them have values. -/
theorem stands_start {late : List String} (hscopes : s.scopes = [])
    (hparams : Passes (Analysis.checkParams f.params) c (s.enter .function) () s')
    (hf' : f'.params = f.params) :
    Stands c late s' (startOf c.proto? f') (startOf c.proto? f').scopes (startOf c.proto? f').scopes := by
  have hempty : (s.enter .function).scopes = [⟨.function, []⟩] :=
    congrArg (fun scopes : Scopes => (⟨.function, []⟩ :: scopes : Scopes)) hscopes
  have hshape : (s.enter .function).scopes.shape = [(.function, [])] := by
    rw [hempty]
    rfl
  obtain ⟨hshape', _, _⟩ := Analysis.passes_params hparams hshape List.nodup_nil
  refine ⟨?_, fun _ => rfl, List.cons_ne_nil _ _, List.cons_ne_nil _ _, fun {k v} hv => ?_, fun hproto => ?_,
    fun hk => absurd hk (known_params f.params hparams ?_ _)⟩
  · obtain ⟨scope, hscope, htypes⟩ := List.map_eq_singleton_iff.1 hshape'
    rw [hscope]
    refine .cons ⟨rfl, fun _ => rfl⟩ fun x => ?_
    have hlookup := Analysis.lookup_scopeTypes scope x
    rw [show scope.types = paramTypes f.params from congrArg Prod.snd htypes] at hlookup
    rw [show (scope.bindings.lookup x).isSome = ((paramTypes f.params).lookup x).isSome by
      rw [hlookup, Option.isSome_map]; rfl, Bool.eq_iff_iff, isSome_lookup_iff, isSome_lookup_iff,
      map_fst_paramTypes, hf', List.map_map]
    rfl
  · change (if k.1 = 0 then (f'.params.map fun p => (p.name, p.name)).lookup k.2 else none) = some v at hv
    split at hv
    · obtain ⟨p, hp, heq⟩ := List.mem_map.1 (mem_of_lookup hv)
      refine List.mem_map.2 ⟨⟨p.name, p.ty⟩, List.mem_append_right _ (List.mem_map.2 ⟨p, hp, rfl⟩), ?_⟩
      exact congrArg Prod.snd heq
    · cases hv
  · obtain ⟨p, hp⟩ := Option.isSome_iff_exists.1 hproto
    unfold startOf functionParams
    rw [hp]
    exact List.mem_cons_self
  · rw [hempty]
    intro k
    show Option.map _ (Frames.at? [[]] k) ≠ _
    rw [Frames.at?_push]
    nofun

end

section

variable {p : Program} {library : Library} {hierarchy : Hierarchy} {depth : Nat} {proto? : Option String}
  {f : FunctionDecl} {F : Ir.Function}

/-- In a program without problems, in every lowered function whose body is orderly: on every path, between a
declaration of a variable and a place where it is read there is an assignment to it. -/
theorem stored_of_isClean (hclean : (p.analyze library).isClean)
    (hf : (proto?, f) ∈ (p.analyze library).program.bodies)
    (hF : lowerFunction hierarchy (p.analyze library).program.prototypes depth proto? f = .ok F)
    (horderly : f.isOrderly) {before later rest : List Instr} {b : Block} {t : Temp} {v : String} {ty : Ty}
    (hpath : F.Comes .history (later ++ .varDecl v ty :: before) b (.loadVar t v :: rest)) :
    ∃ t', Instr.storeVar v t' ∈ later := by
  obtain ⟨f₀, _, s, s', hpasses, hscopes⟩ := Program.passes_body_of_mem hclean hf
  obtain ⟨s₁, body, s₂, _, hparams, hbody, rfl⟩ := Analysis.passes_function_parts hpasses
  have hstands : Stands { p.context library with proto?, ret := f₀.ret } (lateIn body) s₁ _ _ _ :=
    stands_start hscopes hparams rfl
  have hinert : Inert initializing
      (contextOf hierarchy (p.analyze library).program.prototypes proto? { f₀ with body }) (newInstance depth) :=
    inert_newInstance (selfless_contextOf hclean proto? _) depth
  have hlead := leadsStmts hinert f₀.body hbody horderly (List.Subset.refl _) hstands
    (E := ⟨fun _ => True, fun _ => True, fun _ => True⟩) (P := (· = startOf proto? { f₀ with body }))
    ⟨fun _ _ _ => trivial, fun _ _ _ => trivial, fun _ _ _ => trivial, fun _ _ _ => trivial⟩
  obtain ⟨claims, hkept⟩ := kept_of_lowerFunction hF ⟨fun _ _ => trivial, fun _ => trivial⟩ hlead
    fun _ code _ => by
      unfold lastOf
      split <;> trivial
  exact (hkept.comes hpath).2.1.1.stored later

end

/-- A variable without an initial value is given one in both branches. -/
def pick : FunctionDecl where
  name := "pick"
  params := [{ name := "c", ty := .bool }]
  ret := .int
  body :=
    [.varDecl .origin "x" .int false none,
      .ifElse .origin (.ident {} "c") [.assign .origin (.ident {} "x") none (.literal {} (.int 1))]
        [.assign .origin (.ident {} "x") none (.literal {} (.int 2))],
      .ret .origin (some (.ident {} "x"))]

/-- What checking makes of `pick`. -/
def pickChecked : FunctionDecl where
  name := "pick"
  params := [{ name := "c", ty := .bool }]
  ret := .int
  body :=
    [.varDecl .origin "x" .int false none,
      .ifElse .origin (.ident { type? := some .bool } "c")
        [.assign .origin (.ident { type? := some .int } "x") none (.literal { type? := some .int } (.int 1))]
        [.assign .origin (.ident { type? := some .int } "x") none (.literal { type? := some .int } (.int 2))],
      .ret .origin (some (.ident { type? := some .int } "x"))]

/-- What `pick` is lowered to. -/
def pickCode : Ir.Function where
  name := "pick"
  params := [⟨"c", .bool⟩]
  ret := .int
  blocks :=
    [⟨"entry", [.varDecl "x" .int, .loadVar 0 "c"], .branch 0 "if_then1" "if_else3"⟩,
      ⟨"if_then1", [.const 1 (.int 1), .storeVar "x" 1], .jump "if_end2"⟩,
      ⟨"if_else3", [.const 2 (.int 2), .storeVar "x" 2], .jump "if_end2"⟩,
      ⟨"if_end2", [.loadVar 3 "x"], .ret 3⟩]

theorem lowerFunction_pick : lowerFunction ⟨[]⟩ [] 1 none pickChecked = .ok pickCode := by
  cbv

/-- The path through the second branch comes by its assignment. -/
theorem stored_pick :
    let p : Program := ⟨"pick.ps", [], [.function pick]⟩
    (p.analyze ⟨[]⟩).isClean ∧ (none, pickChecked) ∈ (p.analyze ⟨[]⟩).program.bodies ∧
      lowerFunction ⟨[]⟩ (p.analyze ⟨[]⟩).program.prototypes 1 none pickChecked = .ok pickCode ∧
      pickChecked.isOrderly ∧ lateIn pickChecked.body = ["x"] ∧ ∃ later b,
        pickCode.Comes .history (later ++ .varDecl "x" .int :: []) b [.loadVar 3 "x"] ∧
        ∃ t, Instr.storeVar "x" t ∈ later := by
  intro p
  have hclean : (p.analyze ⟨[]⟩).isClean := by decide +kernel
  have hbodies : (p.analyze ⟨[]⟩).program.bodies = [(none, pickChecked)] := by rfl
  have hmem : (none, pickChecked) ∈ (p.analyze ⟨[]⟩).program.bodies := by
    rw [hbodies]
    exact List.mem_singleton_self _
  have hcode : lowerFunction ⟨[]⟩ (p.analyze ⟨[]⟩).program.prototypes 1 none pickChecked = .ok pickCode := by
    rw [show (p.analyze ⟨[]⟩).program.prototypes = [] from rfl]
    exact lowerFunction_pick
  have horderly : pickChecked.isOrderly := by decide +kernel
  have hentry : pickCode.Comes .history [] _ _ := .entry rfl
  have helse : pickCode.Comes .history _ _ _ :=
    ((hentry.step rfl).step rfl).leave (l := "if_else3") (by decide) rfl
  have hread : pickCode.Comes .history _ _ _ :=
    ((helse.step rfl).step rfl).leave (l := "if_end2") (by decide) rfl
  let later : List Instr := [.storeVar "x" 2, .const 2 (.int 2), .loadVar 0 "c"]
  have hpath : pickCode.Comes .history (later ++ .varDecl "x" .int :: []) _ [.loadVar 3 "x"] := hread
  exact ⟨hclean, hmem, hcode, horderly, rfl, later, _, hpath,
    stored_of_isClean hclean hmem hcode horderly hpath⟩

end ProtoScript.Lowering
