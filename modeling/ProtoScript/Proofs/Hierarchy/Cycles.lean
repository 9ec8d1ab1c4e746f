import Mathlib.Order.WellFounded
import ProtoScript.Proofs.Hierarchy.Declared

set_option autoImplicit false

/-!
# Breaking cycles

Cycles are broken one prototype after the other, and every cut changes the graph in which the next
prototype is looked at. A cut takes away the one cycle it lies on and leaves the others as they were
(`onCycle_cutAt`, `leads_cutAt`), so a prototype is still on a cycle when its turn comes if it was on
one at first and stands before all others on it (`Remains.onCycle_iff_earliest`). When all had their
turn no cycle is left, and what a program's declarations make is a tree (`Program.hierarchy_tree`).
-/

namespace ProtoScript

/-! ## Cutting a graph -/

/-- The graph with a name moved below the root. -/
def cutAt (parent? : String → Option String) (name a : String) : Option String :=
  if a = name then some Builtin.object else parent? a

section Cut

variable {up : String → Option String} {name a b : String}

theorem cutAt_self : cutAt up name name = some Builtin.object := if_pos rfl

theorem cutAt_of_ne (ha : a ≠ name) : cutAt up name a = up a := if_neg ha

/-- Behind a cut lies the root, from which nothing leads back. -/
theorem not_onCycle_cutAt (hroot : up Builtin.object = none) (hname : name ≠ Builtin.object) :
    ¬ OnCycle (cutAt up name) name := by
  intro h
  have hobject : OnCycle (cutAt up name) Builtin.object := h.of_leads (.single cutAt_self)
  exact hobject.parent_ne_none ((cutAt_of_ne hname.symm).trans hroot)

theorem ne_of_leads_cutAt (hroot : up Builtin.object = none) (hname : name ≠ Builtin.object)
    (ha : OnCycle (cutAt up name) a) (hab : Leads (cutAt up name) a b) : b ≠ name := by
  rintro rfl
  exact not_onCycle_cutAt hroot hname (ha.of_leads hab)

/-- A cycle that is left leads to the same names as before. -/
theorem leads_cutAt (hroot : up Builtin.object = none) (hname : name ≠ Builtin.object)
    (ha : OnCycle (cutAt up name) a) : Leads (cutAt up name) a b ↔ Leads up a b := by
  constructor
  · intro hab
    exact hab.of_agree fun x hx _ => (cutAt_of_ne (ne_of_leads_cutAt hroot hname ha hx)).symm
  · intro hab
    induction hab with
    | refl => exact .refl
    | tail _ hbc ih => exact .tail ih ((cutAt_of_ne (ne_of_leads_cutAt hroot hname ha ih)).trans hbc)

/-- The cycles that are left are those that do not come past the cut. -/
theorem onCycle_cutAt (hroot : up Builtin.object = none) (hname : name ≠ Builtin.object) :
    OnCycle (cutAt up name) a ↔ OnCycle up a ∧ ¬ Leads up a name := by
  constructor
  · intro ha
    refine ⟨ha.of_agree fun x hx => (cutAt_of_ne (ne_of_leads_cutAt hroot hname ha hx)).symm, ?_⟩
    intro hleads
    exact ne_of_leads_cutAt hroot hname ha ((leads_cutAt hroot hname ha).2 hleads) rfl
  · rintro ⟨ha, hnot⟩
    refine ha.of_agree fun x hx => cutAt_of_ne ?_
    rintro rfl
    exact hnot hx

end Cut

/-! ## What is left after many cuts -/

/-- What is left of a graph `up₀` when the names of `done` had their turn. -/
structure Remains (up₀ up : String → Option String) (done : List String) : Prop where
  root : up Builtin.object = none
  onCycle : ∀ a, OnCycle up a ↔ OnCycle up₀ a ∧ ∀ x ∈ done, ¬ Leads up₀ a x
  leads : ∀ a b, OnCycle up a → (Leads up a b ↔ Leads up₀ a b)

/-- The name is on a cycle, and stands before all others that are on it. -/
def Earliest (parent? : String → Option String) (names : List String) (a : String) : Prop :=
  OnCycle parent? a ∧ ∀ b, Leads parent? a b → names.idxOf a ≤ names.idxOf b

namespace Remains

variable {up₀ up : String → Option String} {done rest : List String} {name : String}

theorem start (hroot : up Builtin.object = none) : Remains up up [] where
  root := hroot
  onCycle _ := by simp
  leads _ _ _ := Iff.rfl

/-- The turn of a name that is on no cycle. -/
theorem skip (h : Remains up₀ up done) (hname : ¬ OnCycle up name) :
    Remains up₀ up (done ++ [name]) where
  root := h.root
  onCycle a := by
    refine ⟨fun ha => ?_, fun ⟨ha, hnot⟩ => (h.onCycle a).2 ⟨ha, fun x hx => ?_⟩⟩
    · obtain ⟨ha₀, hnot⟩ := (h.onCycle a).1 ha
      refine ⟨ha₀, fun x hx => ?_⟩
      rcases List.mem_append.1 hx with hx | hx
      · exact hnot x hx
      · rw [List.mem_singleton.1 hx]
        exact fun hleads => hname (ha.of_leads ((h.leads a name ha).2 hleads))
    · exact hnot x (List.mem_append_left _ hx)
  leads := h.leads

/-- The turn of a name that is cut out of its cycle. -/
theorem cut (h : Remains up₀ up done) (hname : name ≠ Builtin.object) :
    Remains up₀ (cutAt up name) (done ++ [name]) where
  root := (cutAt_of_ne hname.symm).trans h.root
  onCycle a := by
    rw [onCycle_cutAt h.root hname]
    constructor
    · rintro ⟨ha, hleads⟩
      obtain ⟨ha₀, hnot⟩ := (h.onCycle a).1 ha
      refine ⟨ha₀, fun x hx => ?_⟩
      rcases List.mem_append.1 hx with hx | hx
      · exact hnot x hx
      · rw [List.mem_singleton.1 hx]
        exact fun h₀ => hleads ((h.leads a name ha).2 h₀)
    · rintro ⟨ha₀, hnot⟩
      have ha : OnCycle up a := (h.onCycle a).2 ⟨ha₀, fun x hx => hnot x (List.mem_append_left _ hx)⟩
      refine ⟨ha, fun hleads => ?_⟩
      exact hnot name (List.mem_append_right _ (List.mem_singleton_self _)) ((h.leads a name ha).1 hleads)
  leads a b ha :=
    (leads_cutAt h.root hname ha).trans (h.leads a b ((onCycle_cutAt h.root hname).1 ha).1)

/-- When its turn comes, a name is on a cycle if it was on one and stands first on it. -/
theorem onCycle_iff_earliest (h : Remains up₀ up done) (hnodup : (done ++ name :: rest).Nodup) :
    OnCycle up name ↔ Earliest up₀ (done ++ name :: rest) name := by
  have hnew : name ∉ done := fun hmem =>
    (List.nodup_append.1 hnodup).2.2 name hmem name (List.mem_cons_self ..) rfl
  have hself : (done ++ name :: rest).idxOf name = done.length := by
    rw [List.idxOf_append_of_notMem hnew, List.idxOf_cons_self, Nat.add_zero]
  have hbefore : ∀ b, (done ++ name :: rest).idxOf name ≤ (done ++ name :: rest).idxOf b ↔ b ∉ done := by
    intro b
    rw [hself]
    by_cases hb : b ∈ done
    · have hlt := List.idxOf_lt_length_of_mem hb
      rw [List.idxOf_append_of_mem hb]
      exact iff_of_false (Nat.not_le.2 hlt) (not_not_intro hb)
    · rw [List.idxOf_append_of_notMem hb]
      exact iff_of_true (Nat.le_add_right _ _) hb
  rw [h.onCycle name, Earliest]
  refine and_congr_right fun _ => ⟨fun hnot b hb => (hbefore b).2 fun hmem => hnot b hmem hb, ?_⟩
  exact fun hfirst x hx hleads => (hbefore x).1 (hfirst x hleads) hx

end Remains

/-! ## Cutting a hierarchy -/

namespace Hierarchy

variable {h : Hierarchy} {file name : String} {p : Prototype}

/-- The prototype, moved below the root. -/
def belowRoot (p : Prototype) : Prototype := { p with parent := some Builtin.object }

theorem get?_map {f : Prototype → Prototype} (hf : ∀ p, (f p).name = p.name) (a : String) :
    (⟨h.prototypes.map f⟩ : Hierarchy).get? a = (h.get? a).map f := by
  unfold get?
  rw [List.find?_map]
  simp only [Function.comp_def, hf]

theorem get?_moveBelowRoot (a : String) :
    (h.moveBelowRoot name).get? a = (h.get? a).map fun p => if p.name = name then belowRoot p else p := by
  refine get?_map (fun p => ?_) a
  split <;> rfl

theorem parentOf?_moveBelowRoot (hname : h.contains name) :
    (h.moveBelowRoot name).parentOf? = cutAt h.parentOf? name := by
  funext a
  rw [parentOf?, get?_moveBelowRoot]
  by_cases ha : a = name
  · subst ha
    obtain ⟨p, hget⟩ := get?_of_contains hname
    rw [hget, cutAt_self, Option.map_some, if_pos (of_get? hget).2]
    rfl
  · rw [cutAt_of_ne ha, parentOf?]
    cases hget : h.get? a with
    | none => rfl
    | some p => rw [Option.map_some, if_neg ((of_get? hget).2 ▸ ha)]

theorem isCyclic_iff (hget : h.get? p.name = some p) : h.isCyclic p ↔ OnCycle h.parentOf? p.name := by
  have hparent : h.parentOf? p.name = p.parent := by
    rw [parentOf?, hget, Option.bind_some]
  rw [onCycle_iff, hparent, isCyclic, Option.any_eq_true]
  refine exists_congr fun b => and_congr_right fun _ => ?_
  rw [isSubtype_iff]
  exact and_iff_left (contains_of_get? hget)

open Classical in
/-- Prototypes that have their turn are cut out of their cycles if they stand first on them. -/
theorem breakCycles_eq {up₀ : String → Option String} {done : List String} {ps : List Prototype}
    (hremains : Remains up₀ h.parentOf? done) (hself : ∀ p ∈ ps, h.get? p.name = some p)
    (hnodup : (done ++ ps.map (·.name)).Nodup) :
    Remains up₀ (breakCycles file h ps).1.parentOf? (done ++ ps.map (·.name)) ∧
      (breakCycles file h ps).1.prototypes = h.prototypes.map (fun p =>
        if p.name ∈ ps.map (·.name) ∧ Earliest up₀ (done ++ ps.map (·.name)) p.name then belowRoot p
        else p) ∧
      (breakCycles file h ps).2 =
        (ps.filter fun p => Earliest up₀ (done ++ ps.map (·.name)) p.name).map fun p =>
          (Problem.inheritanceCycle p.name).diagnose file p.span := by
  induction ps generalizing h done with
  | nil => simpa [breakCycles] using hremains
  | cons p rest ih =>
      rw [List.map_cons] at hnodup ⊢
      have hget := hself p (List.mem_cons_self ..)
      have hcyclic : h.isCyclic p ↔ Earliest up₀ (done ++ p.name :: rest.map (·.name)) p.name :=
        (isCyclic_iff hget).trans (hremains.onCycle_iff_earliest hnodup)
      have hnames : done ++ p.name :: rest.map (·.name) = (done ++ [p.name]) ++ rest.map (·.name) :=
        (List.append_cons ..)
      have hnew : p.name ∉ rest.map (·.name) :=
        (List.nodup_cons.1 (List.nodup_append.1 hnodup).2.1).1
      rw [breakCycles]
      by_cases hp : h.isCyclic p
      · have hne : p.name ≠ Builtin.object := fun heq =>
          ((isCyclic_iff hget).1 hp).parent_ne_none (heq ▸ hremains.root)
        have hremains' := hremains.cut hne
        rw [← parentOf?_moveBelowRoot (contains_of_get? hget)] at hremains'
        have hself' : ∀ q ∈ rest, (h.moveBelowRoot p.name).get? q.name = some q := by
          intro q hq
          have hne' : q.name ≠ p.name := fun heq => hnew (heq ▸ List.mem_map_of_mem hq)
          rw [get?_moveBelowRoot, hself q (List.mem_cons_of_mem _ hq), Option.map_some, if_neg hne']
        obtain ⟨hrest, hprototypes, hfound⟩ := ih hremains' hself' (hnames ▸ hnodup)
        rw [← hnames] at hrest hprototypes hfound
        rw [if_pos hp]
        refine ⟨hrest, ?_, ?_⟩
        · rw [hprototypes]
          unfold moveBelowRoot
          rw [List.map_map]
          refine List.map_congr_left fun q _ => ?_
          by_cases hq : q.name = p.name
          · simp [belowRoot, hq, hnew, hcyclic.1 hp]
          · simp [hq]
        · rw [List.filter_cons_of_pos (by simpa using hcyclic.1 hp), List.map_cons, ← hfound]
      · have hremains' := hremains.skip ((isCyclic_iff hget).not.1 hp)
        obtain ⟨hrest, hprototypes, hfound⟩ :=
          ih hremains' (fun q hq => hself q (List.mem_cons_of_mem _ hq)) (hnames ▸ hnodup)
        rw [← hnames] at hrest hprototypes hfound
        rw [if_neg hp]
        refine ⟨hrest, ?_, ?_⟩
        · rw [hprototypes]
          refine List.map_congr_left fun q _ => ?_
          by_cases hq : q.name = p.name
          · have hnot : ¬ Earliest up₀ (done ++ p.name :: rest.map (·.name)) p.name := hcyclic.not.1 hp
            simp [hq, hnew, hnot]
          · simp [hq]
        · rw [List.filter_cons_of_neg (by simpa using hcyclic.not.1 hp), hfound]

/-! ## The hierarchy of a program -/

/-- All prototypes stand below the root, and the walk from each of them ends there. -/
structure IsTree (h : Hierarchy) : Prop where
  parent : ∀ p ∈ h.prototypes, p.name ≠ Builtin.object → ∃ b, p.parent = some b ∧ h.contains b
  nodup : ∀ name, h.contains name → ((h.ancestors name).map (·.name)).Nodup
  last : ∀ name, h.contains name →
    ∃ root, (h.ancestors name).getLast? = some root ∧ root.name = Builtin.object

section Build

variable {decls : List PrototypeDecl} {a : String}

open Classical in
/-- The names of the program's prototypes that stand first on a cycle are the ones that are moved. -/
theorem build_eq :
    Remains (declaredParent decls) (build file decls).1.parentOf? ((registered decls).map (·.name)) ∧
      (build file decls).1.prototypes = (resolved file decls).prototypes.map (fun p =>
        if Earliest (declaredParent decls) ((registered decls).map (·.name)) p.name then belowRoot p
        else p) ∧
      (breakCycles file (resolved file decls) (resolved file decls).declared).2 =
        ((registered decls).filter fun d =>
          Earliest (declaredParent decls) ((registered decls).map (·.name)) d.name).map fun d =>
            (Problem.inheritanceCycle d.name).diagnose file d.span := by
  have hnames : (resolved file decls).declared.map (·.name) = (registered decls).map (·.name) := by
    rw [declared_resolved, List.map_map]
    rfl
  have hself : ∀ p ∈ (resolved file decls).declared, (resolved file decls).get? p.name = some p :=
    fun p hp => get?_of_mem nodup_names_resolved (List.mem_of_mem_filter hp)
  have hstart : Remains (declaredParent decls) (resolved file decls).parentOf? [] := by
    rw [parentOf?_resolved]
    exact .start declaredParent_object
  obtain ⟨hremains, hprototypes, hfound⟩ :=
    @breakCycles_eq _ file _ _ _ hstart hself (by rw [hnames]; exact nodup_registered)
  rw [hnames, List.nil_append] at hremains hprototypes hfound
  refine ⟨hremains, hprototypes.trans (List.map_congr_left fun p _ => ?_), ?_⟩
  · by_cases hp : Earliest (declaredParent decls) ((registered decls).map (·.name)) p.name
    · rw [if_pos hp, if_pos ⟨registered_of_onCycle hp.1, hp⟩]
    · rw [if_neg hp, if_neg fun hboth => hp hboth.2]
  · rw [hfound, declared_resolved, List.filter_map, List.map_map]
    rfl

/-- No cycle is left. -/
theorem not_onCycle_build : ¬ OnCycle (build file decls).1.parentOf? a := by
  intro ha
  obtain ⟨ha₀, hnot⟩ := (build_eq.1.onCycle a).1 ha
  exact hnot a (registered_of_onCycle ha₀) .refl

/-- A prototype is that of its declaration, or that moved below the root. -/
theorem of_mem_build {p : Prototype} (hp : p ∈ (build file decls).1.prototypes) :
    ∃ q ∈ (resolved file decls).prototypes,
      p = q ∧ ¬ Earliest (declaredParent decls) ((registered decls).map (·.name)) q.name ∨
      p = belowRoot q ∧ Earliest (declaredParent decls) ((registered decls).map (·.name)) q.name := by
  classical
  rw [build_eq.2.1] at hp
  obtain ⟨q, hq, rfl⟩ := List.mem_map.1 hp
  refine ⟨q, hq, ?_⟩
  split
  · exact .inr ⟨rfl, ‹_›⟩
  · exact .inl ⟨rfl, ‹_›⟩

theorem names_build : (build file decls).1.names = (resolved file decls).names := by
  classical
  unfold names
  rw [build_eq.2.1, List.map_map]
  refine List.map_congr_left fun p _ => ?_
  rw [Function.comp_apply]
  split <;> rfl

theorem contains_build : (build file decls).1.contains a ↔ (resolved file decls).contains a := by
  rw [contains_iff, contains_iff, names_build]

/-- A prototype of the resolved hierarchy has its declared parent. -/
theorem parent_of_mem_resolved {q : Prototype} (hq : q ∈ (resolved file decls).prototypes) :
    q.parent = declaredParent decls q.name := by
  rw [← @parentOf?_resolved file, parentOf?, get?_of_mem nodup_names_resolved hq,
    Option.bind_some]

theorem contains_parent_build {p : Prototype} (hp : p ∈ (build file decls).1.prototypes) {b : String}
    (hb : b ∈ p.parent) : (build file decls).1.contains b := by
  rw [contains_build]
  obtain ⟨q, hq, ⟨rfl, _⟩ | ⟨rfl, _⟩⟩ := of_mem_build hp
  · exact contains_declaredParent ((parent_of_mem_resolved hq).symm.trans hb)
  · exact Option.mem_some_iff.1 hb ▸ contains_object

/-- Only the root has no parent. -/
theorem name_of_parent_eq_none {p : Prototype} (hp : p ∈ (build file decls).1.prototypes)
    (hparent : p.parent = none) : p.name = Builtin.object := by
  obtain ⟨q, hq, ⟨rfl, _⟩ | ⟨rfl, _⟩⟩ := of_mem_build hp
  · rw [resolved_prototypes] at hq
    rcases List.mem_append.1 hq with hq | hq
    · have hroot : ∀ p ∈ builtins.prototypes, p.parent = none → p.name = Builtin.object := by
        decide +kernel
      exact hroot p hq hparent
    · obtain ⟨d, hd, rfl⟩ := List.mem_map.1 hq
      have hnone : declaredParent decls d.name = none := hparent
      cases (declaredParent_of_registered hd).symm.trans hnone
  · cases hparent

/-- The walk from a prototype is a line. -/
theorem line_build (ha : (build file decls).1.contains a) :
    (build file decls).1.Line a ((build file decls).1.ancestors a) :=
  line_chain (fun _ => not_onCycle_build) (fun _ hp _ hb => contains_parent_build hp hb) ha .nil
    (List.nil_subset _) nofun (Nat.le_add_right _ _)

theorem isTree_build : (build file decls).1.IsTree where
  parent p hp hname := by
    cases hparent : p.parent with
    | none => exact absurd (name_of_parent_eq_none hp hparent) hname
    | some b => exact ⟨b, rfl, contains_parent_build hp hparent⟩
  nodup _ ha := (line_build ha).nodup
  last _ ha := by
    obtain ⟨root, hroot, hlast, hparent⟩ := (line_build ha).last_parent
    exact ⟨root, hlast, name_of_parent_eq_none hroot hparent⟩

/-! ## What is reported -/

theorem code_of_mem_registerAll {h : Hierarchy} {d : Diagnostic}
    (hd : d ∈ (registerAll file h decls).2) : d.code ≠ .inheritanceCycle := by
  induction decls generalizing h with
  | nil => cases hd
  | cons decl rest ih =>
      rw [registerAll] at hd
      rcases List.mem_append.1 hd with hd | hd
      · unfold register at hd
        split at hd
        · rw [List.mem_singleton.1 hd]
          exact show Code.builtinRedeclared ≠ Code.inheritanceCycle by decide
        split at hd
        · rw [List.mem_singleton.1 hd]
          exact show Code.duplicatePrototype ≠ Code.inheritanceCycle by decide
        rcases List.mem_append.1 hd with hd | hd
        all_goals
          obtain ⟨_, _, rfl⟩ := List.mem_map.1 hd
          exact show Code.duplicateMember ≠ Code.inheritanceCycle by decide
      · exact ih hd

theorem code_of_mem_resolveParents {h : Hierarchy} {d : Diagnostic}
    (hd : d ∈ (h.resolveParents file).2) : d.code ≠ .inheritanceCycle := by
  obtain ⟨p, _, hp⟩ := List.mem_filterMap.1 hd
  obtain ⟨problem, hproblem, rfl⟩ := Option.map_eq_some_iff.1 hp
  unfold parentProblem? at hproblem
  split at hproblem
  · cases hproblem
  split at hproblem
  · cases hproblem
    exact show Code.unknownParent ≠ Code.inheritanceCycle by decide
  split at hproblem
  · cases hproblem
    exact show Code.sealedInheritance ≠ Code.inheritanceCycle by decide
  · cases hproblem

theorem code_of_mem_inheritanceProblems {h : Hierarchy} {p : Prototype} {problem : Problem}
    (hp : problem ∈ h.inheritanceProblems p) : problem.code ≠ .inheritanceCycle := by
  obtain ⟨parent, hp⟩ : ∃ parent, problem ∈
      p.fields.filterMap (fun f =>
          (h.field? parent f.name).map fun base => .fieldShadows f.name p.name base.owner) ++
        p.methods.flatMap fun m => ((h.method? parent m.name).map (h.overrideProblems p.name m)).getD [] := by
    unfold inheritanceProblems at hp
    split at hp
    · cases hp
    · exact ⟨_, hp⟩
  rcases List.mem_append.1 hp with hp | hp
  · obtain ⟨f, _, hf⟩ := List.mem_filterMap.1 hp
    obtain ⟨_, _, rfl⟩ := Option.map_eq_some_iff.1 hf
    exact show Code.fieldShadowsAncestor ≠ Code.inheritanceCycle by decide
  · obtain ⟨m, _, hm⟩ := List.mem_flatMap.1 hp
    cases hbase : h.method? parent m.name with
    | none => simp [hbase] at hm
    | some base =>
        rw [hbase] at hm
        rcases List.mem_append.1 hm with hm | hm
        · split at hm
          · rw [List.mem_singleton.1 hm]
            exact show Code.overrideVisibility ≠ Code.inheritanceCycle by decide
          · cases hm
        · split at hm
          · cases hm
          · rw [List.mem_singleton.1 hm]
            exact show Code.overrideSignature ≠ Code.inheritanceCycle by decide

open Classical in
/-- One cycle is reported for each declaration that stands first on one. -/
theorem filter_build :
    (build file decls).2.filter (fun d => d.code = .inheritanceCycle) =
      ((registered decls).filter fun d =>
        Earliest (declaredParent decls) ((registered decls).map (·.name)) d.name).map fun d =>
          (Problem.inheritanceCycle d.name).diagnose file d.span := by
  have hsplit : (build file decls).2 = (registerAll file builtins decls).2 ++
      ((registerAll file builtins decls).1.resolveParents file).2 ++
      (breakCycles file (resolved file decls) (resolved file decls).declared).2 ++
      (build file decls).1.declared.flatMap fun p =>
        ((build file decls).1.inheritanceProblems p).map fun problem => problem.diagnose file p.span := rfl
  rw [hsplit, List.filter_append, List.filter_append, List.filter_append]
  rw [List.filter_eq_nil_iff.2 fun d hd => by simpa using code_of_mem_registerAll hd]
  rw [List.filter_eq_nil_iff.2 fun d hd => by simpa using code_of_mem_resolveParents hd]
  rw [List.filter_eq_nil_iff (l := List.flatMap _ _) |>.2 ?inherited, build_eq.2.2, List.nil_append,
    List.nil_append, List.append_nil, List.filter_eq_self]
  case inherited =>
    intro d hd
    obtain ⟨p, _, hp⟩ := List.mem_flatMap.1 hd
    obtain ⟨problem, hproblem, rfl⟩ := List.mem_map.1 hp
    exact fun hcode => code_of_mem_inheritanceProblems hproblem (of_decide_eq_true hcode)
  intro d hd
  obtain ⟨_, _, rfl⟩ := List.mem_map.1 hd
  simp [Problem.diagnose, Problem.code]

/-- A parent that is not known is reported. -/
theorem unknownParent_mem {d : PrototypeDecl} (hd : d ∈ registered decls)
    (hunknown : orRoot decls (d.parent.getD Builtin.object) ≠ d.parent.getD Builtin.object) :
    (Problem.unknownParent d.name (d.parent.getD Builtin.object)).diagnose file d.span ∈
      (build file decls).2 := by
  refine List.mem_append_left _ (List.mem_append_left _ (List.mem_append_right _ ?_))
  refine List.mem_filterMap.2 ⟨d.toPrototype, ?_, ?_⟩
  · refine List.mem_filter.2 ⟨?_, rfl⟩
    rw [registerAll_builtins]
    exact List.mem_append_right _ (List.mem_map_of_mem hd)
  · have hnone : (registerAll file builtins decls).1.get? (d.parent.getD Builtin.object) = none := by
      rw [← Option.not_isSome_iff_eq_none]
      exact fun hknown => hunknown (if_pos (contains_registerAll.1 hknown))
    simp [parentProblem?, PrototypeDecl.toPrototype, hnone]

/-- From a name on a cycle, exactly one of the declarations ahead stands first. -/
theorem existsUnique_earliest (ha : OnCycle (declaredParent decls) a) :
    ∃! d, d ∈ registered decls ∧ Leads (declaredParent decls) a d.name ∧
      Earliest (declaredParent decls) ((registered decls).map (·.name)) d.name := by
  obtain ⟨b, hb, hmin⟩ :=
    (measure fun x => ((registered decls).map (·.name)).idxOf x).wf.has_min
      {x | Leads (declaredParent decls) a x} ⟨a, .refl⟩
  obtain ⟨d, hd, rfl⟩ := List.mem_map.1 (registered_of_onCycle (ha.of_leads hb))
  refine ⟨d, ⟨hd, hb, ha.of_leads hb, fun c hc => Nat.not_lt.1 (hmin c (hb.trans hc))⟩, ?_⟩
  rintro e ⟨he, hae, _, hfirst⟩
  have hed : Leads (declaredParent decls) e.name d.name := (ha.leads_back hae).trans hb
  have hidx : ((registered decls).map (·.name)).idxOf e.name =
      ((registered decls).map (·.name)).idxOf d.name :=
    Nat.le_antisymm (hfirst _ hed) (Nat.not_lt.1 (hmin _ hae))
  have hname : e.name = d.name := (List.idxOf_inj (List.mem_map_of_mem he)).1 hidx
  exact List.inj_on_of_nodup_map nodup_registered he hd hname

/-- A prototype of the program has the parent that its declaration gives, unless a problem with that
parent was reported. -/
theorem declared_parent_build {p : Prototype} (hp : p ∈ (build file decls).1.declared)
    (hcycle : (Problem.inheritanceCycle p.name).diagnose file p.span ∉ (build file decls).2)
    (hknown : ∀ b, (Problem.unknownParent p.name b).diagnose file p.span ∉ (build file decls).2) :
    ∃ d ∈ registered decls, d.name = p.name ∧ p.parent = some (d.parent.getD Builtin.object) := by
  classical
  have hfound := (@build_eq file decls).2.2
  obtain ⟨hmem, huser⟩ := List.mem_filter.1 hp
  have hdecl : ∀ q ∈ (resolved file decls).prototypes, q.isBuiltin = false →
      ∃ d ∈ registered decls, q = toResolved decls d := by
    intro q hq huser
    have hq : q ∈ (resolved file decls).declared := List.mem_filter.2 ⟨hq, by simp [huser]⟩
    rw [declared_resolved] at hq
    obtain ⟨d, hd, rfl⟩ := List.mem_map.1 hq
    exact ⟨d, hd, rfl⟩
  obtain ⟨q, hq, ⟨rfl, hfirst⟩ | ⟨rfl, hfirst⟩⟩ := of_mem_build hmem
  · obtain ⟨d, hd, rfl⟩ := hdecl p hq (by simpa using huser)
    refine ⟨d, hd, rfl, ?_⟩
    by_cases hsame : orRoot decls (d.parent.getD Builtin.object) = d.parent.getD Builtin.object
    · exact (declaredParent_of_registered hd).trans (congrArg some hsame)
    · exact absurd (unknownParent_mem hd hsame) (hknown _)
  · obtain ⟨d, hd, rfl⟩ := hdecl q hq (by simpa [belowRoot] using huser)
    refine absurd (List.mem_append_left _ (List.mem_append_right _ ?_)) hcycle
    refine hfound ▸ List.mem_map_of_mem (List.mem_filter.2 ⟨hd, ?_⟩)
    exact decide_eq_true hfirst

end Build

end Hierarchy

open Classical in
/-- Whatever a program declares, its prototypes form a tree below the root. The cycles that the
declarations describe are reported, each at the first of its prototypes, and a prototype that is not
reported for its parent has the parent it declares. -/
theorem Program.hierarchy_tree (p : Program) :
    p.hierarchy.1.IsTree ∧
      p.hierarchy.2.filter (fun d => d.code = .inheritanceCycle) =
        ((registered p.prototypes).filter fun d =>
          Earliest (declaredParent p.prototypes) ((registered p.prototypes).map (·.name)) d.name).map
            (fun d => (Problem.inheritanceCycle d.name).diagnose p.file d.span) ∧
      (∀ name, OnCycle (declaredParent p.prototypes) name →
        ∃! d, d ∈ registered p.prototypes ∧ Leads (declaredParent p.prototypes) name d.name ∧
          Earliest (declaredParent p.prototypes) ((registered p.prototypes).map (·.name)) d.name) ∧
      ∀ q ∈ p.hierarchy.1.declared,
        (Problem.inheritanceCycle q.name).diagnose p.file q.span ∉ p.hierarchy.2 →
        (∀ b, (Problem.unknownParent q.name b).diagnose p.file q.span ∉ p.hierarchy.2) →
        ∃ d ∈ registered p.prototypes, d.name = q.name ∧
          q.parent = some (d.parent.getD Builtin.object) :=
  ⟨Hierarchy.isTree_build, Hierarchy.filter_build,
    fun _ ha => Hierarchy.existsUnique_earliest ha,
    fun _ hq hcycle hknown => Hierarchy.declared_parent_build hq hcycle hknown⟩

end ProtoScript
