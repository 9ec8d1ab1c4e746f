import Mathlib.Data.List.Nodup
import Mathlib.Data.List.Perm.Subperm
import Mathlib.Logic.Relation
import ProtoScript.Hierarchy.Basic

set_option autoImplicit false

/-!
# Walking towards the root

Parents make a graph in which every name has at most one successor. `Leads` and `OnCycle` speak of any
such graph; a cycle can be walked around from each of its names (`OnCycle.leads_back`). The parents of a
hierarchy are one of them, and whether its walk comes past a name is whether the graph leads there, with
or without cycles (`isSubtype_iff`). Where there is no cycle the walk is a `Line`, which ends at a
prototype without a parent.
-/

namespace ProtoScript

/-! ## Graphs in which a name has at most one parent -/

/-- The first name has the second as its parent. -/
def Extends (parent? : String → Option String) (a b : String) : Prop := parent? a = some b

/-- Going from parent to parent leads from the first name to the second, maybe in no step. -/
def Leads (parent? : String → Option String) : String → String → Prop :=
  Relation.ReflTransGen (Extends parent?)

/-- Going from parent to parent leads from the name back to it. -/
def OnCycle (parent? : String → Option String) (a : String) : Prop :=
  Relation.TransGen (Extends parent?) a a

section Graph

variable {up up' : String → Option String} {a b : String}

theorem onCycle_iff : OnCycle up a ↔ ∃ b, up a = some b ∧ Leads up b a :=
  Relation.TransGen.head'_iff

theorem OnCycle.parent_ne_none (h : OnCycle up a) : up a ≠ none := by
  obtain ⟨b, hb, _⟩ := onCycle_iff.1 h
  simp [hb]

theorem OnCycle.leads_back (h : OnCycle up a) (hab : Leads up a b) : Leads up b a := by
  induction hab with
  | refl => exact .refl
  | tail _ hbc ih =>
      -- the way back from the last name takes its only parent first
      rcases ih.cases_head with rfl | ⟨c, hc, hback⟩
      · obtain ⟨c, hc, hback⟩ := onCycle_iff.1 h
        exact Option.some.inj (hc.symm.trans hbc) ▸ hback
      · exact Option.some.inj (hc.symm.trans hbc) ▸ hback

theorem OnCycle.of_leads (h : OnCycle up a) (hab : Leads up a b) : OnCycle up b :=
  (Relation.TransGen.trans_right (h.leads_back hab) h).trans_left hab

/-- Where two graphs agree from a name on, they lead to the same names. -/
theorem Leads.of_agree (hab : Leads up a b) (hagree : ∀ x, Leads up a x → up x ≠ none → up' x = up x) :
    Leads up' a b := by
  induction hab with
  | refl => exact .refl
  | @tail b c hab hbc ih =>
      have hne : up b ≠ none := by simp [show up b = some c from hbc]
      exact .tail ih ((hagree b hab hne).trans hbc)

theorem OnCycle.of_agree (h : OnCycle up a) (hagree : ∀ x, Leads up a x → up' x = up x) :
    OnCycle up' a := by
  obtain ⟨b, hb, hback⟩ := onCycle_iff.1 h
  refine onCycle_iff.2 ⟨b, (hagree a .refl).trans hb, hback.of_agree fun x hx _ => ?_⟩
  exact hagree x (.head hb hx)

end Graph

namespace Hierarchy

variable {h : Hierarchy} {a b : String} {p : Prototype}

/-! ## Prototypes by name -/

/-- The parent of the prototype of the given name. -/
def parentOf? (h : Hierarchy) (name : String) : Option String := (h.get? name).bind Prototype.parent

theorem of_get? (hget : h.get? a = some p) : p ∈ h.prototypes ∧ p.name = a :=
  ⟨List.mem_of_find?_eq_some hget, by simpa using List.find?_some hget⟩

theorem mem_names (hp : p ∈ h.prototypes) : p.name ∈ h.names := List.mem_map_of_mem hp

theorem contains_iff : h.contains a ↔ a ∈ h.names := by
  unfold contains get? names
  rw [List.find?_isSome, List.mem_map]
  simp

theorem get?_of_contains (ha : h.contains a) : ∃ p, h.get? a = some p := Option.isSome_iff_exists.1 ha

theorem contains_of_get? (hget : h.get? a = some p) : h.contains a := by
  rw [contains, hget]
  rfl

theorem contains_of_extends (hab : h.parentOf? a = some b) : h.contains a := by
  obtain ⟨p, hget, _⟩ := Option.bind_eq_some_iff.1 hab
  exact contains_of_get? hget

/-- Where no name stands twice, a prototype is found by its name. -/
theorem get?_of_mem (hnodup : h.names.Nodup) (hp : p ∈ h.prototypes) : h.get? p.name = some p := by
  obtain ⟨q, hget⟩ := get?_of_contains (contains_iff.2 (mem_names hp))
  obtain ⟨hq, hname⟩ := of_get? hget
  rw [hget, List.inj_on_of_nodup_map hnodup hq hp hname]

theorem length_names : h.names.length = h.prototypes.length := List.length_map _

/-- Names that were all met, none twice, leave no name that was not met. -/
theorem mem_of_full {seen : List String} (hnodup : seen.Nodup) (hsub : seen ⊆ h.names)
    (hfull : h.prototypes.length ≤ seen.length) (ha : a ∈ h.names) : a ∈ seen := by
  by_contra hnot
  have hlength : (a :: seen).length ≤ h.names.length :=
    (List.Nodup.subperm (List.nodup_cons.2 ⟨hnot, hnodup⟩) (List.cons_subset.2 ⟨ha, hsub⟩)).length_le
  rw [length_names, List.length_cons] at hlength
  omega

/-! ## What the walk comes past -/

theorem chain_succ {steps : Nat} {seen : List String} (hget : h.get? a = some p) (hnew : a ∉ seen) :
    h.chain (steps + 1) seen a = p :: (p.parent.map (h.chain steps (a :: seen))).getD [] := by
  obtain ⟨_, rfl⟩ := of_get? hget
  rw [chain, hget]
  simp only [if_neg hnew]

/-- Every prototype on the walk is one that parents lead to. -/
theorem leads_of_mem_chain {steps : Nat} {seen : List String} {p : Prototype}
    (hp : p ∈ h.chain steps seen a) : h.get? p.name = some p ∧ Leads h.parentOf? a p.name := by
  induction steps generalizing seen a with
  | zero => cases hp
  | succ steps ih =>
      cases hget : h.get? a with
      | none => simp [chain, hget] at hp
      | some q =>
          by_cases hseen : a ∈ seen
          · simp [chain, hget, (of_get? hget).2, hseen] at hp
          · rw [chain_succ hget hseen] at hp
            rcases List.mem_cons.1 hp with rfl | htail
            · rw [(of_get? hget).2]
              exact ⟨hget, .refl⟩
            · cases hparent : q.parent with
              | none => simp [hparent] at htail
              | some b =>
                  rw [hparent] at htail
                  obtain ⟨hself, hleads⟩ := ih htail
                  have hab : h.parentOf? a = some b := by rw [parentOf?, hget, Option.bind_some, hparent]
                  exact ⟨hself, .head hab hleads⟩

/-- The walk leaves out no parent except those that were seen before. -/
theorem chain_closed {steps : Nat} {seen : List String} (hnodup : seen.Nodup) (hsub : seen ⊆ h.names)
    (hsteps : h.prototypes.length ≤ steps + seen.length) :
    (a ∈ h.names → a ∈ seen ∨ a ∈ (h.chain steps seen a).map (·.name)) ∧
      ∀ p ∈ h.chain steps seen a, ∀ b ∈ p.parent, b ∈ h.names →
        b ∈ seen ∨ b ∈ (h.chain steps seen a).map (·.name) := by
  induction steps generalizing seen a with
  | zero =>
      rw [Nat.zero_add] at hsteps
      exact ⟨fun ha => .inl (mem_of_full hnodup hsub hsteps ha), nofun⟩
  | succ steps ih =>
      cases hget : h.get? a with
      | none =>
          have hnot : a ∉ h.names := fun ha => by
            obtain ⟨p, hp⟩ := get?_of_contains (contains_iff.2 ha)
            cases hget.symm.trans hp
          simp [chain, hget, hnot]
      | some q =>
          have hname := (of_get? hget).2
          by_cases hseen : a ∈ seen
          · refine ⟨fun _ => .inl hseen, ?_⟩
            simp [chain, hget, hname, hseen]
          have ha : a ∈ h.names := hname ▸ mem_names (of_get? hget).1
          have ih' := fun b => @ih b (a :: seen) (List.nodup_cons.2 ⟨hseen, hnodup⟩) (List.cons_subset.2 ⟨ha, hsub⟩)
            (by rw [List.length_cons]; omega)
          rw [chain_succ hget hseen, List.map_cons, hname]
          refine ⟨fun _ => .inr (List.mem_cons_self ..), ?_⟩
          -- a parent met in the tail of the walk is in front of it or in it
          have hmove : ∀ {b} {tail : List String}, b ∈ a :: seen ∨ b ∈ tail → b ∈ seen ∨ b ∈ a :: tail := by
            rintro b tail (hb | hb)
            · rcases List.mem_cons.1 hb with rfl | hb
              · exact .inr (List.mem_cons_self ..)
              · exact .inl hb
            · exact .inr (List.mem_cons_of_mem _ hb)
          cases hparent : q.parent with
          | none =>
              rintro p hp b hb
              rw [List.mem_singleton.1 hp, hparent] at hb
              cases hb
          | some c =>
              rintro p hp b hb hmem
              rcases List.mem_cons.1 hp with rfl | hp
              · rw [hparent, Option.mem_some_iff] at hb
                subst hb
                exact hmove ((ih' _).1 hmem)
              · exact hmove ((ih' c).2 p hp b hb hmem)

/-- A prototype inherits from those its parents lead to, itself among them. -/
theorem isSubtype_iff : h.isSubtype a b ↔ Leads h.parentOf? a b ∧ h.contains b := by
  have hsubtype : h.isSubtype a b ↔ b ∈ (h.ancestors a).map (·.name) := by
    simp [isSubtype, List.any_eq_true, List.mem_map]
  rw [hsubtype]
  constructor
  · intro hb
    obtain ⟨p, hp, rfl⟩ := List.mem_map.1 hb
    obtain ⟨hself, hleads⟩ := leads_of_mem_chain hp
    exact ⟨hleads, contains_of_get? hself⟩
  · rintro ⟨hleads, hb⟩
    clear hsubtype
    have hclosed := @chain_closed h a h.prototypes.length [] .nil (List.nil_subset _)
      (Nat.le_add_right _ _)
    induction hleads with
    | refl => exact (hclosed.1 (contains_iff.1 hb)).resolve_left List.not_mem_nil
    | @tail b c _ hbc ih =>
        obtain ⟨p, hp, rfl⟩ := List.mem_map.1 (ih (contains_of_extends hbc))
        obtain ⟨hself, _⟩ := leads_of_mem_chain hp
        have hparent : p.parent = some c := by
          rwa [Extends, parentOf?, hself] at hbc
        exact (hclosed.2 p hp c hparent (contains_iff.1 hb)).resolve_left List.not_mem_nil

theorem isSubtype_trans {c : String} (hab : h.isSubtype a b) (hbc : h.isSubtype b c) :
    h.isSubtype a c :=
  isSubtype_iff.2 ⟨(isSubtype_iff.1 hab).1.trans (isSubtype_iff.1 hbc).1, (isSubtype_iff.1 hbc).2⟩

/-! ## Walks that end -/

/-- The prototypes from a name to one that has no parent. -/
inductive Line (h : Hierarchy) : String → List Prototype → Prop
  | root {a : String} {p : Prototype} : h.get? a = some p → p.parent = none → Line h a [p]
  | step {a b : String} {p : Prototype} {rest : List Prototype} :
      h.get? a = some p → p.parent = some b → Line h b rest → Line h a (p :: rest)

namespace Line

variable {line line' : List Prototype}

theorem unique (hline : h.Line a line) (hline' : h.Line a line') : line = line' := by
  induction hline generalizing line' with
  | root hget hparent =>
      cases hline' with
      | root hget' _ => rw [Option.some.inj (hget.symm.trans hget')]
      | step hget' hparent' _ =>
          cases Option.some.inj (hget.symm.trans hget')
          cases hparent.symm.trans hparent'
  | step hget hparent _ ih =>
      cases hline' with
      | root hget' hparent' =>
          cases Option.some.inj (hget.symm.trans hget')
          cases hparent'.symm.trans hparent
      | step hget' hparent' hrest =>
          cases Option.some.inj (hget.symm.trans hget')
          cases Option.some.inj (hparent.symm.trans hparent')
          rw [ih hrest]

/-- From each of its prototypes on, a line is the line of that prototype. -/
theorem suffix (hline : h.Line a line) (hp : p ∈ line) :
    ∃ line', h.Line p.name line' ∧ line' <:+ line := by
  induction hline with
  | root hget hparent =>
      rw [List.mem_singleton.1 hp, (of_get? hget).2]
      exact ⟨_, .root hget hparent, List.suffix_refl _⟩
  | step hget hparent hrest ih =>
      rcases List.mem_cons.1 hp with rfl | hp
      · rw [(of_get? hget).2]
        exact ⟨_, .step hget hparent hrest, List.suffix_refl _⟩
      · obtain ⟨line', hline', hsuffix⟩ := ih hp
        exact ⟨line', hline', hsuffix.trans (List.suffix_cons _ _)⟩

/-- A line that came back to its start would be shorter than itself. -/
theorem nodup (hline : h.Line a line) : (line.map (·.name)).Nodup := by
  induction hline with
  | root => exact List.nodup_singleton _
  | @step a b p rest hget hparent hrest ih =>
      rw [List.map_cons, List.nodup_cons]
      refine ⟨fun hmem => ?_, ih⟩
      obtain ⟨q, hq, hname⟩ := List.mem_map.1 hmem
      obtain ⟨line', hline', hsuffix⟩ := hrest.suffix hq
      have hself : h.Line a (p :: rest) := .step hget hparent hrest
      rw [hname, (of_get? hget).2] at hline'
      have hlength := hsuffix.length_le
      rw [hline'.unique hself, List.length_cons] at hlength
      omega

theorem last_parent (hline : h.Line a line) :
    ∃ p ∈ h.prototypes, line.getLast? = some p ∧ p.parent = none := by
  induction hline with
  | root hget hparent => exact ⟨_, (of_get? hget).1, rfl, hparent⟩
  | @step a b p rest _ _ hrest ih =>
      obtain ⟨q, hq, hlast, hparent⟩ := ih
      refine ⟨q, hq, ?_, hparent⟩
      rw [List.getLast?_cons, hlast]
      rfl

end Line

/-- Where no cycle lies ahead and no parent is missing, the walk is a line. -/
theorem line_chain {steps : Nat} {seen : List String} (hacyclic : ∀ x, ¬ OnCycle h.parentOf? x)
    (hparents : ∀ p ∈ h.prototypes, ∀ b ∈ p.parent, h.contains b) (ha : h.contains a)
    (hnodup : seen.Nodup) (hsub : seen ⊆ h.names)
    (hahead : ∀ x ∈ seen, Relation.TransGen (Extends h.parentOf?) x a)
    (hsteps : h.prototypes.length ≤ steps + seen.length) : h.Line a (h.chain steps seen a) := by
  induction steps generalizing seen a with
  | zero =>
      rw [Nat.zero_add] at hsteps
      exact absurd (hahead a (mem_of_full hnodup hsub hsteps (contains_iff.1 ha))) (hacyclic a)
  | succ steps ih =>
      have hnew : a ∉ seen := fun hseen => hacyclic a (hahead a hseen)
      obtain ⟨p, hget⟩ := get?_of_contains ha
      rw [chain_succ hget hnew]
      cases hparent : p.parent with
      | none => exact .root hget hparent
      | some b =>
          have hab : Extends h.parentOf? a b := by
            rw [Extends, parentOf?, hget, Option.bind_some, hparent]
          refine .step hget hparent (ih (hparents p (of_get? hget).1 b hparent)
            (List.nodup_cons.2 ⟨hnew, hnodup⟩) (List.cons_subset.2 ⟨contains_iff.1 ha, hsub⟩) (fun x hx => ?_)
            (by rw [List.length_cons]; omega))
          rcases List.mem_cons.1 hx with rfl | hx
          · exact .single hab
          · exact .tail (hahead x hx) hab

end Hierarchy

end ProtoScript
