import Mathlib.Data.List.Forall2

set_option autoImplicit false

/-!
# What is found in lists

Names are looked up in lists of pairs, and declarations are searched for by their name. The first pair or declaration
counts, and one that is added at the end counts if there was none before. What is made of a list item by item belongs
to it item by item.
-/

namespace ProtoScript

section

variable {α β : Type} [BEq α] [LawfulBEq α] {l : List (α × β)} {a : α} {b : β}

/-- Nothing is found under what is no key. -/
theorem lookup_eq_none_iff : l.lookup a = none ↔ a ∉ l.map Prod.fst := by
  rw [List.lookup_eq_none_iff]
  constructor
  · intro h hmem
    obtain ⟨p, hp, rfl⟩ := List.mem_map.1 hmem
    simpa using h p hp
  · intro h p hp
    have hne : a ≠ p.1 := fun heq => h (heq ▸ List.mem_map_of_mem hp)
    simpa using hne

theorem isSome_lookup_iff : (l.lookup a).isSome ↔ a ∈ l.map Prod.fst := by
  rw [← not_iff_not, Bool.not_eq_true, Option.isSome_eq_false_iff, Option.isNone_iff_eq_none, lookup_eq_none_iff]

theorem mem_of_lookup (h : l.lookup a = some b) : (a, b) ∈ l := by
  obtain ⟨l₁, l₂, rfl, _⟩ := List.lookup_eq_some_iff.1 h
  exact List.mem_append_right l₁ List.mem_cons_self

/-- Where all keys are different, every pair is the one that is found. -/
theorem lookup_of_mem (h : (l.map Prod.fst).Nodup) (hmem : (a, b) ∈ l) : l.lookup a = some b := by
  induction l with
  | nil => cases hmem
  | cons q rest ih =>
      rw [List.map_cons] at h
      obtain ⟨hq, hrest⟩ := List.nodup_cons.1 h
      rcases List.mem_cons.1 hmem with rfl | hmem
      · exact List.lookup_cons_self
      · have hne : (a == q.1) = false := by
          refine beq_false_of_ne fun heq => hq ?_
          exact List.mem_map.2 ⟨(a, b), hmem, heq⟩
        rw [List.lookup_cons, hne]
        exact ih hrest hmem

end

section

variable {α : Type} {l : List α} {a b : α}

theorem find?_append_of_some {f : α → Bool} (h : l.find? f = some a) (rest : List α) :
    (l ++ rest).find? f = some a := by
  rw [List.find?_append, h, Option.some_or]

/-- A name that was not there before is found where it is. -/
theorem find?_first (name : α → String) {rest : List α} (h : name a ∉ l.map name) :
    (l ++ a :: rest).find? (fun b => name b == name a) = some a := by
  rw [List.find?_append, List.find?_eq_none.2, Option.none_or]
  · exact List.find?_cons_of_pos (beq_self_eq_true _)
  · intro b hb heq
    exact h (List.mem_map.2 ⟨b, hb, beq_iff_eq.1 heq⟩)

/-- With one element more at its end a list has the elements it had, and that one. -/
theorem of_getElem?_concat {i : Nat} (h : (l ++ [a])[i]? = some b) :
    (i < l.length ∧ l[i]? = some b) ∨ (i = l.length ∧ b = a) := by
  by_cases hlt : i < l.length
  · rw [List.getElem?_append_left hlt] at h
    exact .inl ⟨hlt, h⟩
  · have hi : i < (l ++ [a]).length := (List.getElem?_eq_some_iff.1 h).1
    rw [List.length_append, List.length_singleton] at hi
    obtain rfl : i = l.length := by omega
    rw [List.getElem?_concat_length] at h
    exact .inr ⟨rfl, (Option.some.inj h).symm⟩

end

/-! ## Lists that belong together -/

/-- Every item of the second of two related lists has a partner in the first. -/
theorem exists_of_forall₂ {α β : Type} {R : α → β → Prop} {l : List α} {l' : List β}
    (h : List.Forall₂ R l l') {b : β} (hb : b ∈ l') : ∃ a ∈ l, R a b := by
  induction h with
  | nil => cases hb
  | cons hfirst _ ih =>
      rcases List.mem_cons.1 hb with rfl | hb
      · exact ⟨_, List.mem_cons_self, hfirst⟩
      · obtain ⟨a, ha, hrel⟩ := ih hb
        exact ⟨a, List.mem_cons_of_mem _ ha, hrel⟩

theorem forall₂_of_mapM {α β : Type} {f : α → Option β} {l : List α} {l' : List β}
    (h : l.mapM f = some l') : List.Forall₂ (fun a b => f a = some b) l l' := by
  induction l generalizing l' with
  | nil =>
      cases h
      exact .nil
  | cons a rest ih =>
      rw [List.mapM_cons] at h
      obtain ⟨b, hb, h⟩ := Option.bind_eq_some_iff.1 h
      obtain ⟨bs, hbs, h⟩ := Option.bind_eq_some_iff.1 h
      cases h
      exact .cons hb (ih hbs)

theorem mapM_eq_none_iff {α β : Type} {f : α → Option β} {l : List α} :
    l.mapM f = none ↔ ∃ a ∈ l, f a = none := by
  induction l with
  | nil => simp
  | cons a rest ih =>
      rw [List.mapM_cons, List.exists_mem_cons_iff, ← ih]
      cases ha : f a with
      | none => simp
      | some b => cases rest.mapM f <;> simp

end ProtoScript
