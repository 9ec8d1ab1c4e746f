import Mathlib.Data.Finset.Sort
import Mathlib.Data.String.Basic
import ProtoScript.Text.Suggest

set_option autoImplicit false

/-!
# The nearest names

A pass over the candidates keeps the least distance so far and the names that have it. What it has found at
any time is right for the set of the candidates it has seen (`Nearest.Sound`), and each turn keeps it so
(`Nearest.Sound.consider`). In the end those are the nearest of all candidates, so neither the order of the
candidates nor a repeated one makes a difference (`suggest_eq_sort_nearest`).
-/

namespace ProtoScript

/-- The names of a set, other than the name itself, that no other is nearer to. -/
def nearest (name : String) (candidates : Finset String) : Finset String :=
  candidates.filter fun c =>
    c ≠ name ∧ ∀ d ∈ candidates, d ≠ name → Edit.distance name c ≤ Edit.distance name d

section

variable {name c : String} {seen : Finset String} {near : Nearest}

theorem mem_nearest : c ∈ nearest name seen ↔ c ∈ seen ∧ c ≠ name ∧
    ∀ d ∈ seen, d ≠ name → Edit.distance name c ≤ Edit.distance name d := Finset.mem_filter

/-! ## One candidate -/

/-- What a candidate does: it is passed over, it is nearer than all before, or it is as near as they are and
new. -/
theorem Nearest.consider_cases (name : String) (near : Nearest) (c : String) :
    (near.consider name c = near ∧ (c = name ∨ maxSuggestionDistance < Edit.distance name c ∨
      ∃ n, near.distance? = some n ∧
        (n < Edit.distance name c ∨ n = Edit.distance name c ∧ c ∈ near.names))) ∨
    (c ≠ name ∧ Edit.distance name c ≤ maxSuggestionDistance ∧
      (∀ n, near.distance? = some n → Edit.distance name c < n) ∧
      near.consider name c = ⟨some (Edit.distance name c), [c]⟩) ∨
    (c ≠ name ∧ near.distance? = some (Edit.distance name c) ∧ c ∉ near.names ∧
      near.consider name c = { near with names := near.names ++ [c] }) := by
  unfold Nearest.consider
  dsimp only
  by_cases hname : c = name
  · rw [if_pos (by simp [hname])]
    exact .inl ⟨rfl, .inl hname⟩
  · by_cases hfar : maxSuggestionDistance < Edit.distance name c
    · rw [if_pos (by simp [hfar])]
      exact .inl ⟨rfl, .inr (.inl hfar)⟩
    · rw [if_neg (by simp [hname, hfar])]
      cases hdistance : near.distance? with
      | none => exact .inr (.inl ⟨hname, Nat.le_of_not_lt hfar, nofun, rfl⟩)
      | some n =>
          by_cases hless : Edit.distance name c < n
          · rw [if_pos (by simp [hless])]
            refine .inr (.inl ⟨hname, Nat.le_of_not_lt hfar, fun m hm => ?_, rfl⟩)
            obtain rfl := Option.some.inj hm
            exact hless
          · rw [if_neg (by simpa using hless)]
            by_cases hnew : n = Edit.distance name c ∧ c ∉ near.names
            · rw [if_pos (by simp [hnew])]
              exact .inr (.inr ⟨hname, by rw [hnew.1], hnew.2, rfl⟩)
            · rw [if_neg (by simpa using hnew)]
              refine .inl ⟨rfl, .inr (.inr ⟨n, rfl, ?_⟩)⟩
              by_cases heq : n = Edit.distance name c
              · exact .inr ⟨heq, not_not.1 fun hmem => hnew ⟨heq, hmem⟩⟩
              · exact .inl (by omega)

/-- What the pass has found is right for the candidates seen. -/
structure Nearest.Sound (name : String) (seen : Finset String) (near : Nearest) : Prop where
  nodup : near.names.Nodup
  mem_iff : ∀ c, c ∈ near.names ↔
    c ∈ seen ∧ c ≠ name ∧ near.distance? = some (Edit.distance name c)
  /-- No candidate seen is nearer. -/
  least : ∀ c ∈ seen, c ≠ name → Edit.distance name c ≤ maxSuggestionDistance →
    ∃ n, near.distance? = some n ∧ n ≤ Edit.distance name c
  /-- The distance is that of a name, and near enough. -/
  attained : ∀ n, near.distance? = some n → n ≤ maxSuggestionDistance ∧ ∃ c, c ∈ near.names

theorem Nearest.sound_start (name : String) : Nearest.Sound name ∅ {} where
  nodup := .nil
  mem_iff := by simp
  least := by simp
  attained := nofun

/-- A candidate that does not count is passed over, and one that is farther than the names or one of them. -/
theorem Nearest.Sound.pass (h : near.Sound name seen)
    (hpass : c = name ∨ maxSuggestionDistance < Edit.distance name c ∨
      ∃ n, near.distance? = some n ∧
        (n < Edit.distance name c ∨ n = Edit.distance name c ∧ c ∈ near.names)) :
    near.Sound name (insert c seen) := by
  have hmem : c ∈ near.names ↔ c ≠ name ∧ near.distance? = some (Edit.distance name c) := by
    constructor
    · intro hc
      exact ((h.mem_iff c).1 hc).2
    · rintro ⟨hname, hdistance⟩
      rcases hpass with hpass | hpass | ⟨n, hn, hfar | ⟨_, hc⟩⟩
      · exact absurd hpass hname
      · have hreach := (h.attained _ hdistance).1
        omega
      · rw [hdistance] at hn
        have hn := Option.some.inj hn
        omega
      · exact hc
  have hleast : c ≠ name → Edit.distance name c ≤ maxSuggestionDistance →
      ∃ n, near.distance? = some n ∧ n ≤ Edit.distance name c := by
    intro hname hreach
    rcases hpass with hpass | hpass | ⟨n, hn, hfar | ⟨hsame, _⟩⟩
    · exact absurd hpass hname
    · omega
    · exact ⟨n, hn, Nat.le_of_lt hfar⟩
    · exact ⟨n, hn, Nat.le_of_eq hsame⟩
  refine ⟨h.nodup, fun d => ?_, fun d hd => ?_, h.attained⟩
  · rw [Finset.mem_insert]
    by_cases hd : d = c
    · rw [hd, hmem]
      simp
    · rw [h.mem_iff]
      simp [hd]
  · rcases Finset.mem_insert.1 hd with rfl | hd
    · exact hleast
    · exact h.least d hd

/-- A candidate that is nearer takes the place of all names so far. -/
theorem Nearest.Sound.replace (h : near.Sound name seen) (hname : c ≠ name)
    (hreach : Edit.distance name c ≤ maxSuggestionDistance)
    (hnearer : ∀ n, near.distance? = some n → Edit.distance name c < n) :
    Nearest.Sound name (insert c seen) ⟨some (Edit.distance name c), [c]⟩ := by
  have hfarther : ∀ d ∈ seen, d ≠ name → Edit.distance name c < Edit.distance name d := by
    intro d hd hd'
    by_cases hreach' : Edit.distance name d ≤ maxSuggestionDistance
    · obtain ⟨n, hn, hle⟩ := h.least d hd hd' hreach'
      exact Nat.lt_of_lt_of_le (hnearer n hn) hle
    · omega
  refine ⟨List.nodup_singleton c, fun d => ?_, fun d hd hd' _ => ⟨_, rfl, ?_⟩, fun n hn => ?_⟩
  · rw [List.mem_singleton, Finset.mem_insert, Option.some.injEq]
    constructor
    · rintro rfl
      exact ⟨.inl rfl, hname, rfl⟩
    · rintro ⟨hd | hd, hd', hsame⟩
      · exact hd
      · exact absurd hsame (Nat.ne_of_lt (hfarther d hd hd'))
  · rcases Finset.mem_insert.1 hd with rfl | hd
    · exact Nat.le_refl _
    · exact Nat.le_of_lt (hfarther d hd hd')
  · obtain rfl := Option.some.inj hn
    exact ⟨hreach, c, List.mem_singleton_self c⟩

/-- A new candidate that is as near as the names so far comes to them. -/
theorem Nearest.Sound.add (h : near.Sound name seen) (hname : c ≠ name)
    (htie : near.distance? = some (Edit.distance name c)) (hnew : c ∉ near.names) :
    Nearest.Sound name (insert c seen) { near with names := near.names ++ [c] } := by
  refine ⟨?_, fun d => ?_, fun d hd hd' hreach => ?_, fun n hn => ⟨(h.attained n hn).1, c, by simp⟩⟩
  · refine List.nodup_append.2 ⟨h.nodup, List.nodup_singleton c, fun d hd e he => ?_⟩
    rw [List.mem_singleton.1 he]
    exact fun hdc => hnew (hdc ▸ hd)
  · rw [List.mem_append, List.mem_singleton, Finset.mem_insert, h.mem_iff]
    constructor
    · rintro (⟨hd, hd'⟩ | rfl)
      · exact ⟨.inr hd, hd'⟩
      · exact ⟨.inl rfl, hname, htie⟩
    · rintro ⟨hd | hd, hd'⟩
      · exact .inr hd
      · exact .inl ⟨hd, hd'⟩
  · rcases Finset.mem_insert.1 hd with rfl | hd
    · exact ⟨_, htie, Nat.le_refl _⟩
    · exact h.least d hd hd' hreach

theorem Nearest.Sound.consider (h : near.Sound name seen) (c : String) :
    (near.consider name c).Sound name (insert c seen) := by
  rcases near.consider_cases name c with
    ⟨heq, hpass⟩ | ⟨hname, hreach, hnearer, heq⟩ | ⟨hname, htie, hnew, heq⟩
  · rw [heq]
    exact h.pass hpass
  · rw [heq]
    exact h.replace hname hreach hnearer
  · rw [heq]
    exact h.add hname htie hnew

/-! ## The whole pass -/

theorem Nearest.Sound.foldl (h : near.Sound name seen) (candidates : List String) :
    (candidates.foldl (Nearest.consider name) near).Sound name (seen ∪ candidates.toFinset) := by
  induction candidates generalizing near seen with
  | nil => simpa using h
  | cons c rest ih =>
      have hrest := ih (h.consider c)
      rwa [Finset.insert_union, ← Finset.union_insert, ← List.toFinset_cons] at hrest

theorem Nearest.sound_foldl (name : String) (candidates : List String) :
    (candidates.foldl (Nearest.consider name) {}).Sound name candidates.toFinset := by
  simpa using (Nearest.sound_start name).foldl candidates

/-- Without a distance no candidate seen is near enough. -/
theorem Nearest.Sound.far (h : near.Sound name seen) (hdistance : near.distance? = none) :
    ∀ c ∈ seen, c ≠ name → maxSuggestionDistance < Edit.distance name c := by
  intro c hc hname
  refine Nat.lt_of_not_le fun hreach => ?_
  obtain ⟨n, hn, _⟩ := h.least c hc hname hreach
  rw [hdistance] at hn
  cases hn

/-- A distance is that of the nearest candidates seen. -/
theorem Nearest.Sound.mem_nearest_iff {n : Nat} (h : near.Sound name seen) (hdistance : near.distance? = some n) :
    c ∈ nearest name seen ↔ c ∈ seen ∧ c ≠ name ∧ n = Edit.distance name c := by
  obtain ⟨hreach, d, hd⟩ := h.attained n hdistance
  obtain ⟨hseen, hname, hn⟩ := (h.mem_iff d).1 hd
  rw [hdistance, Option.some.injEq] at hn
  have hleast : ∀ d ∈ seen, d ≠ name → n ≤ Edit.distance name d := by
    intro d hd hd'
    by_cases hreach' : Edit.distance name d ≤ maxSuggestionDistance
    · obtain ⟨m, hm, hle⟩ := h.least d hd hd' hreach'
      rw [hdistance, Option.some.injEq] at hm
      omega
    · omega
  rw [mem_nearest]
  constructor
  · rintro ⟨hc, hc', hc''⟩
    have hle := hc'' d hseen hname
    exact ⟨hc, hc', Nat.le_antisymm (hleast c hc hc') (hn ▸ hle)⟩
  · rintro ⟨hc, hc', rfl⟩
    exact ⟨hc, hc', hleast⟩

/-- What was found is the nearest of what was seen, unless that is too far away. -/
theorem Nearest.Sound.toFinset_names (h : near.Sound name seen) : near.names.toFinset =
    if ∀ c ∈ nearest name seen, Edit.distance name c ≤ maxSuggestionDistance then nearest name seen
    else ∅ := by
  cases hdistance : near.distance? with
  | none =>
      have hnames : near.names = [] := by
        refine List.eq_nil_iff_forall_not_mem.2 fun c hc => ?_
        have hc' := ((h.mem_iff c).1 hc).2.2
        rw [hdistance] at hc'
        cases hc'
      rw [hnames, List.toFinset_nil]
      by_cases hnear : ∀ c ∈ nearest name seen, Edit.distance name c ≤ maxSuggestionDistance
      · rw [if_pos hnear]
        refine (Finset.eq_empty_of_forall_notMem fun c hc => ?_).symm
        obtain ⟨hseen, hname, _⟩ := mem_nearest.1 hc
        exact Nat.not_le_of_lt (h.far hdistance c hseen hname) (hnear c hc)
      · rw [if_neg hnear]
  | some n =>
      have hreach := (h.attained n hdistance).1
      have hnear : ∀ c ∈ nearest name seen, Edit.distance name c ≤ maxSuggestionDistance := by
        intro c hc
        rwa [← ((h.mem_nearest_iff hdistance).1 hc).2.2]
      rw [if_pos hnear]
      ext c
      rw [List.mem_toFinset, h.mem_iff, h.mem_nearest_iff hdistance, hdistance, Option.some.injEq]

end

/-! ## Sorted texts -/

theorem pairwise_sortTexts (texts : List String) : (sortTexts texts).Pairwise (· ≤ ·) := by
  have hle (a b : String) : (!decide (b < a)) = true ↔ a ≤ b := by
    rw [Bool.not_eq_true', decide_eq_false_iff_not, String.not_lt]
  have hsorted : (sortTexts texts).Pairwise fun a b => (!decide (b < a)) = true := by
    apply List.pairwise_mergeSort
    · intro a b c hab hbc
      exact (hle a c).2 (String.le_trans ((hle a b).1 hab) ((hle b c).1 hbc))
    · intro a b
      rw [Bool.or_eq_true, hle, hle]
      exact String.le_total a b
  exact hsorted.imp fun hab => (hle _ _).1 hab

theorem sortTexts_eq_sort {texts : List String} (h : texts.Nodup) :
    sortTexts texts = texts.toFinset.sort := by
  have hperm : (sortTexts texts).Perm texts := List.mergeSort_perm texts _
  rw [← List.toFinset_eq_of_perm _ _ hperm]
  exact ((List.toFinset_sort _ (hperm.nodup_iff.2 h)).2 (pairwise_sortTexts texts)).symm

/-! ## Suggestions -/

theorem suggest_eq (name : String) (candidates : List String) :
    suggest name candidates =
      if (∀ c ∈ nearest name candidates.toFinset, Edit.distance name c ≤ 2) ∧
        ((nearest name candidates.toFinset).card = 1 ∨ (nearest name candidates.toFinset).card = 2)
      then (nearest name candidates.toFinset).sort else [] := by
  have hsound := Nearest.sound_foldl name candidates
  generalize hnear : candidates.foldl (Nearest.consider name) {} = near at hsound
  have hnames := hsound.toFinset_names
  have hlength : near.names.length = near.names.toFinset.card :=
    (List.toFinset_card_of_nodup hsound.nodup).symm
  rw [suggest, hnear, sortTexts_eq_sort hsound.nodup, hlength, hnames,
    show maxSuggestionDistance = 2 from rfl]
  generalize nearest name candidates.toFinset = N
  by_cases hreach : ∀ c ∈ N, Edit.distance name c ≤ 2
  · rw [if_pos hreach]
    by_cases hempty : N = ∅
    · simp [hempty]
    · have hcard : 0 < N.card := Finset.card_pos.2 (Finset.nonempty_of_ne_empty hempty)
      have hfew : N.card ≤ 2 ↔ N.card = 1 ∨ N.card = 2 := by omega
      simp only [hfew, and_iff_right hreach]
  · have hnot : ¬((∀ c ∈ N, Edit.distance name c ≤ 2) ∧ (N.card = 1 ∨ N.card = 2)) :=
      fun h => hreach h.1
    rw [if_neg hreach, if_neg hnot]
    simp

/-- What is suggested depends on the set of the candidates only. -/
theorem suggest_of_mem_iff {name : String} {as bs : List String} (h : ∀ c, c ∈ as ↔ c ∈ bs) :
    suggest name as = suggest name bs := by
  rw [suggest_eq, suggest_eq, List.toFinset.ext h]

/-- Suggested are the candidates nearest to the name, in order, if they are within two edits and there is one
or two of them. Candidates in another order, or given more than once, make no difference. -/
theorem suggest_eq_sort_nearest (name : String) (candidates : List String) :
    (suggest name candidates =
      if (∀ c ∈ nearest name candidates.toFinset, Edit.distance name c ≤ 2) ∧
        ((nearest name candidates.toFinset).card = 1 ∨ (nearest name candidates.toFinset).card = 2)
      then (nearest name candidates.toFinset).sort else []) ∧
    ∀ others : List String, (∀ c, c ∈ others ↔ c ∈ candidates) →
      suggest name others = suggest name candidates :=
  ⟨suggest_eq name candidates, fun _ h => suggest_of_mem_iff h⟩

/-- Two of four candidates are one character longer than the name; that one of them comes twice, and in front
of the other, is not seen. -/
theorem suggest_abc_abd :
    (∀ c, c ∈ ["abd", "abc", "zzzz", "abd"] ↔ c ∈ ["abc", "abd", "zzzz"]) ∧
      suggest "ab" ["abd", "abc", "zzzz", "abd"] = suggest "ab" ["abc", "abd", "zzzz"] ∧
      suggest "ab" ["abc", "abd", "zzzz"] = ["abc", "abd"] := by
  have hmem : ∀ c, c ∈ ["abd", "abc", "zzzz", "abd"] ↔ c ∈ ["abc", "abd", "zzzz"] := by
    intro c
    simp only [List.mem_cons, List.not_mem_nil, or_false]
    tauto
  have hnames : (["abc", "abd", "zzzz"].foldl (Nearest.consider "ab") {}).names = ["abc", "abd"] := by
    decide +kernel
  refine ⟨hmem, (suggest_eq_sort_nearest "ab" _).2 _ hmem, ?_⟩
  rw [suggest, hnames, sortTexts]
  exact List.mergeSort_of_pairwise (by decide +kernel)

end ProtoScript
