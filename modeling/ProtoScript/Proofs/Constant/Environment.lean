import ProtoScript.Constant.Evaluate

set_option autoImplicit false

/-!
# Environments of constants

What is found in an environment behind a number of insertions: the value that was inserted last under the name, or
else what was found before (`get?_insertAll`). Members of groups and modules are inserted under qualified
names, and a qualified name can be read in one way only if there is no dot in the part before it
(`qualified_inj`).
-/

namespace ProtoScript

/-! ## Qualified names -/

/-- There is no dot in the name, so it is not the spelling of a member. -/
def Dotless (name : String) : Prop := '.' ∉ name.toList

instance (name : String) : Decidable (Dotless name) := inferInstanceAs (Decidable ('.' ∉ name.toList))

theorem toList_qualified (owner member : String) :
    (qualified owner member).toList = owner.toList ++ '.' :: member.toList := by
  simp [qualified]

theorem append_dot_inj {before before' behind behind' : List Char} (h : '.' ∉ before) (h' : '.' ∉ before')
    (heq : before ++ '.' :: behind = before' ++ '.' :: behind') : before = before' ∧ behind = behind' := by
  induction before generalizing before' with
  | nil =>
      cases before' with
      | nil => exact ⟨rfl, (List.cons.inj heq).2⟩
      | cons c rest =>
          obtain ⟨rfl, _⟩ := List.cons.inj heq
          exact absurd List.mem_cons_self h'
  | cons c rest ih =>
      cases before' with
      | nil =>
          obtain ⟨rfl, _⟩ := List.cons.inj heq
          exact absurd List.mem_cons_self h
      | cons c' rest' =>
          obtain ⟨rfl, hrest⟩ := List.cons.inj heq
          obtain ⟨rfl, hbehind⟩ := ih (mt (List.mem_cons_of_mem c) h) (mt (List.mem_cons_of_mem c) h') hrest
          exact ⟨rfl, hbehind⟩

theorem qualified_inj {owner owner' member member' : String} (h : Dotless owner) (h' : Dotless owner')
    (heq : qualified owner member = qualified owner' member') : owner = owner' ∧ member = member' := by
  have hchars := congrArg String.toList heq
  rw [toList_qualified, toList_qualified] at hchars
  obtain ⟨howner, hmember⟩ := append_dot_inj h h' hchars
  exact ⟨String.toList_injective howner, String.toList_injective hmember⟩

theorem Dotless.ne_qualified {name : String} (h : Dotless name) (owner member : String) :
    name ≠ qualified owner member := by
  rintro rfl
  apply h
  rw [toList_qualified]
  simp

/-- Different members of one owner have different spellings. -/
theorem qualified_right_inj {owner member member' : String}
    (heq : qualified owner member = qualified owner member') : member = member' := by
  have hchars := congrArg String.toList heq
  rw [toList_qualified, toList_qualified] at hchars
  exact String.toList_injective (List.cons.inj (List.append_cancel_left hchars)).2

/-! ## Insertions -/

namespace ConstEnv

theorem lookup_filter_ne (env : ConstEnv) {name key : String} (h : key ≠ name) :
    List.lookup key (env.filter fun e => e.1 != name) = List.lookup key env := by
  induction env with
  | nil => rfl
  | cons e rest ih =>
      by_cases he : e.1 = name
      · have hkey : (key == e.1) = false := beq_eq_false_iff_ne.2 (he ▸ h)
        rw [List.filter_cons_of_neg (by simp [he]), ih, List.lookup_cons, hkey]
      · rw [List.filter_cons_of_pos (by simpa using he), List.lookup_cons, List.lookup_cons, ih]

theorem get?_insert (env : ConstEnv) (name key : String) (v : Constant) :
    (env.insert name v).get? key = if key = name then some v else env.get? key := by
  rw [insert, get?, List.lookup_cons]
  by_cases h : key = name
  · rw [beq_iff_eq.2 h, if_pos h]
  · rw [beq_eq_false_iff_ne.2 h, if_neg h]
    exact lookup_filter_ne env h

/-- The environment with constants bound one after the other. -/
def insertAll (env : ConstEnv) (entries : List (String × Constant)) : ConstEnv :=
  entries.foldl (fun env e => env.insert e.1 e.2) env

@[simp] theorem insertAll_cons (env : ConstEnv) (e : String × Constant) (rest : List (String × Constant)) :
    env.insertAll (e :: rest) = (env.insert e.1 e.2).insertAll rest := rfl

theorem insertAll_append (env : ConstEnv) (entries rest : List (String × Constant)) :
    env.insertAll (entries ++ rest) = (env.insertAll entries).insertAll rest := List.foldl_append

variable {env : ConstEnv} {entries : List (String × Constant)} {key : String}

/-- A name under which nothing is inserted is bound as before. -/
theorem get?_insertAll_of_notMem (h : ∀ e ∈ entries, e.1 ≠ key) :
    (env.insertAll entries).get? key = env.get? key := by
  induction entries generalizing env with
  | nil => rfl
  | cons e rest ih =>
      have hne : key ≠ e.1 := (h e List.mem_cons_self).symm
      rw [insertAll_cons, ih fun e' he' => h e' (List.mem_cons_of_mem e he'), get?_insert, if_neg hne]

/-- If only one value is inserted under a name, the name is bound to it. -/
theorem get?_insertAll_of_mem {v : Constant} (hmem : (key, v) ∈ entries)
    (huniq : ∀ w, (key, w) ∈ entries → w = v) : (env.insertAll entries).get? key = some v := by
  induction entries generalizing env with
  | nil => cases hmem
  | cons e rest ih =>
      rw [insertAll_cons]
      by_cases hrest : ∃ w, (key, w) ∈ rest
      · obtain ⟨w, hw⟩ := hrest
        have heq : w = v := huniq w (List.mem_cons_of_mem e hw)
        exact ih (heq ▸ hw) fun w' hw' => huniq w' (List.mem_cons_of_mem e hw')
      · -- The name is not inserted again.
        have hhere : (key, v) = e := by
          rcases List.mem_cons.1 hmem with h | h
          · exact h
          · exact absurd ⟨v, h⟩ hrest
        have hnone : ∀ e' ∈ rest, e'.1 ≠ key := by
          rintro ⟨k, w⟩ he' rfl
          exact hrest ⟨w, he'⟩
        rw [get?_insertAll_of_notMem hnone, get?_insert, ← hhere, if_pos rfl]

end ConstEnv

end ProtoScript
