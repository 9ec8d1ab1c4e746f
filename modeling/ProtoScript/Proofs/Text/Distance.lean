import Mathlib.Data.List.OfFn
import Mathlib.Order.Bounds.Basic
import Mathlib.Order.MinMax
import ProtoScript.Text.Suggest

set_option autoImplicit false

/-!
# Edit distance

A script of edits turns one text into another, each edit inserts, deletes or replaces one character
(`Step`, `Script`). The distance of two texts is the length of a shortest script between them
(`distance_isLeast`), so it is a metric.

The table holds a recurrence on how the two texts end (`cost`). There is a script as long as the
recurrence says (`script_cost`), and an edit changes what it says by at most one (`cost_le_of_step`), so no
script is shorter. The rows are the recurrence whatever was in them before (`isRow_writeRow`).
-/

namespace ProtoScript.Edit

/-! ## Scripts -/

/-- One edit. -/
inductive Step : List Char → List Char → Prop where
  | insert (l : List Char) (c : Char) (r : List Char) : Step (l ++ r) (l ++ c :: r)
  | delete (l : List Char) (c : Char) (r : List Char) : Step (l ++ c :: r) (l ++ r)
  | replace (l : List Char) (c d : Char) (r : List Char) : Step (l ++ c :: r) (l ++ d :: r)

/-- That many edits, one behind the other, turn one text into the other. -/
inductive Script : Nat → List Char → List Char → Prop where
  | done (a : List Char) : Script 0 a a
  | step {n : Nat} {a b c : List Char} : Script n a b → Step b c → Script (n + 1) a c

section

variable {a b c : List Char} {m n : Nat}

theorem Step.symm (h : Step a b) : Step b a := by
  cases h with
  | insert l c r => exact .delete l c r
  | delete l c r => exact .insert l c r
  | replace l c d r => exact .replace l d c r

theorem Step.cons (x : Char) (h : Step a b) : Step (x :: a) (x :: b) := by
  cases h with
  | insert l c r => exact .insert (x :: l) c r
  | delete l c r => exact .delete (x :: l) c r
  | replace l c d r => exact .replace (x :: l) c d r

theorem Step.reverse (h : Step a b) : Step a.reverse b.reverse := by
  cases h with
  | insert l c r => simpa using Step.insert r.reverse c l.reverse
  | delete l c r => simpa using Step.delete r.reverse c l.reverse
  | replace l c d r => simpa using Step.replace r.reverse c d l.reverse

/-- What turns edits into edits turns scripts into scripts. -/
theorem Script.map {f : List Char → List Char} (hf : ∀ {a b}, Step a b → Step (f a) (f b))
    (h : Script n a b) : Script n (f a) (f b) := by
  induction h with
  | done a => exact .done _
  | step _ hstep ih => exact ih.step (hf hstep)

theorem Script.trans (h : Script m a b) (h' : Script n b c) : Script (m + n) a c := by
  induction h' with
  | done b => exact h
  | step _ hstep ih => exact (ih h).step hstep

theorem Script.symm (h : Script n a b) : Script n b a := by
  induction h with
  | done a => exact .done a
  | @step n a b c _ hstep ih =>
      have hback : Script (1 + n) c a := ((Script.done c).step hstep.symm).trans ih
      rwa [Nat.add_comm] at hback

theorem Script.reverse_iff : Script n a.reverse b.reverse ↔ Script n a b := by
  constructor
  · intro h
    simpa using h.map Step.reverse
  · exact Script.map Step.reverse

theorem eq_of_script_zero (h : Script 0 a b) : a = b := by
  cases h
  rfl

end

/-! ## The recurrence -/

/-- The distance by the first characters of the two texts. -/
def cost : List Char → List Char → Nat
  | [], b => b.length
  | a, [] => a.length
  | x :: a, y :: b =>
    min (min (cost a (y :: b) + 1) (cost (x :: a) b + 1)) (cost a b + if x = y then 0 else 1)

section

variable {a b c : List Char} {n : Nat}

theorem cost_nil (b : List Char) : cost [] b = b.length := by
  rw [cost]

theorem cost_of_nil (a : List Char) : cost a [] = a.length := by
  cases a with
  | nil => rw [cost]
  | cons x a => rw [cost]; exact List.cons_ne_nil x a

theorem cost_cons (x : Char) (a : List Char) (y : Char) (b : List Char) : cost (x :: a) (y :: b) =
    min (min (cost a (y :: b) + 1) (cost (x :: a) b + 1)) (cost a b + if x = y then 0 else 1) := by
  rw [cost]

theorem cost_self (a : List Char) : cost a a = 0 := by
  induction a with
  | nil => rw [cost_nil, List.length_nil]
  | cons x a ih => rw [cost_cons, ih, if_pos rfl, Nat.min_zero]

/-- Every character of a text is inserted. -/
theorem script_insertAll (b : List Char) : Script b.length [] b := by
  induction b with
  | nil => exact .done []
  | cons y b ih => exact ih.step (.insert [] y b)

/-- Some script is as long as the recurrence says. -/
theorem script_cost (a b : List Char) : Script (cost a b) a b := by
  fun_induction cost a b with
  | case1 b => exact script_insertAll b
  | case2 a _ => exact (script_insertAll a).symm
  | case3 x a y b hdelete hinsert hkeep =>
      -- there is a script for each of the three ways; the recurrence takes the shortest of them
      have hfirst : Script (cost a (y :: b) + 1) (x :: a) (y :: b) :=
        (hdelete.symm.step (.insert [] x a)).symm
      have hsecond : Script (cost (x :: a) b + 1) (x :: a) (y :: b) := hinsert.step (.insert [] y b)
      have hthird : Script (cost a b + if x = y then 0 else 1) (x :: a) (y :: b) := by
        have hrest : Script (cost a b) (x :: a) (x :: b) := hkeep.map (Step.cons x)
        by_cases hxy : x = y
        · rwa [if_pos hxy, ← hxy]
        · rw [if_neg hxy]
          exact hrest.step (.replace [] x y b)
      rcases min_choice (min (cost a (y :: b) + 1) (cost (x :: a) b + 1))
        (cost a b + if x = y then 0 else 1) with hmin | hmin
      · rw [hmin]
        rcases min_choice (cost a (y :: b) + 1) (cost (x :: a) b + 1) with hmin | hmin
        · rwa [hmin]
        · rwa [hmin]
      · rwa [hmin]

/-! An edit of the second text changes the recurrence by at most one. In front this is one look at the
recurrence; the characters before the edit are taken off one by one. -/

theorem cost_cons_left_le (x : Char) (a b : List Char) : cost (x :: a) b ≤ cost a b + 1 := by
  cases b with
  | nil => simp only [cost_of_nil, List.length_cons, Nat.le_refl]
  | cons y b => rw [cost_cons]; omega

theorem cost_insert_le (a : List Char) (y : Char) (b : List Char) : cost a (y :: b) ≤ cost a b + 1 := by
  cases a with
  | nil => simp only [cost_nil, List.length_cons, Nat.le_refl]
  | cons x a => rw [cost_cons]; omega

theorem cost_delete_le (a : List Char) (y : Char) (b : List Char) : cost a b ≤ cost a (y :: b) + 1 := by
  induction a with
  | nil => simp only [cost_nil, List.length_cons]; omega
  | cons x a ih =>
      have hleft : cost (x :: a) b ≤ cost a b + 1 := cost_cons_left_le x a b
      rw [cost_cons]
      omega

theorem cost_replace_le (a : List Char) (y z : Char) (b : List Char) :
    cost a (z :: b) ≤ cost a (y :: b) + 1 := by
  induction a with
  | nil => simp only [cost_nil, List.length_cons]; omega
  | cons x a ih =>
      rw [cost_cons, cost_cons]
      split <;> omega

/-- An edit may also stand behind a character that the texts have in common. -/
theorem cost_cons_le (y : Char) (h : ∀ a, cost a c ≤ cost a b + 1) (a : List Char) :
    cost a (y :: c) ≤ cost a (y :: b) + 1 := by
  induction a with
  | nil =>
      have hlength : cost [] c ≤ cost [] b + 1 := h []
      simp only [cost_nil, List.length_cons] at hlength ⊢
      omega
  | cons x a ih =>
      have hinsert : cost (x :: a) c ≤ cost (x :: a) b + 1 := h (x :: a)
      have hkeep : cost a c ≤ cost a b + 1 := h a
      rw [cost_cons, cost_cons]
      omega

theorem cost_append_le (l : List Char) (h : ∀ a, cost a c ≤ cost a b + 1) (a : List Char) :
    cost a (l ++ c) ≤ cost a (l ++ b) + 1 := by
  induction l generalizing a with
  | nil => exact h a
  | cons y l ih => exact cost_cons_le y ih a

theorem cost_le_of_step (a : List Char) (h : Step b c) : cost a c ≤ cost a b + 1 := by
  cases h with
  | insert l y r => exact cost_append_le l (fun a => cost_insert_le a y r) a
  | delete l y r => exact cost_append_le l (fun a => cost_delete_le a y r) a
  | replace l y z r => exact cost_append_le l (fun a => cost_replace_le a y z r) a

/-- No script is shorter than the recurrence says. -/
theorem cost_le_of_script (h : Script n a b) : cost a b ≤ n := by
  induction h with
  | done a => exact Nat.le_of_eq (cost_self a)
  | @step n a b c _ hstep ih =>
      calc
        cost a c ≤ cost a b + 1 := cost_le_of_step a hstep
        _ ≤ n + 1 := Nat.add_le_add_right ih 1

end

/-! ## The table -/

/-- A loop over the numbers below `n` keeps what every turn keeps. -/
theorem fold_induction {α : Type} {P : Nat → α → Prop} {n : Nat} {f : (j : Nat) → j < n → α → α} {x : α}
    (hzero : P 0 x) (hstep : ∀ j (hj : j < n) x, P j x → P (j + 1) (f j hj x)) : P n (n.fold f x) := by
  induction n with
  | zero => exact hzero
  | succ n ih =>
      rw [Nat.fold_succ]
      exact hstep n n.lt_succ_self _ (ih fun j hj => hstep j (by omega))

variable {n : Nat} {target : Vector Char n}

/-- The first entries of a row, up to `k`, are those for the part `read` of the first text. -/
def IsRow (target : Vector Char n) (read : List Char) (k : Nat) (row : Vector Nat (n + 1)) : Prop :=
  ∀ j (hj : j < n + 1), j ≤ k → row[j] = cost read.reverse (target.toList.take j).reverse

/-- A row is written from the one above it; what stood there before is lost, the first entry apart. -/
theorem isRow_writeRow {read : List Char} (c : Char) {above row : Vector Nat (n + 1)}
    (habove : IsRow target read n above) (hfirst : IsRow target (read ++ [c]) 0 row) :
    IsRow target (read ++ [c]) n (writeRow target c above row) := by
  -- what is written so far, up to the entry `j`, is right
  refine fold_induction (P := IsRow target (read ++ [c])) hfirst fun j hj row hrow => ?_
  intro i hi hle
  by_cases heq : i = j + 1
  · subst heq
    -- the new entry is one step of the recurrence, from the entries above it and to its left
    have htake : (target.toList.take (j + 1)).reverse = target[j] :: (target.toList.take j).reverse := by
      rw [List.take_succ_eq_append_getElem (by simpa using hj), List.reverse_append]
      simp
    have hread : (read ++ [c]).reverse = c :: read.reverse := by simp
    rw [Vector.getElem_set_self, htake, hread, cost_cons, ← htake, ← hread,
      ← habove (j + 1) hi (by omega), ← habove j (by omega) (by omega), ← hrow j (by omega) (Nat.le_refl j)]
  · rw [Vector.getElem_set_ne _ _ (by omega)]
    exact hrow i hi (by omega)

theorem isRow_start : IsRow target [] n (Rows.start n).last := by
  intro j hj hle
  have hlength : (target.toList.take j).reverse.length = j := by simpa using hle
  rw [List.reverse_nil, cost_nil, hlength]
  simp [Rows.start]

/-- The induction is on the part of the first text that is still to be read. -/
theorem isRow_foldl {read : List Char} (rest : List Char) {rows : Rows n}
    (h : IsRow target read n rows.last) : IsRow target (read ++ rest) n
      ((rest.zipIdx read.length).foldl (fun rows p => rows.next target p.1 p.2) rows).last := by
  induction rest generalizing read rows with
  | nil => simpa using h
  | cons c rest ih =>
      have hfirst : IsRow target (read ++ [c]) 0 (rows.spare.set 0 (read.length + 1)) := by
        -- the entries of the first column count deletions only
        intro j hj hle
        obtain rfl : j = 0 := by omega
        rw [Vector.getElem_set_self, List.take_zero, List.reverse_nil, cost_of_nil]
        simp
      have hnext : IsRow target (read ++ [c]) n (rows.next target c read.length).last :=
        isRow_writeRow c h hfirst
      have hrest := ih hnext
      rwa [List.length_append, List.length_singleton, List.append_assoc] at hrest

/-- The last entry of the last row belongs to the whole texts. -/
theorem lastRow_eq_cost (source target : List Char) :
    (lastRow source (.ofFn target.get))[target.length] = cost source.reverse target.reverse := by
  have hstart : IsRow (.ofFn target.get) [] target.length (Rows.start target.length).last := isRow_start
  have hrow := isRow_foldl source hstart
  have hentry := hrow target.length (Nat.lt_succ_self _) (Nat.le_refl _)
  have htarget : (Vector.ofFn target.get).toList = target := by
    rw [Vector.toList_ofFn, List.ofFn_get]
  rwa [htarget, List.take_length] at hentry

theorem distance_eq_cost (a b : String) : distance a b = cost a.toList.reverse b.toList.reverse := by
  unfold distance
  dsimp only
  split
  · rename_i ha
    rw [List.isEmpty_iff.1 ha, List.reverse_nil, cost_nil, List.length_reverse]
  · split
    · rename_i hb
      rw [List.isEmpty_iff.1 hb, List.reverse_nil, cost_of_nil, List.length_reverse]
    · exact lastRow_eq_cost a.toList b.toList

/-! ## The distance -/

theorem script_distance (a b : String) : Script (distance a b) a.toList b.toList := by
  rw [distance_eq_cost]
  exact Script.reverse_iff.1 (script_cost _ _)

theorem distance_le_of_script {a b : String} {n : Nat} (h : Script n a.toList b.toList) :
    distance a b ≤ n := by
  rw [distance_eq_cost]
  exact cost_le_of_script (Script.reverse_iff.2 h)

theorem distance_eq_zero_iff {a b : String} : distance a b = 0 ↔ a = b := by
  constructor
  · intro h
    exact String.toList_injective (eq_of_script_zero (h ▸ script_distance a b))
  · rintro rfl
    exact Nat.le_zero.1 (distance_le_of_script (.done _))

/-- The distance is the least number of edits that turn one text into the other. It is zero only between
equal texts, the same in both directions, and no way through a third text is shorter. -/
theorem distance_isLeast (a b : String) :
    IsLeast {n | Script n a.toList b.toList} (distance a b) ∧ (distance a b = 0 ↔ a = b) ∧
      distance a b = distance b a ∧ ∀ c, distance a c ≤ distance a b + distance b c := by
  have hback : ∀ a b, distance a b ≤ distance b a := fun a b =>
    distance_le_of_script (script_distance b a).symm
  refine ⟨⟨script_distance a b, fun n hn => distance_le_of_script hn⟩, distance_eq_zero_iff,
    Nat.le_antisymm (hback a b) (hback b a), fun c => ?_⟩
  exact distance_le_of_script ((script_distance a b).trans (script_distance b c))

example : distance "kitten" "sitting" = 3 := by decide +kernel

end ProtoScript.Edit
