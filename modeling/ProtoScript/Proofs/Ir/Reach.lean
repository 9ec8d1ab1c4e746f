import Mathlib.Data.Finset.Insert
import Mathlib.Logic.Relation
import Mathlib.Order.Bounds.Basic
import Mathlib.Data.Multiset.AddSub
import ProtoScript.Ir.Reach

set_option autoImplicit false

/-!
# Reachable labels

The reachable labels of a function are the least set that holds the label of its first block and goes along
with control (`Function.Closed`): from the label of a block to its successors and its handlers. Labels that
name no block lead nowhere, and of several blocks with one label only the first counts.

A visit takes labels off a worklist in any order (`Function.Turn`). It ends, since the worklist and what is
still to be put on it together become shorter with each turn (`Turn.left_lt`), and it always finds the same
labels (`reachable_isLeast`).
-/

namespace ProtoScript.Ir.Function

variable {f : Function}

/-- The set holds the label of the first block, and with the label of a block all labels that control may go
to from it: by its terminator, or to a handler it installs. -/
structure Closed (f : Function) (S : Set String) : Prop where
  entry : ∀ b, f.blocks.head? = some b → b.label ∈ S
  successors : ∀ l ∈ S, ∀ b, f.block? l = some b → ∀ l' ∈ b.terminator.successors, l' ∈ S
  handlers : ∀ l ∈ S, ∀ b, f.block? l = some b → ∀ handler, Instr.setupTry handler ∈ b.instrs → handler ∈ S

/-! ## Targets -/

theorem mem_handlers {b : Block} {l : String} : l ∈ b.handlers ↔ Instr.setupTry l ∈ b.instrs := by
  unfold Block.handlers
  rw [List.mem_filterMap]
  constructor
  · rintro ⟨i, hi, hl⟩
    cases i with
    | setupTry h => exact Option.some.inj hl ▸ hi
    | _ => cases hl
  · intro h
    exact ⟨_, h, rfl⟩

theorem mem_targets {l l' : String} : l' ∈ f.targets l ↔
    ∃ b, f.block? l = some b ∧ (l' ∈ b.terminator.successors ∨ Instr.setupTry l' ∈ b.instrs) := by
  unfold targets
  cases f.block? l with
  | none => simp
  | some b => simp [Block.targets, Block.successors, mem_handlers]

theorem closed_iff {S : Set String} : f.Closed S ↔
    (∀ l ∈ f.entry?.map Block.label, l ∈ S) ∧ ∀ l ∈ S, ∀ l' ∈ f.targets l, l' ∈ S := by
  constructor
  · intro h
    refine ⟨fun l hl => ?_, fun l hl l' hl' => ?_⟩
    · obtain ⟨b, hb, rfl⟩ := Option.mem_map.1 hl
      exact h.entry b hb
    · obtain ⟨b, hb, hl' | hl'⟩ := mem_targets.1 hl'
      · exact h.successors l hl b hb l' hl'
      · exact h.handlers l hl b hb l' hl'
  · rintro ⟨hentry, htargets⟩
    refine ⟨fun b hb => ?_, fun l hl b hb l' hl' => ?_, fun l hl b hb l' hl' => ?_⟩
    · exact hentry b.label (Option.mem_map.2 ⟨b, hb, rfl⟩)
    · exact htargets l hl l' (mem_targets.2 ⟨b, hb, .inl hl'⟩)
    · exact htargets l hl l' (mem_targets.2 ⟨b, hb, .inr hl'⟩)

/-! ## Turns -/

/-- One turn of a visit, from the labels seen and the worklist: a label is taken off the worklist, whichever.
If it is new, the labels that control may go to from it are put on. -/
inductive Turn (f : Function) : Finset String × Multiset String → Finset String × Multiset String → Prop where
  | again {seen : Finset String} {work : Multiset String} {l : String} :
      l ∈ seen → f.Turn (seen, l ::ₘ work) (seen, work)
  | first {seen : Finset String} {work : Multiset String} {l : String} :
      l ∉ seen → f.Turn (seen, l ::ₘ work) (insert l seen, ↑(f.targets l) + work)

/-- Nothing is seen, and the label of the first block is to be visited. -/
def beginning (f : Function) : Finset String × Multiset String :=
  (∅, ↑(f.entry?.map Block.label).toList)

/-- The number of labels that may still be put on the worklist from these blocks. -/
def ahead (seen : Finset String) (blocks : List Block) : Nat :=
  total (blocks.map fun b => if b.label ∈ seen then 0 else b.targets.length)

/-- The number of labels that may still be taken off the worklist. -/
def left (f : Function) (s : Finset String × Multiset String) : Nat := s.2.card + ahead s.1 f.blocks

theorem ahead_cons (seen : Finset String) (b : Block) (blocks : List Block) : ahead seen (b :: blocks) =
    (if b.label ∈ seen then 0 else b.targets.length) + ahead seen blocks := rfl

theorem ahead_insert_le (seen : Finset String) (l : String) (blocks : List Block) :
    ahead (insert l seen) blocks ≤ ahead seen blocks := by
  induction blocks with
  | nil => exact Nat.le_refl 0
  | cons b blocks ih =>
      have hhead : (if b.label ∈ insert l seen then 0 else b.targets.length) ≤
          if b.label ∈ seen then 0 else b.targets.length := by
        by_cases hseen : b.label ∈ seen
        · rw [if_pos (Finset.mem_insert_of_mem hseen)]
          exact Nat.zero_le _
        · rw [if_neg hseen]
          split
          · exact Nat.zero_le _
          · exact Nat.le_refl _
      rw [ahead_cons, ahead_cons]
      omega

/-- What a new label puts on the worklist is no longer ahead: its block was not expanded before. -/
theorem ahead_insert {seen : Finset String} {l : String} (hnew : l ∉ seen) (f : Function) :
    ahead (insert l seen) f.blocks + (f.targets l).length ≤ ahead seen f.blocks := by
  unfold targets block?
  induction f.blocks with
  | nil => exact Nat.le_refl 0
  | cons b blocks ih =>
      rw [ahead_cons, ahead_cons, List.find?_cons]
      by_cases hl : b.label = l
      · -- the first block with the label: what it leads to moves from what is ahead to the worklist
        have hrest := ahead_insert_le seen l blocks
        rw [if_pos (by simp [hl]), if_neg (by rwa [hl])]
        simp only [hl, beq_self_eq_true, Option.map_some, Option.getD_some]
        omega
      · have hhead : (if b.label ∈ insert l seen then 0 else b.targets.length) =
            if b.label ∈ seen then 0 else b.targets.length := by simp [hl]
        rw [hhead]
        simp only [beq_eq_false_iff_ne.2 hl]
        omega

/-- With every turn less is left. -/
theorem Turn.left_lt {s t : Finset String × Multiset String} (h : f.Turn s t) : f.left t < f.left s := by
  cases h with
  | @again seen work l hl =>
      simp only [left, Multiset.card_cons]
      omega
  | @first seen work l hl =>
      have hahead := ahead_insert hl f
      simp only [left, Multiset.card_cons, Multiset.card_add, Multiset.coe_card]
      omega

theorem wellFounded_turn (f : Function) : WellFounded fun t s => f.Turn s t :=
  Subrelation.wf Turn.left_lt (measure f.left).wf

/-! ## What a visit finds -/

/-- A visit is under way: what it has seen or is going to see is the start, what labels seen lead to, and
nothing that some closed set does without. -/
structure UnderWay (f : Function) (s : Finset String × Multiset String) : Prop where
  entry : ∀ l ∈ f.entry?.map Block.label, l ∈ s.1 ∨ l ∈ s.2
  targets : ∀ l ∈ s.1, ∀ l' ∈ f.targets l, l' ∈ s.1 ∨ l' ∈ s.2
  least : ∀ S, f.Closed S → ∀ l, l ∈ s.1 ∨ l ∈ s.2 → l ∈ S

theorem underWay_beginning (f : Function) : f.UnderWay f.beginning where
  entry l hl := .inr (by simpa [beginning] using hl)
  targets l hl := by simp [beginning] at hl
  least S hS l hl := by
    refine (closed_iff.1 hS).1 l ?_
    simpa [beginning] using hl

theorem UnderWay.turn {s t : Finset String × Multiset String} (h : f.UnderWay s) (hturn : f.Turn s t) :
    f.UnderWay t := by
  cases hturn with
  | @again seen work l hl =>
      -- nothing is lost with a label that was seen before
      have hsame : ∀ {l'}, l' ∈ seen ∨ l' ∈ l ::ₘ work → l' ∈ seen ∨ l' ∈ work := by
        rintro l' (hl' | hl')
        · exact .inl hl'
        · rcases Multiset.mem_cons.1 hl' with rfl | hl'
          · exact .inl hl
          · exact .inr hl'
      refine ⟨fun l' hl' => hsame (h.entry l' hl'), fun k hk l' hl' => hsame (h.targets k hk l' hl'),
        fun S hS l' hl' => h.least S hS l' (hl'.imp_right Multiset.mem_cons_of_mem)⟩
  | @first seen work l hl =>
      have hkept : ∀ {l'}, l' ∈ seen ∨ l' ∈ l ::ₘ work →
          l' ∈ insert l seen ∨ l' ∈ (↑(f.targets l) + work : Multiset String) := by
        rintro l' (hl' | hl')
        · exact .inl (Finset.mem_insert_of_mem hl')
        · rcases Multiset.mem_cons.1 hl' with rfl | hl'
          · exact .inl (Finset.mem_insert_self _ _)
          · exact .inr (Multiset.mem_add.2 (.inr hl'))
      refine ⟨fun l' hl' => hkept (h.entry l' hl'), fun k hk l' hl' => ?_, fun S hS l' hl' => ?_⟩
      · rcases Finset.mem_insert.1 hk with rfl | hk
        · exact .inr (Multiset.mem_add.2 (.inl hl'))
        · exact hkept (h.targets k hk l' hl')
      · have hlS : l ∈ S := h.least S hS l (.inr (Multiset.mem_cons_self l work))
        rcases hl' with hl' | hl'
        · rcases Finset.mem_insert.1 hl' with rfl | hl'
          · exact hlS
          · exact h.least S hS l' (.inl hl')
        · rcases Multiset.mem_add.1 hl' with hl' | hl'
          · exact (closed_iff.1 hS).2 l hlS l' hl'
          · exact h.least S hS l' (.inr (Multiset.mem_cons_of_mem hl'))

theorem UnderWay.turns {s t : Finset String × Multiset String} (h : f.UnderWay s)
    (hturns : Relation.ReflTransGen f.Turn s t) : f.UnderWay t := by
  induction hturns with
  | refl => exact h
  | tail _ hturn ih => exact ih.turn hturn

/-- When the worklist is empty, exactly the least closed set has been seen. -/
theorem UnderWay.isLeast {seen : Finset String} (h : f.UnderWay (seen, 0)) :
    IsLeast {S : Set String | f.Closed S} {l | l ∈ seen} := by
  have hseen : ∀ {l}, l ∈ seen ∨ l ∈ (0 : Multiset String) → l ∈ seen := by simp
  constructor
  · exact closed_iff.2 ⟨fun l hl => hseen (h.entry l hl), fun l hl l' hl' => hseen (h.targets l hl l' hl')⟩
  · intro S hS l hl
    exact h.least S hS l (.inl hl)

/-! ## The visit of the program -/

/-- The visit takes the label in front each time, and as many turns as are left are enough. -/
theorem turns_visit (f : Function) (fuel : Nat) (seen work : List String)
    (hfuel : f.left (seen.toFinset, ↑work) ≤ fuel) : Relation.ReflTransGen f.Turn (seen.toFinset, ↑work)
      ((f.visit fuel seen work).toFinset, 0) := by
  induction fuel generalizing seen work with
  | zero =>
      -- nothing is left, so the worklist is empty
      have hwork : work = [] := by
        rw [left, Multiset.coe_card] at hfuel
        exact List.length_eq_zero_iff.1 (by omega)
      rw [hwork, visit]
      exact .refl
  | succ fuel ih =>
      cases work with
      | nil =>
          rw [visit]
          exact .refl
      | cons l work =>
          rw [visit]
          by_cases hl : l ∈ seen
          · have hturn : f.Turn (seen.toFinset, ↑(l :: work)) (seen.toFinset, ↑work) := by
              rw [← Multiset.cons_coe]
              exact .again (List.mem_toFinset.2 hl)
            have hless := hturn.left_lt
            rw [if_pos (by simpa using hl)]
            exact .head hturn (ih seen work (by omega))
          · have hturn : f.Turn (seen.toFinset, ↑(l :: work))
                ((l :: seen).toFinset, ↑(f.targets l ++ work)) := by
              rw [List.toFinset_cons, ← Multiset.cons_coe, ← Multiset.coe_add]
              exact .first fun h => hl (List.mem_toFinset.1 h)
            have hless := hturn.left_lt
            rw [if_neg (by simpa using hl)]
            exact .head hturn (ih (l :: seen) (f.targets l ++ work) (by omega))

theorem nodup_visit (f : Function) (fuel : Nat) {seen work : List String} (hseen : seen.Nodup) :
    (f.visit fuel seen work).Nodup := by
  induction fuel generalizing seen work with
  | zero => exact hseen
  | succ fuel ih =>
      cases work with
      | nil => exact hseen
      | cons l work =>
          rw [visit]
          by_cases hl : l ∈ seen
          · rw [if_pos (by simpa using hl)]
            exact ih hseen
          · rw [if_neg (by simpa using hl)]
            exact ih (hseen.cons hl)

theorem left_beginning_le (f : Function) : f.left f.beginning ≤ f.workBound := by
  have hentry : (f.entry?.map Block.label).toList.length ≤ 1 := Option.length_toList_le
  have hahead : ahead ∅ f.blocks = total (f.blocks.map fun b => b.targets.length) := by simp [ahead]
  rw [left, beginning, Multiset.coe_card, hahead, workBound]
  omega

/-- The visit of the program comes to its end. -/
theorem turns_reachable (f : Function) :
    Relation.ReflTransGen f.Turn f.beginning (f.reachable.toFinset, 0) := by
  have hleft := f.left_beginning_le
  exact turns_visit f (f.workBound + 1) [] _ (by rw [beginning] at hleft; exact Nat.le_succ_of_le hleft)

/-- The reachable labels, each given once, are the least closed set of labels. Visits end, in whatever order
labels are taken off the worklist, and what they have seen in the end are the reachable labels. -/
theorem reachable_isLeast (f : Function) :
    IsLeast {S : Set String | f.Closed S} {l | l ∈ f.reachable} ∧ f.reachable.Nodup ∧
      WellFounded (fun t s => f.Turn s t) ∧
      ∀ seen, Relation.ReflTransGen f.Turn f.beginning (seen, 0) ↔ seen = f.reachable.toFinset := by
  have hleast : IsLeast {S : Set String | f.Closed S} {l | l ∈ f.reachable.toFinset} :=
    ((underWay_beginning f).turns f.turns_reachable).isLeast
  refine ⟨by simpa using hleast, nodup_visit f _ .nil, wellFounded_turn f, fun seen => ?_⟩
  constructor
  · intro hturns
    have hsame := ((underWay_beginning f).turns hturns).isLeast.unique hleast
    exact Finset.ext fun l => Set.ext_iff.1 hsame l
  · rintro rfl
    exact f.turns_reachable

end ProtoScript.Ir.Function
