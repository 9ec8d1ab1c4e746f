import ProtoScript.Optimize.Basic
import ProtoScript.Proofs.Optimize.Fold
import ProtoScript.Proofs.Optimize.Inline

set_option autoImplicit false

/-!
# Passes that rewrite instructions

Constant propagation and the removal of checks look at one block at a time and put other instructions
in the place of its instructions (`mapInstrs`). All that they touch are instructions that only compute.
So the calls of a block, what it defines, what handlers it installs and whether a leaf may hold it
are the same before and after (`Tidied`): the induction is on the instructions, and what one step does
is said once for each pass.
-/

namespace ProtoScript.Ir

/-! ## Rewriting the instructions of every block -/

/-- The block with other instructions. -/
def Block.mapInstrs (pass : List Instr → List Instr) (b : Block) : Block :=
  { b with instrs := pass b.instrs }

/-- The function with other instructions in every block. -/
def Function.mapInstrs (pass : List Instr → List Instr) (f : Function) : Function :=
  { f with blocks := f.blocks.map (Block.mapInstrs pass) }

namespace Module

/-- The module with other instructions in every block. -/
def mapInstrs (pass : List Instr → List Instr) (m : Module) : Module :=
  { m with functions := m.functions.map (Function.mapInstrs pass) }

/-- All of a module but its instructions. -/
def outline (m : Module) : Module := m.mapInstrs fun _ => []

theorem outline_mapInstrs (pass : List Instr → List Instr) (m : Module) :
    (m.mapInstrs pass).outline = m.outline := by
  simp [outline, mapInstrs, Function.mapInstrs, Block.mapInstrs, Function.comp_def]

theorem fold_fst (m : Module) : m.fold.1 = m.mapInstrs fun is => (foldInstrs [] is).1 := by
  simp [fold, mapInstrs, Function.fold, Function.mapInstrs, Block.fold, Block.mapInstrs,
    Function.comp_def]

theorem dropChecks_fst (m : Module) :
    m.dropChecks.1 = m.mapInstrs fun is => (dropRepeatedChecks [] is).1 := by
  simp [dropChecks, mapInstrs, Function.dropChecks, Function.mapInstrs, Block.dropChecks,
    Block.mapInstrs, Function.comp_def]

/-- What optimizing does to a module, if the numbers do not run out. -/
theorem of_optimize? {level : OptLevel} {m m' : Module} {stats : OptStats}
    (h : m.optimize? level = some (m', stats)) :
    (level = .none ∧ m' = m) ∨ (level = .basic ∧ m' = m.fold.1.dropChecks.1) ∨
      ∃ inlined n, level = .full ∧ m.inline? = some (inlined, n) ∧ m' = inlined.fold.1.dropChecks.1 := by
  cases level with
  | none =>
      cases h
      exact .inl ⟨rfl, rfl⟩
  | basic =>
      cases h
      exact .inr (.inl ⟨rfl, rfl⟩)
  | full =>
      obtain ⟨r, hr, h⟩ := Option.map_eq_some_iff.1 h
      cases h
      exact .inr (.inr ⟨r.1, r.2, rfl, hr, rfl⟩)

/-- Optimizing has no result exactly if it inlines and the numbers run out. -/
theorem optimize?_eq_none_iff {level : OptLevel} {m : Module} :
    m.optimize? level = none ↔ level = .full ∧ m.RunsOut := by
  cases level with
  | none => exact ⟨nofun, fun h => nomatch h.1⟩
  | basic => exact ⟨nofun, fun h => nomatch h.1⟩
  | full => rw [optimize?, Option.map_eq_none_iff, inline?_eq_none_iff, and_iff_right rfl]

theorem exists_optimize? {level : OptLevel} {m : Module} (h : level = .full → ¬ m.RunsOut) :
    ∃ m' stats, m.optimize? level = some (m', stats) := by
  obtain ⟨r, hr⟩ := Option.ne_none_iff_exists'.1 fun hnone =>
    h (optimize?_eq_none_iff.1 hnone).1 (optimize?_eq_none_iff.1 hnone).2
  exact ⟨r.1, r.2, hr⟩

end Module

/-! ## What stays -/

/-- The second list of instructions makes the same calls, defines the same temporaries and installs the
same handlers as the first, it reads no other temporaries, and it may stand in the same leaves. -/
structure Tidied (is js : List Instr) : Prop where
  calls : js.filter Instr.isStaticCall = is.filter Instr.isStaticCall
  leaf : ∀ params, js.all (Instr.isLeafInstr params) = is.all (Instr.isLeafInstr params)
  dests : js.filterMap Instr.dest? = is.filterMap Instr.dest?
  handlers : js.filterMap Instr.handler? = is.filterMap Instr.handler?
  operands : js.flatMap Instr.operands ⊆ is.flatMap Instr.operands

namespace Tidied

variable {is is' js js' : List Instr} {i j : Instr}

theorem refl (is : List Instr) : Tidied is is := ⟨rfl, fun _ => rfl, rfl, rfl, List.Subset.refl _⟩

theorem append (h : Tidied is js) (h' : Tidied is' js') : Tidied (is ++ is') (js ++ js') where
  calls := by rw [List.filter_append, List.filter_append, h.calls, h'.calls]
  leaf params := by rw [List.all_append, List.all_append, h.leaf, h'.leaf]
  dests := by rw [List.filterMap_append, List.filterMap_append, h.dests, h'.dests]
  handlers := by rw [List.filterMap_append, List.filterMap_append, h.handlers, h'.handlers]
  operands := by
    rw [List.flatMap_append, List.flatMap_append]
    exact List.append_subset.2 ⟨List.subset_append_of_subset_left _ h.operands,
      List.subset_append_of_subset_right _ h'.operands⟩

/-- Behind an instruction that stays. -/
theorem cons (i : Instr) (h : Tidied is js) : Tidied (i :: is) (i :: js) := (refl [i]).append h

/-- An instruction that only computes makes no call and installs no handler. -/
theorem of_isBasic (hi : i.isBasic) :
    i.isStaticCall = false ∧ (∀ params, i.isLeafInstr params = true) ∧ i.handler? = none := by
  cases i with
  | _ => first | exact ⟨rfl, fun _ => rfl, rfl⟩ | cases hi

/-- An instruction that computes is replaced by another one for the same temporary that reads less. -/
theorem replace (hi : i.isBasic) (hj : j.isBasic) (hdest : j.dest? = i.dest?)
    (hreads : j.operands ⊆ i.operands) : Tidied [i] [j] := by
  obtain ⟨hcall, hleaf, hhandler⟩ := of_isBasic hi
  obtain ⟨hcall', hleaf', hhandler'⟩ := of_isBasic hj
  refine ⟨?_, fun params => ?_, ?_, ?_, ?_⟩
  · simp [hcall, hcall']
  · simp [hleaf, hleaf']
  · simp [List.filterMap_cons, hdest]
  · simp [hhandler, hhandler']
  · simpa using hreads

/-- A check is left out. -/
theorem drop (c : Check) : Tidied [.check c] [] := ⟨rfl, fun _ => rfl, rfl, rfl, List.nil_subset _⟩

end Tidied

/-! ## Constant propagation -/

/-- What has a known result only computes. -/
theorem Instr.isBasic_of_constantResult? {known : Known} {i : Instr} {r : Temp × Constant}
    (h : i.constantResult? known = some r) : i.isBasic := by
  cases i with
  | copy | binary | unary | cast => rfl
  | _ => cases h

/-- One step of propagation. -/
theorem tidied_fold (known : Known) (i : Instr) : Tidied [i] (i.fold known).2.1.toList := by
  unfold Instr.fold
  split
  case h_1 d v => exact Tidied.refl _
  case h_2 d c a b =>
    split
    case h_1 => exact Tidied.refl _
    case h_2 cond _ =>
      have hreads : (Instr.copy d (if cond then a else b)).operands ⊆ (Instr.select d c a b).operands := by
        cases cond <;> simp [Instr.operands]
      simp only
      split
      · exact Tidied.replace rfl rfl rfl (List.nil_subset _)
      · exact Tidied.replace rfl rfl rfl hreads
  case h_3 c =>
    split
    · exact Tidied.drop c
    · exact Tidied.refl _
  case h_4 =>
    split
    case h_1 d v hv =>
      exact Tidied.replace (Instr.isBasic_of_constantResult? hv) rfl (dest?_of_constantResult? hv).symm
        (List.nil_subset _)
    case h_2 => exact Tidied.refl _

theorem tidied_foldInstrs (known : Known) (is : List Instr) :
    Tidied is (foldInstrs known is).1 := by
  induction is generalizing known with
  | nil => exact Tidied.refl []
  | cons i rest ih => exact (tidied_fold known i).append (ih (i.fold known).1)

/-! ## Removal of checks -/

theorem tidied_dropRepeatedChecks (seen : List Check) (is : List Instr) :
    Tidied is (dropRepeatedChecks seen is).1 := by
  induction is generalizing seen with
  | nil => exact Tidied.refl []
  | cons i rest ih =>
      unfold dropRepeatedChecks
      split
      case h_1 c =>
        split
        · exact (Tidied.drop c).append (ih seen)
        · exact (ih _).cons _
      case h_2 => exact (ih _).cons i

end ProtoScript.Ir
