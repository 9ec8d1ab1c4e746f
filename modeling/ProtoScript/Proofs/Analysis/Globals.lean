import Mathlib.Data.List.Nodup
import ProtoScript.Proofs.Analysis.TypedProgram

set_option autoImplicit false

/-!
# What a program without problems declares

Where nothing was reported no function is declared twice (`functions_context`), and every constant that a name
or a member can stand for has the type that is noted for it: a member of a group has the base type of the
group, and a constant of a module that of its entry (`Context.Constant.ty_eq`).
-/

namespace ProtoScript

/-! ## Functions -/

namespace Analysis

/-- Where no function is reported all of them are known, and their names are different. -/
theorem collectFunctions_clean {file : String} {taken : String → Bool} {known fs : List FunctionDecl}
    (hknown : (known.map (·.name)).Nodup) (hclean : (collectFunctions file taken known fs).2 = []) :
    (collectFunctions file taken known fs).1 = known ++ fs ∧ ((known ++ fs).map (·.name)).Nodup := by
  induction fs generalizing known with
  | nil =>
      rw [collectFunctions, List.append_nil]
      exact ⟨rfl, hknown⟩
  | cons f rest ih =>
      rw [collectFunctions] at hclean ⊢
      split at hclean
      case isTrue => cases hclean
      case isFalse hnew =>
        have hnew' : f.name ∉ known.map (·.name) := by
          rintro hmem
          obtain ⟨g, hg, heq⟩ := List.mem_map.1 hmem
          exact hnew (List.any_eq_true.2 ⟨g, hg, beq_iff_eq.2 heq⟩)
        have hknown' : ((known ++ [f]).map (·.name)).Nodup := by
          rw [List.map_append]
          refine List.nodup_append.2 ⟨hknown, List.nodup_singleton _, ?_⟩
          rintro a ha b hb rfl
          cases List.mem_singleton.1 hb
          exact hnew' ha
        rw [if_neg hnew]
        have hrest : (collectFunctions file taken (known ++ [f]) rest).2 = [] := by
          dsimp only at hclean
          split at hclean
          · cases hclean
          · exact hclean
        obtain ⟨hall, hnodup⟩ := ih hknown' hrest
        rw [← List.append_cons] at hall hnodup
        refine ⟨?_, hnodup⟩
        dsimp only
        split <;> exact hall

end Analysis

/-- The functions of a program without problems are all known, and their names are different. -/
theorem Program.functions_context {p : Program} {library : Library}
    (hclean : (p.analyze library).isClean) :
    (p.context library).functions = p.functions ∧ (p.functions.map (·.name)).Nodup :=
  Analysis.collectFunctions_clean List.nodup_nil (Program.found_eq_nil hclean).2.2.1

/-! ## Groups -/

namespace Group

/-- All members have the base type. -/
def WellTyped (g : Group) : Prop := ∀ m ∈ g.members, m.2.ty = g.base

theorem ty_of_coerce? {base : Ty} {v w : Constant} (h : coerce? base v = some w) : w.ty = base := by
  unfold coerce? at h
  split at h
  · obtain ⟨k, _, rfl⟩ := Option.map_eq_some_iff.1 h
    rfl
  · split at h
    · rename_i hty
      cases h
      exact hty
    · cases h

/-- Members of a scalar type are kept only if they have it. -/
theorem Partial.add_wellTyped {file : String} {d : GroupDecl} (hbase : d.base.isScalar) {q : Partial}
    (hq : ∀ m ∈ q.members, m.2.ty = d.base) (m : GroupMemberDecl) :
    ∀ m' ∈ (q.add file d m).1.members, m'.2.ty = d.base := by
  unfold Partial.add
  split
  · exact hq
  · dsimp only
    split
    · split <;> exact hq
    · split
      · rename_i w hw
        intro m' hm'
        rcases List.mem_append.1 hm' with hm' | hm'
        · exact hq m' hm'
        · rw [List.mem_singleton.1 hm']
          exact ty_of_coerce? hw
      · exact hq

theorem Partial.addAll_wellTyped {file : String} {d : GroupDecl} (hbase : d.base.isScalar)
    (ms : List GroupMemberDecl) {q : Partial} (hq : ∀ m ∈ q.members, m.2.ty = d.base) :
    ∀ m ∈ (addAll file d q ms).1.members, m.2.ty = d.base := by
  induction ms generalizing q with
  | nil => exact hq
  | cons m rest ih => exact ih (Partial.add_wellTyped hbase hq m)

/-- A group in which no problem was found is well typed. -/
theorem wellTyped_ofDecl {file : String} {env : ConstEnv} {d : GroupDecl}
    (hclean : (ofDecl file env d).2 = []) : (ofDecl file env d).1.WellTyped := by
  have hbase : d.base.isScalar := by
    by_contra hbase
    unfold ofDecl at hclean
    rw [if_neg hbase] at hclean
    cases hclean
  exact Partial.addAll_wellTyped hbase d.members nofun

end Group

/-- Groups that are taken in without a report are well typed. -/
theorem GroupTable.addAll_wellTyped {file : String} {t : GroupTable} {env : ConstEnv} {ds : List GroupDecl}
    (ht : ∀ g ∈ t.groups, g.WellTyped) (hclean : (addAll file t env ds).2.2 = []) :
    ∀ g ∈ (addAll file t env ds).1.groups, g.WellTyped := by
  induction ds generalizing t env with
  | nil => exact ht
  | cons d rest ih =>
      rw [addAll] at hclean ⊢
      split at hclean
      case isTrue => cases hclean
      case isFalse hnew =>
        rw [if_neg hnew]
        obtain ⟨hhere, hrest⟩ := List.append_eq_nil_iff.1 hclean
        refine ih (fun g hg => ?_) hrest
        rcases List.mem_append.1 hg with hg | hg
        · exact ht g hg
        · rw [List.mem_singleton.1 hg]
          exact Group.wellTyped_ofDecl hhere

/-! ## Constants -/

/-- A constant of a module has the type of its entry. -/
theorem LibraryConstant.ty_of_toConstant? {k : LibraryConstant} {v : Constant} (h : k.toConstant? = some v) :
    v.ty = k.ty := by
  obtain ⟨name, ty, value⟩ := k
  unfold toConstant? at h
  dsimp only at h ⊢
  split at h
  case h_3 =>
    obtain ⟨b, _, rfl⟩ := Option.map_eq_some_iff.1 h
    rfl
  case h_7 =>
    split at h
    · cases h
      rfl
    · cases h
  all_goals
    cases h
    try rfl

/-- A constant of a program without problems is of the type that is noted for it. -/
theorem Analysis.Context.Constant.ty_eq {p : Program} {library : Library}
    (hclean : (p.analyze library).isClean) {v : ProtoScript.Constant} {τ : Ty}
    (h : (p.context library).Constant v τ) : v.ty = τ := by
  cases h with
  | @member g name _ hg hv =>
      have hnone : ∀ g ∈ ({} : GroupTable).groups, g.WellTyped := nofun
      have hgroups := GroupTable.addAll_wellTyped hnone (Program.found_eq_nil hclean).2.1
      exact hgroups g hg (name, v) (mem_of_lookup hv)
  | library _ hv => exact LibraryConstant.ty_of_toConstant? hv

end ProtoScript
