import Mathlib.Data.List.Nodup
import ProtoScript.Library.Imports
import ProtoScript.Proofs.Constant.Environment
import ProtoScript.Proofs.Lookup

set_option autoImplicit false

/-!
# What imports make visible

Every visible name is taken once, by a module or by a member, and it is one that an import asks for
(`resolveImports_sound`). So the constants of the imports have different names if no visible name has a dot in it,
and an environment of these constants gives for each name what the imports say (`get?_constants_member`,
`get?_constants_namespace`).
-/

namespace ProtoScript

namespace Library

variable {l : Library} {module name : String}

/-- The member of the module is a constant that has the value. -/
def IsConstant (l : Library) (module name : String) (v : Constant) : Prop :=
  ∃ k, l.constant? module name = some k ∧ k.toConstant? = some v

theorem isConstant_iff {v : Constant} :
    l.IsConstant module name v ↔ (l.constant? module name).bind (·.toConstant?) = some v :=
  Option.bind_eq_some_iff.symm

theorem IsConstant.unique {v w : Constant} (hv : l.IsConstant module name v) (hw : l.IsConstant module name w) :
    w = v :=
  Option.some.inj ((isConstant_iff.1 hw).symm.trans (isConstant_iff.1 hv))

theorem IsConstant.mem_memberNames {v : Constant} (h : l.IsConstant module name v) :
    name ∈ l.memberNames module := by
  obtain ⟨k, hk, _⟩ := h
  obtain ⟨m, hm, hk⟩ := Option.bind_eq_some_iff.1 hk
  have hname := List.find?_some hk
  rw [memberNames, hm]
  exact List.mem_append_right _ (List.mem_map.2 ⟨k, List.mem_of_find?_eq_some hk, beq_iff_eq.1 hname⟩)

end Library

/-- The names that an import makes visible if they are not taken. -/
def Import.visible (i : Import) : List String :=
  match i.form with
  | .whole | .members [] => [i.module]
  | .renamed name => [name]
  | .members names => names

namespace ImportScope

/-! ## Names -/

/-- The visible names, of modules and of members. -/
def names (s : ImportScope) : List String := s.namespaces.map Prod.fst ++ s.members.map Prod.fst

theorem contains_iff (s : ImportScope) (name : String) : s.contains name ↔ name ∈ s.names := by
  rw [contains, Bool.or_eq_true, names, List.mem_append]
  exact or_congr isSome_lookup_iff isSome_lookup_iff

/-- Every name is taken once, and it is one of those that are asked for. -/
structure Sound (asked : List String) (s : ImportScope) : Prop where
  nodup : s.names.Nodup
  asked : ∀ x ∈ s.names, x ∈ asked

variable {asked : List String} {s : ImportScope} {file : String} {library : Library} {i : Import}

/-- One more name that is not taken yet. -/
theorem Sound.of_perm {t : ImportScope} {name : String} (h : s.Sound asked) (hname : name ∈ asked)
    (hfree : ¬ s.contains name) (hperm : t.names.Perm (name :: s.names)) : t.Sound asked := by
  rw [contains_iff] at hfree
  refine ⟨hperm.nodup_iff.2 (List.nodup_cons.2 ⟨hfree, h.nodup⟩), fun x hx => ?_⟩
  rcases List.mem_cons.1 (hperm.mem_iff.1 hx) with rfl | hx
  · exact hname
  · exact h.asked x hx

theorem Sound.addNamespace (h : s.Sound asked) {name : String} (hname : name ∈ asked) :
    (s.addNamespace file i name).1.Sound asked := by
  unfold ImportScope.addNamespace
  by_cases htaken : s.contains name
  · rw [if_pos htaken]
    exact h
  · rw [if_neg htaken]
    refine h.of_perm hname htaken ?_
    simp only [names, List.map_append, List.map_cons, List.map_nil, List.append_assoc]
    exact List.perm_middle

theorem Sound.addMembers (h : s.Sound asked) {names : List String} (hnames : ∀ x ∈ names, x ∈ asked) :
    (s.addMembers file library i names).1.Sound asked := by
  induction names generalizing s with
  | nil => exact h
  | cons name rest ih =>
      obtain ⟨hname, hrest⟩ := List.forall_mem_cons.1 hnames
      rw [ImportScope.addMembers]
      dsimp only
      split
      · exact ih h hrest
      · by_cases htaken : s.contains name
        · rw [if_pos htaken]
          exact ih h hrest
        · rw [if_neg htaken]
          refine ih (h.of_perm hname htaken ?_) hrest
          simp only [ImportScope.names, List.map_append, List.map_cons, List.map_nil, ← List.append_assoc]
          exact List.perm_append_singleton _ _

theorem Sound.add (h : s.Sound asked) (hi : ∀ x ∈ i.visible, x ∈ asked) : (s.add file library i).1.Sound asked := by
  unfold ImportScope.add
  split
  · exact h
  · unfold Import.visible at hi
    split
    · rename_i hform
      rw [hform] at hi
      exact h.addNamespace (hi _ List.mem_cons_self)
    · rename_i hform
      rw [hform] at hi
      exact h.addNamespace (hi _ List.mem_cons_self)
    · rename_i hform
      rw [hform] at hi
      exact h.addNamespace (hi _ List.mem_cons_self)
    · rename_i names hne hform
      rw [hform] at hi
      cases names with
      | nil => exact absurd rfl hne
      | cons => exact h.addMembers hi

theorem Sound.addAll (h : s.Sound asked) {imports : List Import} (hi : ∀ i ∈ imports, ∀ x ∈ i.visible, x ∈ asked) :
    (s.addAll file library imports).1.Sound asked := by
  induction imports generalizing s with
  | nil => exact h
  | cons i rest ih =>
      obtain ⟨hhere, hrest⟩ := List.forall_mem_cons.1 hi
      exact ih (h.add hhere) hrest

/-! ## Constants -/

/-- The constants of modules and the single constants that are visible, under the names by which expressions know
them. -/
def entries (s : ImportScope) (library : Library) : List (String × Constant) :=
  (s.namespaces.flatMap fun (visible, module) => (library.memberNames module).filterMap fun name =>
    ((library.constant? module name).bind (·.toConstant?)).map fun v => (qualified visible name, v)) ++
  s.members.filterMap fun (visible, module, name) =>
    ((library.constant? module name).bind (·.toConstant?)).map fun v => (visible, v)

theorem constants_eq (s : ImportScope) (library : Library) :
    s.constants library = ConstEnv.insertAll [] (s.entries library) := rfl

/-- Under a name stands the constant of a member that is visible under it, or one of a module that is visible under
the first part of it. -/
theorem mem_entries_iff {key : String} {v : Constant} :
    (key, v) ∈ s.entries library ↔
      (∃ visible module name, (visible, module) ∈ s.namespaces ∧ library.IsConstant module name v ∧
        key = qualified visible name) ∨
      ∃ module name, (key, module, name) ∈ s.members ∧ library.IsConstant module name v := by
  rw [entries, List.mem_append, List.mem_flatMap, List.mem_filterMap]
  refine or_congr ⟨?_, ?_⟩ ⟨?_, ?_⟩
  · rintro ⟨⟨visible, module⟩, hmem, hv⟩
    obtain ⟨name, _, hv⟩ := List.mem_filterMap.1 hv
    obtain ⟨w, hw, heq⟩ := Option.map_eq_some_iff.1 hv
    cases heq
    exact ⟨visible, module, name, hmem, Library.isConstant_iff.2 hw, rfl⟩
  · rintro ⟨visible, module, name, hmem, hv, rfl⟩
    refine ⟨(visible, module), hmem, List.mem_filterMap.2 ⟨name, hv.mem_memberNames, ?_⟩⟩
    exact Option.map_eq_some_iff.2 ⟨v, Library.isConstant_iff.1 hv, rfl⟩
  · rintro ⟨⟨visible, module, name⟩, hmem, hv⟩
    obtain ⟨w, hw, heq⟩ := Option.map_eq_some_iff.1 hv
    cases heq
    exact ⟨module, name, hmem, Library.isConstant_iff.2 hw⟩
  · rintro ⟨module, name, hmem, hv⟩
    exact ⟨(key, module, name), hmem, Option.map_eq_some_iff.2 ⟨v, Library.isConstant_iff.1 hv, rfl⟩⟩

variable {v : Constant}

theorem Sound.nodup_namespaces (h : s.Sound asked) : (s.namespaces.map Prod.fst).Nodup :=
  (List.nodup_append.1 h.nodup).1

theorem Sound.nodup_members (h : s.Sound asked) : (s.members.map Prod.fst).Nodup :=
  (List.nodup_append.1 h.nodup).2.1

theorem Sound.dotless_namespace (h : s.Sound asked) (hasked : ∀ x ∈ asked, Dotless x) {x module : String}
    (hx : (x, module) ∈ s.namespaces) : Dotless x :=
  hasked x (h.asked x (List.mem_append_left _ (List.mem_map_of_mem hx)))

theorem Sound.dotless_member (h : s.Sound asked) (hasked : ∀ x ∈ asked, Dotless x) {x : String} {m : String × String}
    (hx : (x, m) ∈ s.members) : Dotless x :=
  hasked x (h.asked x (List.mem_append_right _ (List.mem_map_of_mem hx)))

/-- A constant that is visible under its own name has its value in the environment. -/
theorem Sound.get?_constants_member (h : s.Sound asked) (hasked : ∀ x ∈ asked, Dotless x) {x module name : String}
    (hx : s.member? x = some (module, name)) (hv : library.IsConstant module name v) :
    (s.constants library).get? x = some v := by
  have hmem := mem_of_lookup hx
  rw [constants_eq]
  refine ConstEnv.get?_insertAll_of_mem (mem_entries_iff.2 (.inr ⟨module, name, hmem, hv⟩)) fun w hw => ?_
  rcases mem_entries_iff.1 hw with ⟨visible, _, name', _, _, hkey⟩ | ⟨module', name', hmem', hw⟩
  · -- A member of a module has a dot in its name.
    exact absurd hkey ((h.dotless_member hasked hmem).ne_qualified visible name')
  · cases List.inj_on_of_nodup_map h.nodup_members hmem' hmem rfl
    exact hv.unique hw

/-- A constant of a visible module has its value in the environment, under its qualified name. -/
theorem Sound.get?_constants_namespace (h : s.Sound asked) (hasked : ∀ x ∈ asked, Dotless x)
    {x module name : String} (hx : s.namespace? x = some module) (hv : library.IsConstant module name v) :
    (s.constants library).get? (qualified x name) = some v := by
  have hmem := mem_of_lookup hx
  have hplain := h.dotless_namespace hasked hmem
  rw [constants_eq]
  refine ConstEnv.get?_insertAll_of_mem (mem_entries_iff.2 (.inl ⟨x, module, name, hmem, hv, rfl⟩)) fun w hw => ?_
  rcases mem_entries_iff.1 hw with ⟨x', module', name', hmem', hw, hkey⟩ | ⟨module', name', hmem', _⟩
  · obtain ⟨rfl, rfl⟩ := qualified_inj hplain (h.dotless_namespace hasked hmem') hkey
    cases List.inj_on_of_nodup_map h.nodup_namespaces hmem' hmem rfl
    exact hv.unique hw
  · exact absurd rfl ((h.dotless_member hasked hmem').ne_qualified x name)

end ImportScope

theorem resolveImports_sound (file : String) (imports : List Import) (library : Library) :
    (resolveImports file imports library).1.Sound (imports.flatMap Import.visible) := by
  have hstart : ImportScope.Sound (imports.flatMap Import.visible) {} := ⟨List.nodup_nil, nofun⟩
  exact hstart.addAll fun i hi x hx => List.mem_flatMap.2 ⟨i, hi, hx⟩

end ProtoScript
