import ProtoScript.Proofs.Hierarchy.Clean

set_option autoImplicit false

/-!
# Hierarchies in another order

A hierarchy is asked by name, so the order in which its prototypes were registered makes no difference
(`Hierarchy.Alike`). What the checker has to report of declarations depends on their order; that it has nothing to
report does not. It can be said of the declarations as they stand (`Hierarchy.Consistent`), and then their
hierarchy is that of the declarations as they stand (`build_of_consistent`).
-/

namespace ProtoScript

namespace Hierarchy

/-- The same prototypes, each under a name of its own, in any order. -/
structure Alike (h h' : Hierarchy) : Prop where
  perm : h.prototypes.Perm h'.prototypes
  nodup : h.names.Nodup

namespace Alike

variable {h h' : Hierarchy} (halike : h.Alike h')

include halike

theorem names : h.names.Perm h'.names := halike.perm.map _

/-! ## Questions -/

theorem get? : h.get? = h'.get? := funext fun x => find?_of_perm halike.perm halike.nodup x

theorem contains : h.contains = h'.contains := by
  funext x
  rw [Hierarchy.contains, Hierarchy.contains, halike.get?]

theorem accepts : h.accepts = h'.accepts := by
  funext d
  rw [Hierarchy.accepts, Hierarchy.accepts, halike.get?]

theorem chain (steps : Nat) : h.chain steps = h'.chain steps := by
  induction steps with
  | zero => rfl
  | succ steps ih =>
      funext seen x
      rw [Hierarchy.chain, Hierarchy.chain, halike.get?, ih]

theorem ancestors : h.ancestors = h'.ancestors := by
  funext x
  rw [Hierarchy.ancestors, Hierarchy.ancestors, halike.chain, halike.perm.length_eq]

theorem field? : h.field? = h'.field? := by
  funext proto x
  rw [Hierarchy.field?, Hierarchy.field?, halike.ancestors]

theorem method? : h.method? = h'.method? := by
  funext proto x
  rw [Hierarchy.method?, Hierarchy.method?, halike.ancestors]

theorem memberNames : h.memberNames = h'.memberNames := by
  funext proto
  rw [Hierarchy.memberNames, Hierarchy.memberNames, halike.ancestors]

theorem layout : h.layout = h'.layout := by
  funext proto
  rw [Hierarchy.layout, Hierarchy.layout, halike.ancestors]

theorem isSubtype : h.isSubtype = h'.isSubtype := by
  funext child ancestor
  rw [Hierarchy.isSubtype, Hierarchy.isSubtype, halike.ancestors]

theorem isAssignable : h.isAssignable = h'.isAssignable := by
  funext source target
  simp only [Hierarchy.isAssignable, halike.isSubtype]

theorem isException : h.isException = h'.isException := by
  funext x
  rw [Hierarchy.isException, Hierarchy.isException, halike.isSubtype]

theorem canAccess : h.canAccess = h'.canAccess := by
  funext visibility owner accessor
  simp only [Hierarchy.canAccess, halike.isSubtype]

theorem isOverriddenBelow : h.isOverriddenBelow = h'.isOverriddenBelow := by
  funext proto method
  have hsubtypes : (h.subtypes proto).Perm (h'.subtypes proto) := by
    rw [subtypes, subtypes, halike.isSubtype]
    exact halike.perm.filter _
  exact hsubtypes.any_eq

theorem parentProblem? : h.parentProblem? = h'.parentProblem? := by
  funext p
  simp only [Hierarchy.parentProblem?, halike.get?]

theorem isCyclic : h.isCyclic = h'.isCyclic := by
  funext p
  simp only [Hierarchy.isCyclic, halike.isSubtype]

theorem overrides : h.overrides = h'.overrides := by
  funext m base
  rw [Hierarchy.overrides, Hierarchy.overrides, halike.isAssignable]

theorem inheritanceProblems : h.inheritanceProblems = h'.inheritanceProblems := by
  funext p
  have hoverride : h.overrideProblems = h'.overrideProblems := by
    funext proto m base
    rw [overrideProblems, overrideProblems, halike.overrides]
  simp only [Hierarchy.inheritanceProblems, halike.field?, halike.method?, hoverride]

end Alike

/-! ## Declarations as they stand -/

variable {file : String} {decls decls' : List PrototypeDecl}

/-- The hierarchy of declarations that all count, with the parents that they name. -/
def ofDecls (decls : List PrototypeDecl) : Hierarchy :=
  ⟨builtins.prototypes ++ decls.map (·.toPrototype)⟩

theorem declared_ofDecls : (ofDecls decls).declared = decls.map (·.toPrototype) := by
  have hbuiltins : builtins.declared = [] := rfl
  have huser : ∀ p ∈ decls.map (·.toPrototype), !p.isBuiltin := by
    intro p hp
    obtain ⟨d, _, rfl⟩ := List.mem_map.1 hp
    rfl
  rw [declared, ofDecls, List.filter_append]
  show builtins.declared ++ _ = _
  rw [hbuiltins, List.filter_eq_self.2 huser, List.nil_append]

theorem names_ofDecls : (ofDecls decls).names = builtins.names ++ decls.map (·.name) := by
  rw [ofDecls, names_append]
  simp [names, Function.comp_def, PrototypeDecl.toPrototype]

/-- Nothing is wrong with the declarations. -/
structure Consistent (file : String) (decls : List PrototypeDecl) : Prop where
  fresh : ∀ d ∈ decls, Builtin.prototype? d.name = none
  nodup : (decls.map (·.name)).Nodup
  members : ∀ d ∈ decls, d.repeatedMembers file = []
  parents : ∀ d ∈ decls, (ofDecls decls).parentProblem? d.toPrototype = none
  acyclic : ∀ d ∈ decls, (ofDecls decls).isCyclic d.toPrototype = false
  inherited : ∀ d ∈ decls, (ofDecls decls).inheritanceProblems d.toPrototype = []

theorem nodup_names_ofDecls (hfresh : ∀ d ∈ decls, Builtin.prototype? d.name = none)
    (hnodup : (decls.map (·.name)).Nodup) : (ofDecls decls).names.Nodup := by
  rw [names_ofDecls, List.nodup_append']
  refine ⟨by decide +kernel, hnodup, fun x hbuiltin hdeclared => ?_⟩
  obtain ⟨d, hd, rfl⟩ := List.mem_map.1 hdeclared
  exact Builtin.prototype?_eq_none_iff.1 (hfresh d hd) (names_builtins ▸ hbuiltin)

theorem Consistent.alike (h : Consistent file decls) (hperm : decls.Perm decls') :
    (ofDecls decls).Alike (ofDecls decls') where
  perm := (hperm.map _).append_left _
  nodup := nodup_names_ofDecls h.fresh h.nodup

/-- Whether something is wrong does not depend on the order. -/
theorem Consistent.perm (h : Consistent file decls) (hperm : decls.Perm decls') :
    Consistent file decls' := by
  have halike := h.alike hperm
  have hmem : ∀ d ∈ decls', d ∈ decls := fun d hd => hperm.mem_iff.2 hd
  exact {
    fresh := fun d hd => h.fresh d (hmem d hd)
    nodup := (hperm.map _).nodup_iff.1 h.nodup
    members := fun d hd => h.members d (hmem d hd)
    parents := fun d hd => halike.parentProblem? ▸ h.parents d (hmem d hd)
    acyclic := fun d hd => halike.isCyclic ▸ h.acyclic d (hmem d hd)
    inherited := fun d hd => halike.inheritanceProblems ▸ h.inherited d (hmem d hd) }

/-! ## The rounds where nothing is wrong -/

/-- Declarations of new names are all registered. -/
theorem registerAll_of_fresh {h : Hierarchy} (hfresh : ∀ d ∈ decls, Builtin.prototype? d.name = none)
    (hnodup : (h.names ++ decls.map (·.name)).Nodup) (hmembers : ∀ d ∈ decls, d.repeatedMembers file = []) :
    registerAll file h decls = (⟨h.prototypes ++ decls.map (·.toPrototype)⟩, []) := by
  induction decls generalizing h with
  | nil => simp [registerAll]
  | cons d rest ih =>
      have hbuiltin : ¬ (Builtin.prototype? d.name).isSome := by simp [hfresh d]
      have hnew : ¬ h.contains d.name := by
        rw [contains_iff]
        intro hd
        exact (List.nodup_append'.1 hnodup).2.2 hd (by simp)
      have hregister : h.register file d = (⟨h.prototypes ++ [d.toPrototype]⟩, []) := by
        rw [register, if_neg hbuiltin, if_neg hnew, hmembers d List.mem_cons_self]
      have hnames : (⟨h.prototypes ++ [d.toPrototype]⟩ : Hierarchy).names = h.names ++ [d.name] :=
        List.map_append
      have hrest := ih (h := ⟨h.prototypes ++ [d.toPrototype]⟩)
        (fun e he => hfresh e (List.mem_cons_of_mem _ he)) (by simpa [hnames] using hnodup)
        (fun e he => hmembers e (List.mem_cons_of_mem _ he))
      simp [registerAll, hregister, hrest]

/-- The parent of a prototype without a problem is known. -/
theorem contains_of_parentProblem? {h : Hierarchy} {p : Prototype} {parent : String}
    (hparent : p.parent = some parent) (hnone : h.parentProblem? p = none) : h.contains parent := by
  simp only [parentProblem?, hparent] at hnone
  cases hget : h.get? parent with
  | none =>
      rw [hget] at hnone
      cases hnone
  | some q => rw [contains, hget, Option.isSome_some]

theorem parentProblem?_of_resolveParents {h : Hierarchy} (hclean : (h.resolveParents file).2 = []) :
    ∀ p ∈ h.declared, h.parentProblem? p = none := by
  intro p hp
  simpa using List.filterMap_eq_nil_iff.1 hclean p hp

/-- Parents without a problem stay. -/
theorem resolveParents_of_known {h : Hierarchy} (hknown : ∀ p ∈ h.declared, h.parentProblem? p = none) :
    h.resolveParents file = (h, []) := by
  have hfound : (h.declared.filterMap fun p =>
      (h.parentProblem? p).map fun problem => problem.diagnose file p.span) = [] := by
    refine List.filterMap_eq_nil_iff.2 fun p hp => ?_
    rw [hknown p hp, Option.map_none]
  have hstays : ∀ p ∈ h.prototypes, ¬ (!p.isBuiltin && p.parent.any fun q => !h.contains q) = true := by
    intro p hp hmoved
    obtain ⟨huser, hmissing⟩ := Bool.and_eq_true_iff.1 hmoved
    cases hparent : p.parent with
    | none => simp [hparent] at hmissing
    | some parent =>
        have hcontains := contains_of_parentProblem? hparent (hknown p (List.mem_filter.2 ⟨hp, huser⟩))
        simp [hparent, hcontains] at hmissing
  rw [resolveParents, hfound]
  refine congrArg (·, []) (congrArg Hierarchy.mk ?_)
  refine (List.map_congr_left fun p hp => ?_).trans (List.map_id _)
  rw [if_neg (hstays p hp), id]

/-- Where no prototype is on a cycle, none is moved. -/
theorem breakCycles_of_acyclic {h : Hierarchy} {ps : List Prototype} (hacyclic : ∀ p ∈ ps, h.isCyclic p = false) :
    breakCycles file h ps = (h, []) := by
  induction ps with
  | nil => rfl
  | cons p rest ih =>
      rw [breakCycles, if_neg (by simp [hacyclic p])]
      exact ih fun q hq => hacyclic q (List.mem_cons_of_mem _ hq)

theorem acyclic_of_breakCycles {h : Hierarchy} {ps : List Prototype} (hclean : (breakCycles file h ps).2 = []) :
    ∀ p ∈ ps, h.isCyclic p = false := by
  induction ps with
  | nil => exact fun p hp => absurd hp List.not_mem_nil
  | cons p rest ih =>
      rw [breakCycles] at hclean
      by_cases hcyclic : h.isCyclic p = true
      · rw [if_pos hcyclic] at hclean
        cases hclean
      · rw [if_neg hcyclic] at hclean
        exact List.forall_mem_cons.2 ⟨Bool.eq_false_iff.2 hcyclic, ih hclean⟩

/-! ## All rounds -/

/-- Declarations that all count are registered as they stand. -/
theorem registerAll_ofDecls (hfresh : ∀ d ∈ decls, Builtin.prototype? d.name = none)
    (hnodup : (decls.map (·.name)).Nodup) (hmembers : ∀ d ∈ decls, d.repeatedMembers file = []) :
    registerAll file builtins decls = (ofDecls decls, []) := by
  refine registerAll_of_fresh hfresh ?_ hmembers
  rw [← names_ofDecls]
  exact nodup_names_ofDecls hfresh hnodup

/-- Where nothing is wrong the hierarchy is that of the declarations as they stand. -/
theorem build_of_consistent (h : Consistent file decls) : build file decls = (ofDecls decls, []) := by
  have hdeclared {P : Prototype → Prop} (hP : ∀ d ∈ decls, P d.toPrototype) :
      ∀ p ∈ (ofDecls decls).declared, P p := by
    rw [declared_ofDecls]
    exact List.forall_mem_map.2 hP
  have hinherited : ((ofDecls decls).declared.flatMap fun p =>
      ((ofDecls decls).inheritanceProblems p).map fun problem => problem.diagnose file p.span) = [] := by
    refine List.flatMap_eq_nil_iff.2 (hdeclared fun d hd => ?_)
    rw [h.inherited d hd, List.map_nil]
  simp only [build, registerAll_ofDecls h.fresh h.nodup h.members, resolveParents_of_known (hdeclared h.parents),
    breakCycles_of_acyclic (hdeclared h.acyclic), hinherited, List.append_nil]

/-- Where nothing was reported nothing is wrong. -/
theorem consistent_of_clean (hclean : (build file decls).2 = []) : Consistent file decls := by
  have hfresh : ∀ d ∈ decls, Builtin.prototype? d.name = none := fun d hd =>
    prototype?_of_registered ((registered_eq hclean).symm ▸ hd)
  have hnodup := nodup_names_decls hclean
  have hmembers : ∀ d ∈ decls, d.repeatedMembers file = [] := fun d hd => repeatedMembers_eq_nil hclean hd
  have hdeclared {P : Prototype → Prop} (hP : ∀ p ∈ (ofDecls decls).declared, P p) :
      ∀ d ∈ decls, P d.toPrototype := by
    rw [declared_ofDecls] at hP
    exact List.forall_mem_map.1 hP
  -- Each round leaves the hierarchy as it was, since it reported nothing.
  simp only [build, registerAll_ofDecls hfresh hnodup hmembers, List.nil_append, List.append_eq_nil_iff] at hclean
  obtain ⟨⟨hparents, hcycles⟩, hinherited⟩ := hclean
  have hknown := parentProblem?_of_resolveParents hparents
  rw [resolveParents_of_known hknown] at hcycles hinherited
  have hacyclic := acyclic_of_breakCycles hcycles
  rw [breakCycles_of_acyclic hacyclic] at hinherited
  have hfits : ∀ p ∈ (ofDecls decls).declared, (ofDecls decls).inheritanceProblems p = [] := fun p hp =>
    List.map_eq_nil_iff.1 (List.flatMap_eq_nil_iff.1 hinherited p hp)
  exact ⟨hfresh, hnodup, hmembers, hdeclared hknown, hdeclared hacyclic, hdeclared hfits⟩

/-- Declarations without a problem have none in any order, and the hierarchies are alike. -/
theorem build_perm (hclean : (build file decls).2 = []) (hperm : decls.Perm decls') :
    (build file decls').2 = [] ∧ (build file decls).1.Alike (build file decls').1 := by
  have h := consistent_of_clean hclean
  rw [build_of_consistent h, build_of_consistent (h.perm hperm)]
  exact ⟨rfl, h.alike hperm⟩

end Hierarchy

end ProtoScript
