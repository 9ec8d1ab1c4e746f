import ProtoScript.Proofs.Hierarchy.Overrides

set_option autoImplicit false

/-!
# Hierarchies without problems

Where nothing was reported every declaration counts and no member is named twice (`registered_eq`,
`splitFields_eq`, `splitMethods_eq`), so a prototype of the program has the members of its declaration
(`of_get?_declared`). No field of an ancestor is declared again, so that it does not matter from which end
of the line a field is looked for (`find?_layout`).
-/

namespace ProtoScript

section FirstOfEachName

variable {α : Type} {name : α → String} {taken : List String} {as : List α}

/-- If no name is repeated, all items count. -/
theorem firstOfEachName_eq (hnone : (firstOfEachName name taken as).2 = []) :
    (firstOfEachName name taken as).1 = as := by
  induction as generalizing taken with
  | nil => rfl
  | cons a rest ih =>
      rw [firstOfEachName] at hnone ⊢
      split at hnone
      · cases hnone
      · rw [if_neg ‹_›]
        exact congrArg (a :: ·) (ih hnone)

/-- Where no name stands twice, every item is found under its name. -/
theorem find?_of_nodup {a : α} (hnodup : (as.map name).Nodup) (ha : a ∈ as) :
    (as.find? fun b => name b == name a) = some a := by
  cases hfind : as.find? fun b => name b == name a with
  | none => simpa using List.find?_eq_none.1 hfind a ha
  | some b =>
      have hname : name b = name a := by simpa using List.find?_some hfind
      rw [List.inj_on_of_nodup_map hnodup (List.mem_of_find?_eq_some hfind) ha hname]

/-- Where no name stands twice, items are found under their names in any order. -/
theorem find?_of_perm {bs : List α} (hperm : as.Perm bs) (hnodup : (as.map name).Nodup) (x : String) :
    (as.find? fun a => name a == x) = bs.find? fun a => name a == x := by
  cases hfind : as.find? fun a => name a == x with
  | none =>
      refine (List.find?_eq_none.2 fun b hb => ?_).symm
      exact List.find?_eq_none.1 hfind b (hperm.mem_iff.2 hb)
  | some a =>
      obtain rfl : name a = x := by simpa using List.find?_some hfind
      have ha : a ∈ bs := hperm.mem_iff.1 (List.mem_of_find?_eq_some hfind)
      exact (find?_of_nodup ((hperm.map name).nodup_iff.1 hnodup) ha).symm

/-- Where no name stands twice, it does not matter from which end it is looked for. -/
theorem find?_reverse_of_nodup (hnodup : (as.map name).Nodup) (x : String) :
    (as.reverse.find? fun a => name a == x) = as.find? fun a => name a == x :=
  (find?_of_perm (List.reverse_perm as).symm hnodup x).symm

end FirstOfEachName

/-- A declared method as its prototype has it. -/
def MethodDecl.info (owner : String) (m : MethodDecl) : MethodInfo :=
  ⟨m.function.name, m.function.params.map (·.ty), m.function.ret, m.visibility, owner⟩

namespace PrototypeDecl

variable {file : String} {d : PrototypeDecl}

theorem splitMethods_eq (hclean : d.repeatedMembers file = []) : d.splitMethods.1 = d.methods :=
  firstOfEachName_eq (List.map_eq_nil_iff.1 (List.append_eq_nil_iff.1 hclean).2)

theorem nodup_methods (hclean : d.repeatedMembers file = []) :
    (d.methods.map (·.function.name)).Nodup := by
  rw [← splitMethods_eq hclean]
  exact nodup_firstOfEachName

end PrototypeDecl

namespace Hierarchy

variable {file : String} {decls : List PrototypeDecl}

/-! ## Declarations -/

/-- Without a report no name is taken, and no member is named twice. -/
theorem registerAll_clean {h : Hierarchy} (hbuiltins : builtins.names ⊆ h.names)
    (hclean : (registerAll file h decls).2 = []) :
    (firstOfEachName PrototypeDecl.name h.names decls).1 = decls ∧
      ∀ d ∈ decls, d.repeatedMembers file = [] := by
  induction decls generalizing h with
  | nil => exact ⟨rfl, nofun⟩
  | cons d rest ih =>
      rw [registerAll] at hclean
      obtain ⟨hhere, hrest⟩ := List.append_eq_nil_iff.1 hclean
      unfold register at hhere hrest
      split at hhere
      · cases hhere
      split at hhere
      · cases hhere
      rename_i hbuiltin hnew
      rw [if_neg hbuiltin, if_neg hnew] at hrest
      have hnames : (⟨h.prototypes ++ [d.toPrototype]⟩ : Hierarchy).names = h.names ++ [d.name] :=
        List.map_append
      obtain ⟨hfirst, hmembers⟩ := ih (by
        rw [hnames]
        exact fun x hx => List.mem_append_left _ (hbuiltins hx)) hrest
      refine ⟨?_, List.forall_mem_cons.2 ⟨hhere, hmembers⟩⟩
      have hnot : d.name ∉ h.names := fun hd => hnew (contains_iff.2 hd)
      rw [firstOfEachName_cons_of_not_mem hnot]
      refine congrArg (d :: ·) (Eq.trans (congrArg Prod.fst (firstOfEachName_congr ?_ rest)) hfirst)
      intro x
      rw [hnames, List.mem_append, List.mem_singleton, List.mem_cons, or_comm]

theorem registerAll_clean_of_build (hclean : (build file decls).2 = []) :
    registered decls = decls ∧ ∀ d ∈ decls, d.repeatedMembers file = [] := by
  have hregister : (registerAll file builtins decls).2 = [] := by
    unfold build at hclean
    simp only [List.append_eq_nil_iff] at hclean
    exact hclean.1.1.1
  obtain ⟨hfirst, hmembers⟩ := registerAll_clean (List.Subset.refl _) hregister
  rw [names_builtins] at hfirst
  exact ⟨hfirst, hmembers⟩

theorem registered_eq (hclean : (build file decls).2 = []) : registered decls = decls :=
  (registerAll_clean_of_build hclean).1

theorem repeatedMembers_eq_nil (hclean : (build file decls).2 = []) {d : PrototypeDecl}
    (hd : d ∈ decls) : d.repeatedMembers file = [] :=
  (registerAll_clean_of_build hclean).2 d hd

theorem nodup_names_decls (hclean : (build file decls).2 = []) : (decls.map (·.name)).Nodup :=
  registered_eq hclean ▸ nodup_registered

theorem nodup_names_build : (build file decls).1.names.Nodup := names_build ▸ nodup_names_resolved

/-- A prototype is a built-in one, or has the name and the members of a declaration. -/
theorem of_mem_build_members {p : Prototype} (hp : p ∈ (build file decls).1.prototypes) :
    p ∈ builtins.prototypes ∨ ∃ d ∈ registered decls, p.name = d.name ∧
      p.isBuiltin = false ∧ p.fields = d.toPrototype.fields ∧ p.methods = d.toPrototype.methods := by
  cases hbuiltin : p.isBuiltin with
  | true => exact .inl (builtin_of_isBuiltin hp hbuiltin)
  | false =>
      obtain ⟨q, hq, ⟨rfl, _⟩ | ⟨rfl, _⟩⟩ := of_mem_build hp
      all_goals
        rw [resolved_prototypes] at hq
        rcases List.mem_append.1 hq with hq | hq
      · exact .inl hq
      · obtain ⟨d, hd, rfl⟩ := List.mem_map.1 hq
        exact .inr ⟨d, hd, rfl, rfl, rfl, rfl⟩
      · obtain ⟨b, _, rfl⟩ := List.mem_map.1 hq
        cases hbuiltin
      · obtain ⟨d, hd, rfl⟩ := List.mem_map.1 hq
        exact .inr ⟨d, hd, rfl, rfl, rfl, rfl⟩

/-- Every declaration that counts has a prototype. -/
theorem get?_of_registered {d : PrototypeDecl} (hd : d ∈ registered decls) :
    ∃ p, (build file decls).1.get? d.name = some p ∧ p.isBuiltin = false ∧
      p.fields = d.toPrototype.fields ∧ p.methods = d.toPrototype.methods := by
  have hname : d.name ∈ (build file decls).1.names := by
    rw [names_build, names_resolved]
    exact List.mem_append_right _ (List.mem_map_of_mem hd)
  obtain ⟨p, hget⟩ := get?_of_contains (contains_iff.2 hname)
  obtain ⟨hp, hpname⟩ := of_get? hget
  rcases of_mem_build_members hp with hbuiltin | ⟨e, he, heq, hp, hfields, hmethods⟩
  · have hnone := Builtin.prototype?_eq_none_iff.1 (prototype?_of_registered hd)
    exact absurd (names_builtins ▸ hpname ▸ mem_names hbuiltin) hnone
  · obtain rfl := List.inj_on_of_nodup_map nodup_registered hd he (hpname.symm.trans heq)
    exact ⟨p, hget, hp, hfields, hmethods⟩

/-- Without a problem, a declared prototype has the methods of its declaration. -/
theorem get?_of_decl (hclean : (build file decls).2 = []) {d : PrototypeDecl} (hd : d ∈ decls) :
    ∃ p, (build file decls).1.get? d.name = some p ∧ p.isBuiltin = false ∧
      p.methods = d.methods.map (·.info d.name) := by
  obtain ⟨p, hget, huser, _, hmethods⟩ :=
    get?_of_registered ((registered_eq hclean).symm ▸ hd)
  refine ⟨p, hget, huser, hmethods.trans ?_⟩
  rw [← PrototypeDecl.splitMethods_eq (repeatedMembers_eq_nil hclean hd)]
  rfl

/-- A prototype that is not built in is declared. -/
theorem decl_of_get? (hclean : (build file decls).2 = []) {a : String} {p : Prototype}
    (hget : (build file decls).1.get? a = some p) (huser : p.isBuiltin = false) :
    ∃ d ∈ decls, d.name = a ∧ p.methods = d.methods.map (·.info d.name) := by
  obtain ⟨hp, rfl⟩ := of_get? hget
  rcases of_mem_build_members hp with hbuiltin | ⟨d, hd, hname, _, _, hmethods⟩
  · obtain ⟨b, _, rfl⟩ := List.mem_map.1 hbuiltin
    cases huser
  · have hd' := mem_of_registered hd
    refine ⟨d, hd', hname.symm, hmethods.trans ?_⟩
    rw [← PrototypeDecl.splitMethods_eq (repeatedMembers_eq_nil hclean hd')]
    rfl

/-- A name that no prototype has leads nowhere. -/
theorem ancestors_of_get?_eq_none {h : Hierarchy} {name : String} (hget : h.get? name = none) :
    h.ancestors name = [] := by
  unfold ancestors
  cases h.prototypes.length with
  | zero => rfl
  | succ n => rw [chain, hget]

/-! ## Fields -/

theorem builtins_shadow_nothing :
    ∀ p ∈ builtins.prototypes, ∀ b ∈ p.parent, builtins.contains b ∧
      ∀ f ∈ p.fields, builtins.field? b f.name = none := by
  decide +kernel

/-- No field of an ancestor is declared again. -/
theorem field?_parent_of_clean (hclean : (build file decls).2 = []) {p : Prototype}
    (hp : p ∈ (build file decls).1.prototypes) {b : String} (hparent : p.parent = some b)
    {f : FieldInfo} (hf : f ∈ p.fields) : (build file decls).1.field? b f.name = none := by
  cases hbuiltin : p.isBuiltin with
  | true =>
      obtain ⟨hb, hnone⟩ := builtins_shadow_nothing p (builtin_of_isBuiltin hp hbuiltin) b hparent
      rw [field?, ancestors_builtins hb]
      exact hnone f hf
  | false =>
      have hdeclared : p ∈ (build file decls).1.declared := List.mem_filter.2 ⟨hp, by simp [hbuiltin]⟩
      have hproblems := inheritanceProblems_of_clean hclean hdeclared
      rw [inheritanceProblems, hparent] at hproblems
      have hnone := List.filterMap_eq_nil_iff.1 (List.append_eq_nil_iff.1 hproblems).1 f hf
      simpa using hnone

theorem field?_build {a b name : String} {p : Prototype} (hget : (build file decls).1.get? a = some p)
    (hparent : p.parent = some b) :
    (build file decls).1.field? a name = (p.field? name).or ((build file decls).1.field? b name) := by
  rw [field?, ancestors_build hget hparent, List.findSome?_cons]
  cases p.field? name <;> rfl

/-- The field that stands first in an instance is the nearest one. -/
theorem find?_layout (hclean : (build file decls).2 = []) {a : String}
    (ha : (build file decls).1.contains a) (name : String) :
    ((build file decls).1.layout a).find? (fun f => f.name == name) =
      (build file decls).1.field? a name := by
  have hline := line_build ha
  generalize hlist : (build file decls).1.ancestors a = line at hline
  induction hline with
  | @root a p hget hparent =>
      rw [layout, field?, hlist, List.findSome?_singleton]
      simp [Prototype.field?]
  | @step a b p rest hget hparent hrest ih =>
      have hb := contains_parent_build (of_get? hget).1 hparent
      have hcons := ancestors_build hget hparent
      have hlayout : (build file decls).1.layout a = (build file decls).1.layout b ++ p.fields := by
        rw [layout, hcons, List.reverse_cons, List.flatMap_append, List.flatMap_singleton]
        rfl
      have hih := ih hb (List.cons.inj (hcons.symm.trans hlist)).2
      rw [hlayout, List.find?_append, hih, field?_build hget hparent]
      cases hown : p.field? name with
      | none =>
          rw [show p.fields.find? (fun f => f.name == name) = none from hown, Option.or_none,
            Option.none_or]
      | some f =>
          have hf : f ∈ p.fields := List.mem_of_find?_eq_some hown
          have hname : f.name = name := by simpa using List.find?_some hown
          have hnone := field?_parent_of_clean hclean (of_get? hget).1 hparent hf
          rw [hname] at hnone
          rw [hnone, Option.none_or, Option.or_none]
          exact hown

/-! ## Methods -/

theorem get?_of_mem_ancestors {h : Hierarchy} {a : String} {p : Prototype} (hp : p ∈ h.ancestors a) :
    h.get? p.name = some p ∧ Leads h.parentOf? a p.name :=
  leads_of_mem_chain hp

/-- A prototype owns its methods. -/
theorem owner_of_mem_methods {p : Prototype} (hp : p ∈ (build file decls).1.prototypes) {m : MethodInfo}
    (hm : m ∈ p.methods) : m.owner = p.name := by
  rcases of_mem_build_members hp with hbuiltin | ⟨d, _, hname, _, _, hmethods⟩
  · obtain ⟨b, _, rfl⟩ := List.mem_map.1 hbuiltin
    obtain ⟨_, _, rfl⟩ := List.mem_map.1 hm
    rfl
  · rw [hmethods] at hm
    obtain ⟨_, _, rfl⟩ := List.mem_map.1 hm
    exact hname.symm

/-- The nearest method of a name is one of an ancestor's own. -/
theorem isSubtype_owner {proto name : String} {m : MethodInfo}
    (hm : (build file decls).1.method? proto name = some m) :
    (build file decls).1.isSubtype proto m.owner := by
  obtain ⟨p, hp, hown⟩ := List.exists_of_findSome?_eq_some hm
  have hget := (get?_of_mem_ancestors hp).1
  refine List.any_eq_true.2 ⟨p, hp, beq_iff_eq.2 ?_⟩
  exact (owner_of_mem_methods (of_get? hget).1 (of_method? hown).1).symm

/-- A prototype's own method is the nearest. -/
theorem method?_of_own {h : Hierarchy} {a name : String} {p : Prototype} {m : MethodInfo}
    (hget : h.get? a = some p) (hown : p.method? name = some m) : h.method? a name = some m := by
  have hlength : 0 < h.prototypes.length := List.length_pos_of_mem (of_get? hget).1
  obtain ⟨n, hn⟩ := Nat.exists_eq_succ_of_ne_zero hlength.ne'
  rw [method?, ancestors, hn, chain_succ hget List.not_mem_nil, List.findSome?_cons, hown]

/-- Two prototypes that inherit from each other are one. -/
theorem eq_of_isSubtype {a b : String} (hab : (build file decls).1.isSubtype a b)
    (hba : (build file decls).1.isSubtype b a) : a = b := by
  by_contra hne
  rcases (isSubtype_iff.1 hab).1.cases_head with heq | ⟨c, hac, hcb⟩
  · exact hne heq
  · exact not_onCycle_build (onCycle_iff.2 ⟨c, hac, hcb.trans (isSubtype_iff.1 hba).1⟩)

/-- A method of an ancestor is found from below, or one that is nearer. -/
theorem isSome_method?_of_isSubtype {child ancestor name : String}
    (hsub : (build file decls).1.isSubtype child ancestor)
    (hmethod : ((build file decls).1.method? ancestor name).isSome) :
    ((build file decls).1.method? child name).isSome := by
  obtain ⟨hleads, _⟩ := isSubtype_iff.1 hsub
  clear hsub
  induction hleads using Relation.ReflTransGen.head_induction_on with
  | refl => exact hmethod
  | @head a b hab _ ih =>
      obtain ⟨q, hget, hparent⟩ := Option.bind_eq_some_iff.1 hab
      rw [method?_build hget hparent]
      cases q.method? name with
      | some m => rfl
      | none => exact ih

/-- A method that is not declared again below a prototype is the same from there. -/
theorem method?_of_not_overridden {child proto name : String}
    (hsub : (build file decls).1.isSubtype child proto)
    (hover : (build file decls).1.isOverriddenBelow proto name = false) :
    (build file decls).1.method? child name = (build file decls).1.method? proto name := by
  obtain ⟨hleads, hproto⟩ := isSubtype_iff.1 hsub
  clear hsub
  induction hleads using Relation.ReflTransGen.head_induction_on with
  | refl => rfl
  | @head a b hab hbproto ih =>
      obtain ⟨q, hget, hparent⟩ := Option.bind_eq_some_iff.1 hab
      obtain ⟨hq, rfl⟩ := of_get? hget
      have hsub : (build file decls).1.isSubtype q.name proto :=
        isSubtype_iff.2 ⟨.head hab hbproto, hproto⟩
      have hne : q.name ≠ proto := by
        rintro rfl
        exact not_onCycle_build (onCycle_iff.2 ⟨b, hab, hbproto⟩)
      have hown : q.method? name = none := by
        have hall := List.any_eq_false.1 hover q (List.mem_filter.2 ⟨hq, hsub⟩)
        simpa [hne] using hall
      rw [method?_build hget hparent, hown, Option.none_or, ih]

/-- Only a prototype of the program declares a method again. -/
theorem isBuiltin_of_overrides {q : Prototype} {proto name : String}
    (hget : (build file decls).1.get? q.name = some q) (hsub : (build file decls).1.isSubtype q.name proto) (hne : q.name ≠ proto)
    (hown : (q.method? name).isSome) (hmethod : ((build file decls).1.method? proto name).isSome) :
    q.isBuiltin = false := by
  cases hbuiltin : q.isBuiltin with
  | false => rfl
  | true =>
      rcases (isSubtype_iff.1 hsub).1.cases_head with heq | ⟨b, hqb, hb⟩
      · exact absurd heq hne
      · have hparent : q.parent = some b := by
          rwa [Extends, parentOf?, hget, Option.bind_some] at hqb
        obtain ⟨m, hm⟩ := Option.isSome_iff_exists.1 hown
        obtain ⟨hmem, rfl⟩ := of_method? hm
        obtain ⟨hknown, hnone⟩ :=
          builtins_replace_nothing q (builtin_of_isBuiltin (of_get? hget).1 hbuiltin) b hparent
        have hinherited := isSome_method?_of_isSubtype (isSubtype_iff.2 ⟨hb, (isSubtype_iff.1 hsub).2⟩) hmethod
        have hbuiltins := hnone m hmem
        rw [method?] at hinherited hbuiltins
        rw [ancestors_builtins hknown, hbuiltins] at hinherited
        cases hinherited

end Hierarchy

end ProtoScript
