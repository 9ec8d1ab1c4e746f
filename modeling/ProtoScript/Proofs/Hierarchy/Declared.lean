import ProtoScript.Hierarchy.Build
import ProtoScript.Proofs.Hierarchy.Chain

set_option autoImplicit false

/-!
# What the declarations say

The graph that a list of declarations describes (`declaredParent`): the first declaration of a name
counts, unless the name is a built-in one, and a parent that nobody declares becomes the root.
Registration and the resolution of parents produce that graph (`resolved_prototypes`,
`parentOf?_resolved`), in which every parent is known and the root alone has none.
-/

namespace ProtoScript

/-! ## First items -/

section FirstOfEachName

variable {α : Type} {name : α → String} {taken taken' : List String} {as : List α} {a : α} {x : String}

theorem firstOfEachName_congr (htaken : ∀ x, x ∈ taken ↔ x ∈ taken') (as : List α) :
    firstOfEachName name taken as = firstOfEachName name taken' as := by
  induction as generalizing taken taken' with
  | nil => rfl
  | cons a rest ih =>
      have hcons : ∀ x, x ∈ name a :: taken ↔ x ∈ name a :: taken' := by
        simp [htaken]
      rw [firstOfEachName, firstOfEachName, ih htaken, ih hcons]
      simp [htaken]

theorem firstOfEachName_cons_of_mem (ha : name a ∈ taken) :
    (firstOfEachName name taken (a :: as)).1 = (firstOfEachName name taken as).1 := by
  rw [firstOfEachName, if_pos ha]

theorem firstOfEachName_cons_of_not_mem (ha : name a ∉ taken) :
    (firstOfEachName name taken (a :: as)).1 = a :: (firstOfEachName name (name a :: taken) as).1 := by
  rw [firstOfEachName, if_neg ha]

/-- What counts was there, and its name was not taken. -/
theorem mem_of_firstOfEachName (ha : a ∈ (firstOfEachName name taken as).1) :
    a ∈ as ∧ name a ∉ taken := by
  induction as generalizing taken with
  | nil => cases ha
  | cons b rest ih =>
      by_cases hb : name b ∈ taken
      · rw [firstOfEachName_cons_of_mem hb] at ha
        exact ⟨List.mem_cons_of_mem _ (ih ha).1, (ih ha).2⟩
      · rw [firstOfEachName_cons_of_not_mem hb] at ha
        rcases List.mem_cons.1 ha with rfl | ha
        · exact ⟨List.mem_cons_self .., hb⟩
        · obtain ⟨hmem, hnot⟩ := ih ha
          exact ⟨List.mem_cons_of_mem _ hmem, fun h => hnot (List.mem_cons_of_mem _ h)⟩

theorem nodup_firstOfEachName : ((firstOfEachName name taken as).1.map name).Nodup := by
  induction as generalizing taken with
  | nil => exact .nil
  | cons a rest ih =>
      by_cases ha : name a ∈ taken
      · rw [firstOfEachName_cons_of_mem ha]
        exact ih
      · rw [firstOfEachName_cons_of_not_mem ha, List.map_cons, List.nodup_cons]
        refine ⟨fun hmem => ?_, ih⟩
        obtain ⟨b, hb, hname⟩ := List.mem_map.1 hmem
        exact (mem_of_firstOfEachName hb).2 (hname ▸ List.mem_cons_self ..)

/-- Under a name that was not taken, the first item is what counts. -/
theorem find?_firstOfEachName (hx : x ∉ taken) :
    ((firstOfEachName name taken as).1.find? fun a => name a == x) = as.find? fun a => name a == x := by
  induction as generalizing taken with
  | nil => rfl
  | cons a rest ih =>
      by_cases ha : name a ∈ taken
      · have hne : name a ≠ x := fun h => hx (h ▸ ha)
        rw [firstOfEachName_cons_of_mem ha, ih hx, List.find?_cons_of_neg (by simpa using hne)]
      · rw [firstOfEachName_cons_of_not_mem ha]
        by_cases hname : name a = x
        · rw [List.find?_cons_of_pos (by simpa using hname), List.find?_cons_of_pos (by simpa using hname)]
        · rw [List.find?_cons_of_neg (by simpa using hname), List.find?_cons_of_neg (by simpa using hname)]
          exact ih fun h => (List.mem_cons.1 h).elim (fun h => hname h.symm) hx

end FirstOfEachName

/-! ## The graph of the declarations -/

/-- The declarations that count: the first of each name that no built-in prototype has. -/
def registered (decls : List PrototypeDecl) : List PrototypeDecl :=
  (firstOfEachName PrototypeDecl.name (Builtin.prototypes.map (·.name)) decls).1

/-- The name, or that of the root if no prototype has it. -/
def orRoot (decls : List PrototypeDecl) (name : String) : String :=
  if (Builtin.prototype? name).isSome ∨ name ∈ decls.map (·.name) then name else Builtin.object

/-- The parent of a prototype as its first declaration gives it. -/
def declaredParent (decls : List PrototypeDecl) (name : String) : Option String :=
  match Builtin.prototype? name with
  | some b => b.parent
  | none => (decls.find? fun d => d.name == name).map fun d => orRoot decls (d.parent.getD Builtin.object)

namespace Builtin

theorem isSome_prototype?_iff {name : String} :
    (prototype? name).isSome ↔ name ∈ prototypes.map (·.name) := by
  unfold prototype?
  rw [List.find?_isSome, List.mem_map]
  simp

theorem prototype?_eq_none_iff {name : String} :
    prototype? name = none ↔ name ∉ prototypes.map (·.name) := by
  rw [← isSome_prototype?_iff, Bool.not_eq_true, Option.isSome_eq_false_iff, Option.isNone_iff_eq_none]

end Builtin

section Registered

variable {decls : List PrototypeDecl} {d : PrototypeDecl} {name : String}

theorem mem_of_registered (hd : d ∈ registered decls) : d ∈ decls := (mem_of_firstOfEachName hd).1

theorem prototype?_of_registered (hd : d ∈ registered decls) : Builtin.prototype? d.name = none :=
  Builtin.prototype?_eq_none_iff.2 (mem_of_firstOfEachName hd).2

theorem nodup_registered : ((registered decls).map (·.name)).Nodup := nodup_firstOfEachName

theorem find?_registered (hname : Builtin.prototype? name = none) :
    ((registered decls).find? fun d => d.name == name) = decls.find? fun d => d.name == name :=
  find?_firstOfEachName (Builtin.prototype?_eq_none_iff.1 hname)

theorem mem_names_registered (hname : Builtin.prototype? name = none) :
    name ∈ (registered decls).map (·.name) ↔ name ∈ decls.map (·.name) := by
  have hfind : ∀ ds : List PrototypeDecl,
      name ∈ ds.map (·.name) ↔ (ds.find? fun d => d.name == name).isSome := by
    intro ds
    rw [List.find?_isSome, List.mem_map]
    simp
  rw [hfind, hfind, find?_registered hname]

/-- What counts is what is found under its name. -/
theorem find?_of_registered (hd : d ∈ registered decls) :
    decls.find? (fun e => e.name == d.name) = some d := by
  rw [← find?_registered (prototype?_of_registered hd)]
  cases hfind : (registered decls).find? fun e => e.name == d.name with
  | none =>
      have hself := List.find?_eq_none.1 hfind d hd
      simp at hself
  | some e =>
      have hname : e.name = d.name := by simpa using List.find?_some hfind
      rw [List.inj_on_of_nodup_map nodup_registered (List.mem_of_find?_eq_some hfind) hd hname]

theorem declaredParent_of_registered (hd : d ∈ registered decls) :
    declaredParent decls d.name = some (orRoot decls (d.parent.getD Builtin.object)) := by
  rw [declaredParent, prototype?_of_registered hd]
  simp only
  rw [find?_of_registered hd, Option.map_some]

end Registered

namespace Hierarchy

variable {file : String} {decls : List PrototypeDecl}

/-! ## Registration -/

theorem names_append (ps qs : List Prototype) :
    (⟨ps ++ qs⟩ : Hierarchy).names = (⟨ps⟩ : Hierarchy).names ++ (⟨qs⟩ : Hierarchy).names :=
  List.map_append

theorem names_builtins : builtins.names = Builtin.prototypes.map (·.name) := by
  unfold names builtins
  rw [List.map_map]
  rfl

theorem registerAll_prototypes {h : Hierarchy} (hbuiltins : builtins.names ⊆ h.names) :
    (registerAll file h decls).1.prototypes =
      h.prototypes ++ (firstOfEachName PrototypeDecl.name h.names decls).1.map (·.toPrototype) := by
  induction decls generalizing h with
  | nil => simp [registerAll, firstOfEachName]
  | cons d rest ih =>
      rw [registerAll]
      by_cases hd : d.name ∈ h.names
      · have hsame : (h.register file d).1 = h := by
          unfold register
          split
          · rfl
          · rw [if_pos (contains_iff.2 hd)]
        rw [firstOfEachName_cons_of_mem hd]
        simp only [hsame]
        exact ih hbuiltins
      · have hbuiltin : ¬ (Builtin.prototype? d.name).isSome := fun hb =>
          hd (hbuiltins (names_builtins ▸ Builtin.isSome_prototype?_iff.1 hb))
        have hnew : (h.register file d).1 = ⟨h.prototypes ++ [d.toPrototype]⟩ := by
          rw [register, if_neg hbuiltin, if_neg fun hc => hd (contains_iff.1 hc)]
        have hnames : ∀ x, x ∈ (⟨h.prototypes ++ [d.toPrototype]⟩ : Hierarchy).names ↔
            x ∈ d.name :: h.names := by
          intro x
          rw [names_append, List.mem_append, List.mem_cons, or_comm]
          exact or_congr List.mem_singleton Iff.rfl
        rw [firstOfEachName_cons_of_not_mem hd]
        simp only [hnew]
        rw [ih fun x hx => (hnames x).2 (List.mem_cons_of_mem _ (hbuiltins hx)),
          firstOfEachName_congr hnames]
        simp

/-- The hierarchy after all declarations were registered and their parents resolved. -/
def resolved (file : String) (decls : List PrototypeDecl) : Hierarchy :=
  ((registerAll file builtins decls).1.resolveParents file).1

theorem registerAll_builtins :
    (registerAll file builtins decls).1.prototypes =
      builtins.prototypes ++ (registered decls).map (·.toPrototype) := by
  rw [registerAll_prototypes (List.Subset.refl _), names_builtins]
  rfl

theorem contains_registerAll {name : String} :
    (registerAll file builtins decls).1.contains name ↔
      (Builtin.prototype? name).isSome ∨ name ∈ decls.map (·.name) := by
  have hnames : (registerAll file builtins decls).1.names =
      Builtin.prototypes.map (·.name) ++ (registered decls).map (·.name) := by
    unfold names
    rw [registerAll_builtins, List.map_append, ← names_builtins, List.map_map]
    rfl
  rw [contains_iff, hnames, List.mem_append, Builtin.isSome_prototype?_iff]
  by_cases hbuiltin : name ∈ Builtin.prototypes.map (·.name)
  · simp [hbuiltin]
  · rw [mem_names_registered (Builtin.prototype?_eq_none_iff.2 hbuiltin)]

/-- A declaration with the parent that counts. -/
def toResolved (decls : List PrototypeDecl) (d : PrototypeDecl) : Prototype :=
  { d.toPrototype with parent := declaredParent decls d.name }

theorem resolved_prototypes :
    (resolved file decls).prototypes =
      builtins.prototypes ++ (registered decls).map (toResolved decls) := by
  unfold resolved resolveParents
  dsimp only
  rw [registerAll_builtins, List.map_append, List.map_map]
  refine congrArg₂ (· ++ ·) ?_ ?_
  · refine (List.map_congr_left fun p hp => ?_).trans (List.map_id _)
    obtain ⟨b, _, rfl⟩ := List.mem_map.1 hp
    rfl
  · refine List.map_congr_left fun d hd => ?_
    rw [Function.comp_apply, toResolved, declaredParent_of_registered hd, orRoot]
    by_cases hknown : (registerAll file builtins decls).1.contains (d.parent.getD Builtin.object)
    · rw [if_pos (contains_registerAll.1 hknown)]
      simp [PrototypeDecl.toPrototype, hknown]
    · rw [if_neg fun hc => hknown (contains_registerAll.2 hc)]
      simp [PrototypeDecl.toPrototype, hknown]

/-! ## The resolved graph -/

theorem get?_builtins (name : String) :
    builtins.get? name = (Builtin.prototype? name).map Prototype.ofBuiltin := by
  unfold get? builtins
  rw [List.find?_map]
  rfl

theorem get?_resolved (name : String) :
    (resolved file decls).get? name =
      (builtins.get? name).or (((registered decls).find? fun d => d.name == name).map (toResolved decls)) := by
  unfold get?
  rw [resolved_prototypes, List.find?_append, List.find?_map]
  rfl

theorem names_resolved :
    (resolved file decls).names = builtins.names ++ (registered decls).map (·.name) := by
  unfold names
  rw [resolved_prototypes, List.map_append, List.map_map]
  rfl

theorem nodup_names_resolved : (resolved file decls).names.Nodup := by
  rw [names_resolved, List.nodup_append']
  refine ⟨by decide +kernel, nodup_registered, ?_⟩
  rintro name hbuiltin hdeclared
  obtain ⟨d, hd, rfl⟩ := List.mem_map.1 hdeclared
  exact Builtin.prototype?_eq_none_iff.1 (prototype?_of_registered hd) (names_builtins ▸ hbuiltin)

/-- The parents of the resolved hierarchy are the declared ones. -/
theorem parentOf?_resolved : (resolved file decls).parentOf? = declaredParent decls := by
  funext name
  rw [parentOf?, get?_resolved, get?_builtins]
  cases hbuiltin : Builtin.prototype? name with
  | some b => simp [declaredParent, hbuiltin, Prototype.ofBuiltin]
  | none =>
      rw [find?_registered hbuiltin, Option.map_none, Option.none_or, Option.bind_map, declaredParent,
        hbuiltin]
      cases hfind : decls.find? fun d => d.name == name with
      | none => rfl
      | some d =>
          have hname : d.name = name := by simpa using List.find?_some hfind
          simp [toResolved, declaredParent, hname, hbuiltin, hfind]

theorem contains_resolved {name : String} :
    (resolved file decls).contains name ↔
      (Builtin.prototype? name).isSome ∨ name ∈ decls.map (·.name) := by
  rw [contains_iff, names_resolved, List.mem_append, names_builtins, Builtin.isSome_prototype?_iff]
  by_cases hbuiltin : name ∈ Builtin.prototypes.map (·.name)
  · simp [hbuiltin]
  · rw [mem_names_registered (Builtin.prototype?_eq_none_iff.2 hbuiltin)]

theorem contains_object : (resolved file decls).contains Builtin.object :=
  contains_resolved.2 (.inl (by decide +kernel))

theorem declaredParent_object : declaredParent decls Builtin.object = none := rfl

/-- A declared parent is known. -/
theorem contains_declaredParent {a b : String} (hab : declaredParent decls a = some b) :
    (resolved file decls).contains b := by
  unfold declaredParent at hab
  cases hbuiltin : Builtin.prototype? a with
  | some p =>
      rw [hbuiltin] at hab
      have hknown : ∀ p ∈ Builtin.prototypes, ∀ b ∈ p.parent, (Builtin.prototype? b).isSome := by
        decide +kernel
      exact contains_resolved.2 (.inl (hknown p (List.mem_of_find?_eq_some hbuiltin) b hab))
  | none =>
      rw [hbuiltin] at hab
      obtain ⟨d, _, rfl⟩ := Option.map_eq_some_iff.1 hab
      unfold orRoot
      split
      · exact contains_resolved.2 ‹_›
      · exact contains_object

/-- The parents of a built-in prototype lead to the root. -/
theorem leads_of_builtin {a : String} (ha : (Builtin.prototype? a).isSome) :
    Leads (declaredParent decls) a Builtin.object := by
  have hends : ∀ p ∈ Builtin.prototypes, builtins.isSubtype p.name Builtin.object := by
    decide +kernel
  obtain ⟨b, hb, rfl⟩ := List.mem_map.1 (Builtin.isSome_prototype?_iff.1 ha)
  refine (isSubtype_iff.1 (hends b hb)).1.of_agree fun x _ hx => ?_
  rw [parentOf?, get?_builtins] at hx ⊢
  cases hbuiltin : Builtin.prototype? x with
  | none => simp [hbuiltin] at hx
  | some p => simp [declaredParent, hbuiltin, Prototype.ofBuiltin]

/-- Only prototypes of the program are on cycles. -/
theorem registered_of_onCycle {a : String} (ha : OnCycle (declaredParent decls) a) :
    a ∈ (registered decls).map (·.name) := by
  cases hbuiltin : Builtin.prototype? a with
  | some p =>
      have hroot := ha.of_leads (leads_of_builtin (by rw [hbuiltin]; rfl))
      exact absurd declaredParent_object hroot.parent_ne_none
  | none =>
      rw [mem_names_registered hbuiltin]
      obtain ⟨b, hab, _⟩ := onCycle_iff.1 ha
      rw [declaredParent, hbuiltin] at hab
      obtain ⟨d, hfind, _⟩ := Option.map_eq_some_iff.1 hab
      exact List.mem_map.2 ⟨d, List.mem_of_find?_eq_some hfind, by simpa using List.find?_some hfind⟩

/-- The prototypes of the program, in the order of their declarations. -/
theorem declared_resolved :
    (resolved file decls).declared = (registered decls).map (toResolved decls) := by
  unfold declared
  rw [resolved_prototypes, List.filter_append]
  have hbuiltins : builtins.prototypes.filter (fun p => !p.isBuiltin) = [] := by
    decide +kernel
  rw [hbuiltins, List.nil_append, List.filter_eq_self]
  intro p hp
  obtain ⟨d, _, rfl⟩ := List.mem_map.1 hp
  rfl

end Hierarchy

end ProtoScript
