import ProtoScript.Proofs.Hierarchy.Cycles

set_option autoImplicit false

/-!
# Overriding methods

A declaration is compared with the nearest inherited one only. Without a problem the nearest one may be
replaced by it, and replacing composes along the walk towards the root, so that a method found from a
prototype can stand in for the one found from any of its ancestors (`method_of_subtype`). The built-in
prototypes, which nobody compares, replace no method.
-/

namespace ProtoScript

namespace Hierarchy

variable {h : Hierarchy} {file name : String} {decls : List PrototypeDecl}

/-! ## Replacing methods -/

theorem isAssignable_iff {source target : Ty} :
    h.isAssignable source target ↔
      source = target ∨ ∃ s t, source = .named s ∧ target = .named t ∧ h.isSubtype s t := by
  unfold isAssignable
  rw [Bool.or_eq_true, beq_iff_eq]
  refine or_congr_right ⟨fun hsub => ?_, ?_⟩
  · split at hsub
    · exact ⟨_, _, rfl, rfl, hsub⟩
    · cases hsub
  · rintro ⟨s, t, rfl, rfl, hsub⟩
    exact hsub

theorem isAssignable_trans {a b c : Ty} (hab : h.isAssignable a b) (hbc : h.isAssignable b c) :
    h.isAssignable a c := by
  rcases isAssignable_iff.1 hab with rfl | ⟨s, t, rfl, rfl, hst⟩
  · exact hbc
  rcases isAssignable_iff.1 hbc with rfl | ⟨_, u, ht, rfl, htu⟩
  · exact hab
  cases ht
  exact isAssignable_iff.2 (.inr ⟨s, u, rfl, rfl, isSubtype_trans hst htu⟩)

/-- Where `base` is called under a name, `m` can be called too. -/
structure Replaces (h : Hierarchy) (name : String) (m base : MethodInfo) : Prop where
  params : m.params = base.params
  ret : name ≠ "clone" → m.ret = base.ret
  clone : name = "clone" → h.isAssignable m.ret base.ret
  visible : base.visibility = .everyone → m.visibility = .everyone

namespace Replaces

variable {m base root : MethodInfo}

theorem refl (m : MethodInfo) : h.Replaces name m m where
  params := rfl
  ret _ := rfl
  clone _ := isAssignable_iff.2 (.inl rfl)
  visible hm := hm

theorem trans (hm : h.Replaces name m base) (hbase : h.Replaces name base root) :
    h.Replaces name m root where
  params := hm.params.trans hbase.params
  ret hname := (hm.ret hname).trans (hbase.ret hname)
  clone hname := isAssignable_trans (hm.clone hname) (hbase.clone hname)
  visible hroot := hm.visible (hbase.visible hroot)

/-- A method may replace another if nothing is wrong between the two. -/
theorem of_overrideProblems {proto : String} (hclean : h.overrideProblems proto m base = []) :
    h.Replaces m.name m base := by
  obtain ⟨hvisible, hsignature⟩ := List.append_eq_nil_iff.1 hclean
  have hoverrides : h.overrides m base := by
    by_contra hnot
    rw [if_neg hnot] at hsignature
    cases hsignature
  obtain ⟨hparams, hret⟩ := Bool.and_eq_true_iff.1 hoverrides
  refine ⟨by simpa using hparams, fun hname => ?_, fun hname => ?_, fun hbase => ?_⟩
  · rw [if_neg hname] at hret
    simpa using hret
  · rwa [if_pos hname] at hret
  · cases hm : m.visibility with
    | everyone => rfl
    | family =>
        rw [if_pos ⟨hbase, hm⟩] at hvisible
        cases hvisible

end Replaces

/-! ## The nearest method -/

theorem of_method? {p : Prototype} {m : MethodInfo} (hm : p.method? name = some m) :
    m ∈ p.methods ∧ m.name = name :=
  ⟨List.mem_of_find?_eq_some hm, by simpa using List.find?_some hm⟩

/-- The prototypes ahead are those of the parent, behind the prototype itself. -/
theorem ancestors_build {a b : String} {p : Prototype} (hget : (build file decls).1.get? a = some p)
    (hparent : p.parent = some b) :
    (build file decls).1.ancestors a = p :: (build file decls).1.ancestors b := by
  have hb := line_build (contains_parent_build (of_get? hget).1 hparent)
  exact (line_build (contains_of_get? hget)).unique (.step hget hparent hb)

theorem method?_build {a b : String} {p : Prototype} (hget : (build file decls).1.get? a = some p)
    (hparent : p.parent = some b) :
    (build file decls).1.method? a name = (p.method? name).or ((build file decls).1.method? b name) := by
  rw [method?, ancestors_build hget hparent, List.findSome?_cons]
  cases p.method? name <;> rfl

/-! ## Built-in prototypes -/

theorem build_nil : (build file []).1 = builtins := by
  unfold build
  rfl

/-- Built-in prototypes are what they are in every program. -/
theorem mem_build_of_builtin {p : Prototype} (hp : p ∈ builtins.prototypes) :
    p ∈ (build file decls).1.prototypes := by
  classical
  rw [build_eq.2.1, resolved_prototypes]
  refine List.mem_map.2 ⟨p, List.mem_append_left _ hp, if_neg fun hfirst => ?_⟩
  obtain ⟨d, hd, hname⟩ := List.mem_map.1 (registered_of_onCycle hfirst.1)
  have hnone := Builtin.prototype?_eq_none_iff.1 (prototype?_of_registered hd)
  exact hnone (names_builtins ▸ hname ▸ mem_names hp)

theorem builtin_of_isBuiltin {p : Prototype} (hp : p ∈ (build file decls).1.prototypes)
    (hbuiltin : p.isBuiltin) : p ∈ builtins.prototypes := by
  obtain ⟨q, hq, ⟨rfl, _⟩ | ⟨rfl, hfirst⟩⟩ := of_mem_build hp
  all_goals
    rw [resolved_prototypes] at hq
    rcases List.mem_append.1 hq with hq | hq
  · exact hq
  · obtain ⟨d, _, rfl⟩ := List.mem_map.1 hq
    cases hbuiltin
  · obtain ⟨d, hd, hname⟩ := List.mem_map.1 (registered_of_onCycle hfirst.1)
    have hnone := Builtin.prototype?_eq_none_iff.1 (prototype?_of_registered hd)
    exact absurd (names_builtins ▸ hname ▸ mem_names hq) hnone
  · obtain ⟨d, _, rfl⟩ := List.mem_map.1 hq
    cases hbuiltin

theorem get?_build_of_builtins {a : String} {p : Prototype} (hget : builtins.get? a = some p) :
    (build file decls).1.get? a = some p := by
  obtain ⟨hp, rfl⟩ := of_get? hget
  exact get?_of_mem (names_build ▸ nodup_names_resolved) (mem_build_of_builtin hp)

/-- From a built-in prototype on, no other prototypes lie ahead. -/
theorem ancestors_builtins {a : String} (ha : builtins.contains a) :
    (build file decls).1.ancestors a = builtins.ancestors a := by
  have hline : builtins.Line a (builtins.ancestors a) := by
    rw [← @build_nil file] at ha ⊢
    exact line_build ha
  have hmove : ∀ {a line}, builtins.Line a line → (build file decls).1.Line a line := by
    intro a line hline
    induction hline with
    | root hget hparent => exact .root (get?_build_of_builtins hget) hparent
    | step hget hparent _ ih => exact .step (get?_build_of_builtins hget) hparent ih
  obtain ⟨p, hget⟩ := get?_of_contains ha
  exact (line_build (contains_of_get? (get?_build_of_builtins hget))).unique (hmove hline)

theorem builtins_replace_nothing :
    ∀ p ∈ builtins.prototypes, ∀ b ∈ p.parent, builtins.contains b ∧
      ∀ m ∈ p.methods, builtins.method? b m.name = none := by
  decide +kernel

/-! ## Methods of ancestors -/

theorem inheritanceProblems_of_clean (hclean : (build file decls).2 = []) {p : Prototype}
    (hp : p ∈ (build file decls).1.declared) : (build file decls).1.inheritanceProblems p = [] :=
  List.map_eq_nil_iff.1 (List.flatMap_eq_nil_iff.1 (List.append_eq_nil_iff.1 hclean).2 p hp)

/-- Without a problem, a declared method may replace the nearest inherited one. -/
theorem replaces_of_clean (hclean : (build file decls).2 = []) {p : Prototype}
    (hp : p ∈ (build file decls).1.prototypes) {b : String} (hparent : p.parent = some b)
    {m base : MethodInfo} (hm : m ∈ p.methods)
    (hbase : (build file decls).1.method? b m.name = some base) :
    (build file decls).1.Replaces m.name m base := by
  cases hbuiltin : p.isBuiltin with
  | true =>
      obtain ⟨hb, hnone⟩ := builtins_replace_nothing p (builtin_of_isBuiltin hp hbuiltin) b hparent
      rw [method?, ancestors_builtins hb] at hbase
      cases (hnone m hm).symm.trans hbase
  | false =>
      have hdeclared : p ∈ (build file decls).1.declared := List.mem_filter.2 ⟨hp, by simp [hbuiltin]⟩
      have hproblems := inheritanceProblems_of_clean hclean hdeclared
      rw [inheritanceProblems, hparent] at hproblems
      have hmethod := List.flatMap_eq_nil_iff.1 (List.append_eq_nil_iff.1 hproblems).2 m hm
      rw [hbase] at hmethod
      exact .of_overrideProblems hmethod

end Hierarchy

/-- In a hierarchy without problems, a prototype has every method of its ancestors, under the same name,
with the same parameters and result, and at least as visible; only `clone` may give something more
specific. -/
theorem Program.method_of_subtype (p : Program) (hclean : p.hierarchy.2 = []) {child ancestor name : String}
    (hsub : p.hierarchy.1.isSubtype child ancestor) {base : MethodInfo}
    (hbase : p.hierarchy.1.method? ancestor name = some base) :
    ∃ m, p.hierarchy.1.method? child name = some m ∧ m.params = base.params ∧
      (name ≠ "clone" → m.ret = base.ret) ∧
      (name = "clone" → p.hierarchy.1.isAssignable m.ret base.ret) ∧
      (base.visibility = .everyone → m.visibility = .everyone) := by
  suffices h : ∃ m, p.hierarchy.1.method? child name = some m ∧ p.hierarchy.1.Replaces name m base by
    obtain ⟨m, hm, hreplaces⟩ := h
    exact ⟨m, hm, hreplaces.params, hreplaces.ret, hreplaces.clone, hreplaces.visible⟩
  obtain ⟨hleads, _⟩ := Hierarchy.isSubtype_iff.1 hsub
  clear hsub
  -- from the ancestor back to the prototype, against the direction of the walk
  induction hleads using Relation.ReflTransGen.head_induction_on with
  | refl => exact ⟨base, hbase, .refl base⟩
  | @head a b hab _ ih =>
      obtain ⟨inherited, hinherited, hreplaces⟩ := ih
      obtain ⟨q, hget, hparent⟩ := Option.bind_eq_some_iff.1 hab
      have hnearest := @Hierarchy.method?_build _ name _ _ _ _ hget hparent
      cases hown : q.method? name with
      | none =>
          rw [hown, Option.none_or] at hnearest
          exact ⟨inherited, hnearest.trans hinherited, hreplaces⟩
      | some m =>
          rw [hown, Option.some_or] at hnearest
          obtain ⟨hm, rfl⟩ := Hierarchy.of_method? hown
          have hover := Hierarchy.replaces_of_clean hclean (Hierarchy.of_get? hget).1 hparent hm hinherited
          exact ⟨m, hnearest, hover.trans hreplaces⟩

/-- A round shape below a shape, both with a `clone` of their own. -/
def roundShape : Program where
  file := "shapes.pss"
  imports := []
  decls :=
    [ .prototype ⟨"Round", some "Shape", false, [],
        [ ⟨.everyone, ⟨"clone", [], .named "Round", [], Span.origin⟩⟩,
          ⟨.everyone, ⟨"area", [⟨"scale", .int, Span.origin⟩], .int, [], Span.origin⟩⟩ ], Span.origin⟩,
      .prototype ⟨"Shape", none, false, [],
        [ ⟨.everyone, ⟨"clone", [], .named "Shape", [], Span.origin⟩⟩,
          ⟨.family, ⟨"area", [⟨"scale", .int, Span.origin⟩], .int, [], Span.origin⟩⟩ ], Span.origin⟩ ]

theorem clone_of_roundShape :
    roundShape.hierarchy.2 = [] ∧ roundShape.hierarchy.1.isSubtype "Round" "Object" ∧
      ∃ m, roundShape.hierarchy.1.method? "Round" "clone" = some m ∧ m.params = [] ∧
        roundShape.hierarchy.1.isAssignable m.ret (.named "Object") ∧ m.visibility = .everyone := by
  have hclean : roundShape.hierarchy.2 = [] := by decide +kernel
  have hsub : roundShape.hierarchy.1.isSubtype "Round" "Object" := by decide +kernel
  have hbase : roundShape.hierarchy.1.method? "Object" "clone" =
      some ⟨"clone", [], .named "Object", .everyone, "Object"⟩ := by decide +kernel
  obtain ⟨m, hm, hparams, _, hclone, hvisible⟩ := roundShape.method_of_subtype hclean hsub hbase
  exact ⟨hclean, hsub, m, hm, hparams, hclone rfl, hvisible rfl⟩

end ProtoScript
