import Mathlib.Order.Defs.Unbundled
import ProtoScript.Proofs.Hierarchy.Clean

set_option autoImplicit false

/-!
# Subtypes and layouts

In the hierarchy of a program subtypes are ordered: the cycles are broken, so two prototypes that inherit
from each other are one. Whatever a prototype inherits from ends its ancestors, and since a layout lists the
fields of the root first, the layout of an ancestor begins that of the prototype
(`ancestors_suffix`, `layout_prefix`). Where nothing was reported no field of a layout has the name of
another, and looking a field up is reading the layout (`field?_eq_some_iff`). `Program.subtypes_ordered`
puts this together.
-/

namespace ProtoScript

namespace Hierarchy

variable {h : Hierarchy} {file : String} {decls : List PrototypeDecl} {a b name : String}

/-! ## The order of subtypes -/

theorem isSubtype_self (ha : h.contains a) : h.isSubtype a a := isSubtype_iff.2 ⟨.refl, ha⟩

/-- What may be stored where a type is expected is ordered, by subtypes on prototypes and by equality on
all other types. -/
theorem isPartialOrder_isAssignable :
    IsPartialOrder Ty fun s t => (build file decls).1.isAssignable s t where
  refl _ := isAssignable_iff.2 (.inl rfl)
  trans _ _ _ := isAssignable_trans
  antisymm s t hst hts := by
    rcases isAssignable_iff.1 hst with rfl | ⟨c, d, rfl, rfl, hcd⟩
    · rfl
    rcases isAssignable_iff.1 hts with heq | ⟨d', c', hd, hc, hdc⟩
    · exact heq.symm
    · cases hd
      cases hc
      rw [eq_of_isSubtype hcd hdc]

/-! ## Ancestors and layouts -/

/-- The ancestors of a prototype end in those of each of them. -/
theorem ancestors_suffix (hab : (build file decls).1.isSubtype a b) :
    (build file decls).1.ancestors b <:+ (build file decls).1.ancestors a := by
  obtain ⟨hleads, _⟩ := isSubtype_iff.1 hab
  clear hab
  induction hleads using Relation.ReflTransGen.head_induction_on with
  | refl => exact List.suffix_refl _
  | @head a c hac _ ih =>
      obtain ⟨p, hget, hparent⟩ := Option.bind_eq_some_iff.1 hac
      rw [ancestors_build hget hparent]
      exact ih.trans (List.suffix_cons _ _)

/-- The fields of the nearer prototypes stand behind those of the ones farther away. -/
theorem layout_prefix (hsuffix : h.ancestors b <:+ h.ancestors a) : h.layout b <+: h.layout a := by
  obtain ⟨nearer, hnearer⟩ := hsuffix
  refine ⟨nearer.reverse.flatMap (·.fields), ?_⟩
  calc h.layout b ++ nearer.reverse.flatMap (·.fields)
      = ((h.ancestors b).reverse ++ nearer.reverse).flatMap (·.fields) := List.flatMap_append.symm
    _ = (nearer ++ h.ancestors b).reverse.flatMap (·.fields) := by rw [List.reverse_append]
    _ = h.layout a := by rw [hnearer, layout]

theorem layout_build {p : Prototype} (hget : (build file decls).1.get? a = some p)
    (hparent : p.parent = some b) :
    (build file decls).1.layout a = (build file decls).1.layout b ++ p.fields := by
  rw [layout, ancestors_build hget hparent, List.reverse_cons, List.flatMap_append,
    List.flatMap_singleton]
  rfl

/-- A prototype declares no field twice; repetitions were left out when it was registered. -/
theorem nodup_own_fields {p : Prototype} (hp : p ∈ (build file decls).1.prototypes) :
    (p.fields.map FieldInfo.name).Nodup := by
  rcases of_mem_build_members hp with hbuiltin | ⟨d, _, _, _, hfields, _⟩
  · have hall : ∀ q ∈ builtins.prototypes, (q.fields.map FieldInfo.name).Nodup := by decide +kernel
    exact hall p hbuiltin
  · rw [hfields]
    have hnames : d.toPrototype.fields.map FieldInfo.name = d.splitFields.1.map FieldDecl.name :=
      List.map_map
    rw [hnames]
    exact nodup_firstOfEachName

/-! ## Fields of a hierarchy without problems -/

theorem layout_eq_nil (ha : ¬ h.contains a) : h.layout a = [] := by
  have hget : h.get? a = none := Option.not_isSome_iff_eq_none.1 ha
  rw [layout, ancestors_of_get?_eq_none hget]
  rfl

/-- Looking a field up finds the first of its name in the layout. -/
theorem field?_eq_find? (hclean : (build file decls).2 = []) (a name : String) :
    (build file decls).1.field? a name =
      ((build file decls).1.layout a).find? fun f => f.name == name := by
  by_cases ha : (build file decls).1.contains a
  · exact (find?_layout hclean ha name).symm
  · have hget : (build file decls).1.get? a = none := Option.not_isSome_iff_eq_none.1 ha
    rw [layout_eq_nil ha, field?, ancestors_of_get?_eq_none hget]
    rfl

/-- No two fields of a layout have one name. The induction follows the line to the root: the fields of the
parent have different names, those of the prototype itself too, and no field of an ancestor is declared
again. -/
theorem nodup_layout (hclean : (build file decls).2 = []) (a : String) :
    (((build file decls).1.layout a).map FieldInfo.name).Nodup := by
  by_cases ha : (build file decls).1.contains a
  case neg =>
    rw [layout_eq_nil ha]
    exact .nil
  have hline := line_build ha
  clear ha
  generalize (build file decls).1.ancestors a = line at hline
  induction hline with
  | @root a p hget hparent =>
      have hself : (build file decls).1.ancestors a = [p] :=
        (line_build (contains_of_get? hget)).unique (.root hget hparent)
      rw [layout, hself, List.reverse_singleton, List.flatMap_singleton]
      exact nodup_own_fields (of_get? hget).1
  | @step a b p rest hget hparent _ ih =>
      rw [layout_build hget hparent, List.map_append]
      refine List.nodup_append'.2 ⟨ih, nodup_own_fields (of_get? hget).1, ?_⟩
      intro x hinherited hown
      obtain ⟨g, hg, rfl⟩ := List.mem_map.1 hinherited
      obtain ⟨f, hf, hname⟩ := List.mem_map.1 hown
      -- the field of the parent would be found under the name of the prototype's own one
      have hnone := field?_parent_of_clean hclean (of_get? hget).1 hparent hf
      rw [hname, field?_eq_find? hclean] at hnone
      simpa using List.find?_eq_none.1 hnone g hg

theorem field?_eq_some_iff (hclean : (build file decls).2 = []) {f : FieldInfo} :
    (build file decls).1.field? a name = some f ↔
      f ∈ (build file decls).1.layout a ∧ f.name = name := by
  rw [field?_eq_find? hclean]
  constructor
  · intro hf
    exact ⟨List.mem_of_find?_eq_some hf, by simpa using List.find?_some hf⟩
  · rintro ⟨hf, rfl⟩
    exact find?_of_nodup (nodup_layout hclean a) hf

theorem field?_eq_none_iff (hclean : (build file decls).2 = []) :
    (build file decls).1.field? a name = none ↔
      name ∉ ((build file decls).1.layout a).map FieldInfo.name := by
  rw [field?_eq_find? hclean, List.find?_eq_none, List.mem_map]
  simp

end Hierarchy

/-- Whatever a program declares, its subtypes are ordered, and so are its types by what may be stored where;
the ancestors of a prototype end in those of each ancestor, and its layout begins with that of each
ancestor. If nothing was reported, the fields of a layout have different names, and the field that is
found under a name is the one of the layout. -/
theorem Program.subtypes_ordered (p : Program) :
    (∀ a, p.hierarchy.1.contains a → p.hierarchy.1.isSubtype a a) ∧
    (∀ a b c, p.hierarchy.1.isSubtype a b → p.hierarchy.1.isSubtype b c → p.hierarchy.1.isSubtype a c) ∧
    (∀ a b, p.hierarchy.1.isSubtype a b → p.hierarchy.1.isSubtype b a → a = b) ∧
    IsPartialOrder Ty (fun s t => p.hierarchy.1.isAssignable s t) ∧
    (∀ a b, p.hierarchy.1.isSubtype a b →
      p.hierarchy.1.ancestors b <:+ p.hierarchy.1.ancestors a ∧
        p.hierarchy.1.layout b <+: p.hierarchy.1.layout a) ∧
    (p.hierarchy.2 = [] → ∀ a,
      ((p.hierarchy.1.layout a).map FieldInfo.name).Nodup ∧
      (∀ name f, p.hierarchy.1.field? a name = some f ↔
        f ∈ p.hierarchy.1.layout a ∧ f.name = name) ∧
      ∀ name, p.hierarchy.1.field? a name = none ↔
        name ∉ (p.hierarchy.1.layout a).map FieldInfo.name) := by
  refine ⟨fun _ => Hierarchy.isSubtype_self, fun _ _ _ => Hierarchy.isSubtype_trans,
    fun _ _ => Hierarchy.eq_of_isSubtype, Hierarchy.isPartialOrder_isAssignable, ?_, ?_⟩
  · intro a b hab
    have hsuffix := Hierarchy.ancestors_suffix hab
    exact ⟨hsuffix, Hierarchy.layout_prefix hsuffix⟩
  · intro hclean a
    exact ⟨Hierarchy.nodup_layout hclean a, fun _ _ => Hierarchy.field?_eq_some_iff hclean,
      fun _ => Hierarchy.field?_eq_none_iff hclean⟩

/-- An exception with a code, below one with a place. -/
def placedError : Program where
  file := "errors.pss"
  imports := []
  decls :=
    [ .prototype ⟨"ParseError", some "PlacedError", false,
        [⟨"code", .int, false, none, .everyone, Span.origin⟩], [], Span.origin⟩,
      .prototype ⟨"PlacedError", some "Exception", false,
        [⟨"line", .int, false, none, .everyone, Span.origin⟩], [], Span.origin⟩ ]

/-- Its layout has the fields of all three, that of the built-in exception first. -/
example : placedError.hierarchy.2 = [] ∧
    (placedError.hierarchy.1.layout "ParseError").map FieldInfo.name = ["message", "line", "code"] := by
  decide +kernel

end ProtoScript
