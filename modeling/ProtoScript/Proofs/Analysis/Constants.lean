import ProtoScript.Proofs.Analysis.Globals
import ProtoScript.Proofs.Analysis.NotedProgram
import ProtoScript.Proofs.Constant.Evaluate
import ProtoScript.Proofs.Group.Table
import ProtoScript.Proofs.Library.Imports

set_option autoImplicit false

/-!
# Noted constants are values at compile time

The checker finds the constant that a name or a member stands for in the table of groups and in the imports, in this
order and with regard to local variables. Compile-time evaluation looks up one spelling in one environment. Both
know the same constants (`Context.Knows`): the spellings of different constants are different since there are no
dots in the names, and where a group and a module have one name the group was inserted last. So every constant that
is noted on a node is the value of the node (`Program.constants_evaluate`).
-/

namespace ProtoScript

namespace Analysis

/-- The environment has the constants that are found in groups and imports, under the names by which expressions
know them. -/
structure Context.Knows (c : Context) : Prop where
  imported {name : String} {k : LibraryConstant} {v : ProtoScript.Constant} (hk : importedConstant? c name = some k)
    (hv : k.toConstant? = some v) : c.consts.get? name = some v
  groupMember {owner name : String} {g : Group} {v : ProtoScript.Constant} (hg : c.groups.get? owner = some g)
    (hv : g.member? name = some v) : c.consts.get? (qualified owner name) = some v
  moduleMember {owner module name : String} {v : ProtoScript.Constant} (hg : c.groups.get? owner = none)
    (hm : c.imports.namespace? owner = some module) (hv : c.library.IsConstant module name v) :
    c.consts.get? (qualified owner name) = some v

end Analysis

namespace Program

variable {p : Program} {library : Library}

theorem knows_context (hgroups : ∀ d ∈ p.groups, Dotless d.name)
    (himports : ∀ i ∈ p.imports, ∀ x ∈ i.visible, Dotless x) : (p.context library).Knows := by
  obtain ⟨hsound, hconsts⟩ := p.sound_groupTable ((p.context library).imports.constants library)
  have hscope := resolveImports_sound p.file p.imports library
  have hasked : ∀ x ∈ p.imports.flatMap Import.visible, Dotless x := List.forall_mem_flatMap.2 himports
  refine ⟨?_, ?_, ?_⟩
  · intro name k v hk hv
    obtain ⟨⟨module, member⟩, hm, hk⟩ := Option.bind_eq_some_iff.1 hk
    have hplain := hscope.dotless_member hasked (mem_of_lookup hm)
    show (p.groupTable ((p.context library).imports.constants library)).2.1.get? name = some v
    rw [hconsts, GroupTable.get?_insertAll_entries_of_ne fun g _ m _ => hplain.ne_qualified g.name m.1]
    exact hscope.get?_constants_member hasked hm ⟨k, hk, hv⟩
  · intro owner name g v hg hv
    have hname := List.find?_some hg
    have hmem := List.mem_of_find?_eq_some hg
    show (p.groupTable ((p.context library).imports.constants library)).2.1.get? (qualified owner name) = some v
    rw [hconsts, ← beq_iff_eq.1 hname]
    exact hsound.get?_entries hgroups hmem (mem_of_lookup hv)
  · intro owner module name v hg hm hv
    have hplain := hscope.dotless_namespace hasked (mem_of_lookup hm)
    show (p.groupTable ((p.context library).imports.constants library)).2.1.get? (qualified owner name) = some v
    rw [hconsts, GroupTable.get?_insertAll_entries_of_ne]
    · exact hscope.get?_constants_namespace hasked hm hv
    · intro g hgmem m _ heq
      -- There is no group with the name of the module.
      obtain ⟨d, hd, hgd, _⟩ := hsound.declared hgmem
      obtain ⟨rfl, _⟩ := qualified_inj hplain (hgd ▸ hgroups d hd) heq
      exact List.find?_eq_none.1 hg g hgmem (beq_self_eq_true _)

/-- A constant that is noted on a node is what the node is evaluated to, and in a program without problems it has the
type that is noted. -/
def Agreed (p : Program) (library : Library) (e : Expr) : Prop :=
  ∀ v, e.note.value? = some (.constant v) →
    e.evaluate? (p.context library).consts = some v ∧ ((p.analyze library).isClean → e.type? = some v.ty)

theorem establishes_agreed (h : (p.context library).Knows) :
    Analysis.Establishes (p.context library) (p.Agreed library) where
  plain e he v hv := absurd hv (he v)
  imported n name k v hk hv := by
    rintro _ ⟨⟩
    obtain ⟨⟨module, member⟩, _, hconst⟩ := Option.bind_eq_some_iff.1 hk
    refine ⟨Expr.evaluate?_ident (h.imported hk hv) _, fun hclean => ?_⟩
    exact congrArg some (Analysis.Context.Constant.ty_eq hclean (.library hconst hv)).symm
  groupMember n note owner g name v hg hv := by
    rintro _ ⟨⟩
    refine ⟨Expr.evaluate?_member (h.groupMember hg hv) _ _, fun hclean => ?_⟩
    exact congrArg some (Analysis.Context.Constant.ty_eq hclean (.member (List.mem_of_find?_eq_some hg) hv)).symm
  moduleMember n note owner module name k v hg hm hk hv := by
    rintro _ ⟨⟩
    refine ⟨Expr.evaluate?_member (h.moduleMember hg hm ⟨k, hk, hv⟩) _ _, fun hclean => ?_⟩
    exact congrArg some (Analysis.Context.Constant.ty_eq hclean (.library hk hv)).symm

/-- In a program that had no notes before, compile-time evaluation gives every constant that the checker notes on a
node, also if there are problems in the program. If there are none, the constant has the type of the node. -/
theorem constants_evaluate (hfresh : ArePlain p.nodes) (hgroups : ∀ d ∈ p.groups, Dotless d.name)
    (himports : ∀ i ∈ p.imports, ∀ x ∈ i.visible, Dotless x) :
    ∀ e ∈ (p.analyze library).program.nodes, ∀ v, e.note.value? = some (.constant v) →
      e.evaluate? (p.context library).consts = some v ∧ ((p.analyze library).isClean → e.type? = some v.ty) :=
  (establishes_agreed (knows_context hgroups himports)).program hfresh

/-- A module with three constants. -/
def limits : Library where
  modules :=
    [ { name := "limits"
        constants := [⟨"Low", .int, .int 1⟩, ⟨"High", .int, .int 255⟩, ⟨"Top", .byte, .int 7⟩] } ]

/-- The module is visible under two names, and one of them is that of a group too. The function declares
`top = Top` and returns `limits.High + lim.High`. -/
def limited : Program where
  file := "limited.ptsc"
  imports :=
    [ { module := "limits", form := .whole },
      { module := "limits", form := .renamed "lim" },
      { module := "limits", form := .members ["Top"] } ]
  decls :=
    [ .group { name := "limits", base := .int, members := [{ name := "High", value := .literal {} (.int 9) }] },
      .function
        { name := "sum", params := [], ret := .int
          body :=
            [ .varDecl .origin "top" .byte false (some (.ident {} "Top")),
              .ret .origin (some (.binary {} .add (.member {} (.ident {} "limits") "High")
                (.member {} (.ident {} "lim") "High"))) ] } ]

/-- Constants are noted on three nodes: one that is visible by itself, one of the group, and the one of the module that
can be reached under the other name only. -/
theorem constants_evaluate_limited :
    ArePlain limited.nodes ∧ (∀ d ∈ limited.groups, Dotless d.name) ∧
      (∀ i ∈ limited.imports, ∀ x ∈ i.visible, Dotless x) ∧ (limited.analyze limits).isClean ∧
      (limited.analyze limits).program.nodes.map (fun e => e.note.value?) =
        [none, some (.constant (.byte 7)), none, some (.constant (.int 9)), none, some (.constant (.int 255)), none] ∧
      ∀ e ∈ (limited.analyze limits).program.nodes, ∀ v, e.note.value? = some (.constant v) →
        e.evaluate? (limited.context limits).consts = some v ∧ e.type? = some v.ty := by
  have hfresh : ArePlain limited.nodes := by
    have hall : limited.nodes.all (fun e => e.note.value?.isNone) = true := by decide +kernel
    intro e he v hv
    have hnone := List.all_eq_true.1 hall e he
    rw [hv] at hnone
    cases hnone
  have hgroups : ∀ d ∈ limited.groups, Dotless d.name := by decide +kernel
  have himports : ∀ i ∈ limited.imports, ∀ x ∈ i.visible, Dotless x := by decide +kernel
  have hclean : (limited.analyze limits).isClean := by decide +kernel
  refine ⟨hfresh, hgroups, himports, hclean, rfl, fun e he v hv => ?_⟩
  obtain ⟨heval, hty⟩ := constants_evaluate hfresh hgroups himports e he v hv
  exact ⟨heval, hty hclean⟩

end Program

end ProtoScript
