import ProtoScript.Proofs.Analysis.Order
import ProtoScript.Proofs.Lowering.Endless
import ProtoScript.Proofs.Lowering.Module

set_option autoImplicit false

/-!
# Modules of programs in another order

Lowering a function asks what the program declares only for new instances, and there it asks by name: for
the fields of a prototype and for their initial values. So a function is lowered alike in every order of the
declarations (`lowerFunction_congr`). The module of a program without problems then differs in the order of its
functions and layouts, and in the numbers of the prototypes (`Program.compiles_in_any_order`).
-/

namespace ProtoScript

/-- A layout without the number of its prototype. -/
def Ir.Layout.unnumbered (l : Ir.Layout) : Ir.Layout := { l with id := 0 }

/-- The modules have the same functions and layouts in any order, but for the numbers of the prototypes. -/
structure Ir.Module.Reordered (m m' : Ir.Module) : Prop where
  name : m.name = m'.name
  functions : m.functions.Perm m'.functions
  layouts : (m.layouts.map Layout.unnumbered).Perm (m'.layouts.map Layout.unnumbered)

namespace Lowering

variable {h h' : Hierarchy} {ps ps' : List PrototypeDecl}

/-! ## Functions -/

/-- New instances are written alike where prototypes have the same fields and initial values. -/
theorem agrees_newInstance_of_layout {k : Comparison} (hallows : ∀ e proto, k.allows e proto)
    (hlayout : k.left.hierarchy.layout = k.right.hierarchy.layout)
    (hvalue : initialValue? k.left.prototypes = initialValue? k.right.prototypes) (depth : Nat)
    (proto : String) : Agrees k (newInstance depth proto) (newInstance depth proto) := by
  induction depth generalizing proto with
  | zero =>
      constructor
      · intro b
        rw [newInstance, fail_apply, fail_apply, k.sameName]
      · exact fun _ e proto _ => hallows e proto
  | succ depth ih => exact agrees_newInstance_succ hlayout hvalue fun needed _ => ih needed

/-- Of what a program declares, a lowered function depends on the fields of the prototypes and on their
initial values. -/
theorem lowerFunction_congr (hlayout : h.layout = h'.layout) (hvalue : initialValue? ps = initialValue? ps')
    (depth : Nat) (proto? : Option String) (f : FunctionDecl) :
    lowerFunction h ps depth proto? f = lowerFunction h' ps' depth proto? f := by
  let k : Comparison :=
    { left := contextOf h ps proto? f
      right := contextOf h' ps' proto? f
      sameName := rfl
      allows := fun _ _ => True
      allows_of_ne := fun _ _ _ => trivial }
  have hnew : AgreeOn k (newInstance depth) (newInstance depth) (stmtsInstances f.body) := fun proto _ =>
    agrees_newInstance_of_layout (fun _ _ => trivial) hlayout hvalue depth proto
  exact congrArg (· >>= _) ((agrees_lowerBody hnew).same (startOf proto? f))

theorem initialValue?_of_perm (hperm : ps.Perm ps') (hnodup : (ps.map (·.name)).Nodup) :
    initialValue? ps = initialValue? ps' := by
  funext f
  rw [initialValue?, initialValue?, find?_of_perm hperm hnodup]

theorem total_of_perm {ns ns' : List Nat} (hperm : ns.Perm ns') : total ns = total ns' := by
  induction hperm with
  | nil => rfl
  | cons n _ ih => rw [total, total, ih]
  | swap n n' rest =>
      simp only [total]
      omega
  | trans _ _ ih ih' => exact ih.trans ih'

theorem depthBound_of_perm (hperm : ps.Perm ps') : depthBound ps = depthBound ps' := by
  rw [depthBound, depthBound, total_of_perm (hperm.map _)]

/-- A declaration is lowered alike in every order. -/
theorem lowerDecl_of_perm (halike : h.Alike h') (hperm : ps.Perm ps') (hnodup : (ps.map (·.name)).Nodup)
    (d : Decl) : lowerDecl h ps d = lowerDecl h' ps' d := by
  have hfunction := lowerFunction_congr halike.layout (initialValue?_of_perm hperm hnodup)
  cases d with
  | function f => rw [lowerDecl, lowerDecl, hfunction, depthBound_of_perm hperm]
  | prototype d => simp only [lowerDecl, halike.accepts, hfunction, depthBound_of_perm hperm]
  | group g => rfl

/-! ## Modules -/

theorem mapM_of_forall₂ {α β : Type} {step : α → Except Error β} {l : List α} {l' : List β}
    (h : List.Forall₂ (fun a b => step a = .ok b) l l') : l.mapM step = .ok l' := by
  induction h with
  | nil => rfl
  | cons hfirst _ ih =>
      rw [List.mapM_cons, hfirst, ih]
      rfl

/-- Steps that succeed one after the other succeed in any order. -/
theorem mapM_of_perm {α β : Type} {step : α → Except Error β} {l u : List α} (hperm : l.Perm u) {l' : List β}
    (h : l.mapM step = .ok l') : ∃ u', u.mapM step = .ok u' ∧ l'.Perm u' := by
  obtain ⟨u', hu, hperm'⟩ := List.perm_comp_forall₂ hperm.symm (forall₂_of_mapM h)
  exact ⟨u', mapM_of_forall₂ hu, hperm'.symm⟩

/-- The layouts are those of the prototypes. -/
theorem layouts_of_alike (halike : h.Alike h') :
    ((layouts h).map Ir.Layout.unnumbered).Perm ((layouts h').map Ir.Layout.unnumbered) := by
  have hlayouts (h : Hierarchy) : (layouts h).map Ir.Layout.unnumbered = h.prototypes.map fun p =>
      ⟨p.name, 0, p.parent, (h.layout p.name).map fun f => ⟨f.name, f.ty⟩⟩ := by
    rw [layouts, List.map_map]
    rfl
  rw [hlayouts, hlayouts, halike.layout]
  exact halike.perm.map _

end Lowering

namespace Program

open Lowering

variable {p q : Program} {h h' : Hierarchy}

/-- What declarations are lowered to does not depend on their order, if each prototype has a name of its
own. -/
theorem lower_of_perm (hdecls : p.decls.Perm q.decls) (halike : h.Alike h')
    (hnodup : (p.prototypes.map (·.name)).Nodup) {moduleName : String} {m : Ir.Module}
    (hm : p.lower h moduleName = .ok m) : ∃ m', q.lower h' moduleName = .ok m' ∧ m.Reordered m' := by
  have hprototypes : p.prototypes.Perm q.prototypes := hdecls.filterMap _
  have hstep : lowerDecl h p.prototypes = lowerDecl h' q.prototypes :=
    funext fun d => lowerDecl_of_perm halike hprototypes hnodup d
  obtain ⟨fs, hfs, hm⟩ := Ir.bind_eq_ok.1 hm
  cases hm
  obtain ⟨fs', hfs', hperm⟩ := mapM_of_perm hdecls hfs
  rw [hstep] at hfs'
  refine ⟨⟨moduleName, fs'.flatten, layouts h'⟩, ?_, rfl, hperm.flatten, layouts_of_alike halike⟩
  rw [lower, hfs']
  rfl

/-- Checking leaves prototypes their names. -/
theorem names_prototypes_analyze {library : Library} (hclean : (p.analyze library).isClean) :
    (p.analyze library).program.prototypes.map (·.name) = p.prototypes.map (·.name) := by
  have hnames {ds ds' : List Decl} (hsame : List.Forall₂ Decl.SameHead ds ds') :
      (prototypes { p with decls := ds' }).map (·.name) = (prototypes { p with decls := ds }).map (·.name) := by
    induction hsame with
    | nil => rfl
    | cons hfirst _ ih =>
        cases hfirst with
        | function | group => exact ih
        | prototype hname => exact congrArg₂ List.cons hname ih
  exact hnames (decls_analyze hclean)

/-- The order of the declarations does not matter, as long as the groups keep theirs: there are problems in both
orders or in neither, and without problems both are lowered if one is, to the same functions and layouts. -/
theorem compiles_in_any_order {library : Library} (hreordered : p.Reordered q) :
    ((p.analyze library).isClean ↔ (q.analyze library).isClean) ∧
      ((p.analyze library).isClean → ∀ moduleName m,
        (p.analyze library).program.lower (p.analyze library).hierarchy moduleName = .ok m →
        ∃ m', (q.analyze library).program.lower (q.analyze library).hierarchy moduleName = .ok m' ∧
          m.Reordered m') := by
  refine ⟨⟨hreordered.isClean, hreordered.symm.isClean⟩, fun hclean moduleName m hm => ?_⟩
  have hflawless := isClean_iff.1 hclean
  refine lower_of_perm (hreordered.decls_analyze hclean) (hreordered.hierarchy hflawless).2 ?_ hm
  rw [names_prototypes_analyze hclean]
  exact Hierarchy.nodup_names_decls hflawless.hierarchy

/-- A dog that needs a name and a function that makes one, in front of the animals. -/
def dogFirst : Program where
  file := "dog.ps"
  imports := []
  decls :=
    [ .function ⟨"make", [], .named "Dog", [.ret .origin (some (.ident {} "Dog"))], .origin⟩,
      .prototype ⟨"Dog", some "Animal", false, [], [], .origin⟩,
      .group ⟨"Legs", .int, [⟨"COUNT", .literal {} (.int 4), .origin⟩], .origin⟩,
      .prototype ⟨"Animal", none, false,
        [⟨"legs", .int, false, some (.member {} (.ident {} "Legs") "COUNT"), .everyone, .origin⟩], [], .origin⟩ ]

/-- The same with the animals in front. -/
def animalFirst : Program := { dogFirst with decls := dogFirst.decls.reverse }

theorem compiles_in_any_order_dogs :
    (dogFirst.analyze ⟨[]⟩).isClean ∧ (animalFirst.analyze ⟨[]⟩).isClean ∧
      ∃ m m', (dogFirst.analyze ⟨[]⟩).program.lower (dogFirst.analyze ⟨[]⟩).hierarchy "dogs" = .ok m ∧
        (animalFirst.analyze ⟨[]⟩).program.lower (animalFirst.analyze ⟨[]⟩).hierarchy "dogs" = .ok m' ∧
        m.Reordered m' := by
  have hreordered : dogFirst.Reordered animalFirst :=
    ⟨rfl, rfl, (List.reverse_perm dogFirst.decls).symm, rfl⟩
  have hclean : (dogFirst.analyze ⟨[]⟩).isClean := by decide +kernel
  have hlowers : ((dogFirst.analyze ⟨[]⟩).program.lower (dogFirst.analyze ⟨[]⟩).hierarchy "dogs").isOk := by
    decide +kernel
  obtain ⟨hiff, hlower⟩ := @compiles_in_any_order dogFirst animalFirst ⟨[]⟩ hreordered
  cases hm : (dogFirst.analyze ⟨[]⟩).program.lower (dogFirst.analyze ⟨[]⟩).hierarchy "dogs" with
  | error e =>
      rw [hm] at hlowers
      cases hlowers
  | ok m =>
      obtain ⟨m', hm', hsame⟩ := hlower hclean "dogs" m hm
      exact ⟨hclean, hiff.1 hclean, m, m', rfl, hm', hsame⟩

end Program

end ProtoScript
