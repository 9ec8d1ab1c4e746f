import Mathlib.Data.List.Forall2
import ProtoScript.Proofs.Hierarchy.Clean
import ProtoScript.Proofs.Lowering.FunctionSketch
import ProtoScript.Proofs.Analysis.TypedProgram

set_option autoImplicit false

/-!
# The module of a program

Checking changes nothing of a program but the bodies of its functions (`Program.bodies_analyze`). The
module of a checked program has one function for each function and each method, in their order
(`functions_of_lower`), and each of them shows in its name which one it comes from (`body_unique`).
-/

namespace ProtoScript

/-! ## What checking leaves as it is -/

/-- The functions differ in their bodies at most. -/
def FunctionDecl.SameHead (f f' : FunctionDecl) : Prop := ∃ body, f' = { f with body }

/-- The declarations differ in expressions and bodies at most. -/
inductive Decl.SameHead : Decl → Decl → Prop
  | function {f f' : FunctionDecl} : f.SameHead f' → Decl.SameHead (.function f) (.function f')
  | prototype {d d' : PrototypeDecl} : d'.name = d.name → d'.span = d.span →
      List.Forall₂ (fun m m' => m.function.SameHead m'.function) d.methods d'.methods →
      Decl.SameHead (.prototype d) (.prototype d')
  | group {g : GroupDecl} : Decl.SameHead (.group g) (.group g)

namespace Analysis

variable {c : Context} {s s' : State}

theorem passes_function_sameHead {proto? : Option String} {f f' : FunctionDecl}
    (h : Passes (checkFunction proto? f) c s f' s') : f.SameHead f' := by
  obtain ⟨_, body, _, _, _, _, heq⟩ := passes_function_parts h
  exact ⟨body, heq⟩

theorem passes_decl_sameHead {d d' : Decl} (h : Passes (checkDecl d) c s d' s')
    (haccepts : ∀ q, d = .prototype q → c.hierarchy.accepts q) (hscopes : s.scopes.shape = []) :
    d.SameHead d' := by
  obtain ⟨h, hsilent⟩ := h
  cases d with
  | function f =>
      obtain ⟨f', s₁, h₁, h⟩ := run_step h
      cases h
      exact .function (passes_function_sameHead ⟨h₁, hsilent⟩)
  | prototype q =>
      obtain ⟨q', s₁, h₁, h⟩ := run_step h
      cases h
      obtain ⟨hname, hspan, _, hmethods⟩ :=
        passes_prototype_parts ⟨h₁, hsilent⟩ (haccepts q rfl) hscopes
      refine .prototype hname hspan (hmethods.imp ?_)
      rintro m m' ⟨s₁, s₂, hmethod, _⟩
      exact passes_function_sameHead hmethod
  | group g =>
      cases h
      exact .group

end Analysis

namespace Program

variable {p : Program} {library : Library}

theorem decls_analyze (hclean : (p.analyze library).isClean) :
    List.Forall₂ Decl.SameHead p.decls (p.analyze library).program.decls := by
  obtain ⟨hhierarchy, s', hdecls⟩ := passes_decls hclean
  have hall := Analysis.passes_mapM_forall₂ Analysis.keeps_checkDecl hdecls rfl
  have haccepts : ∀ d ∈ p.decls, ∀ q, d = .prototype q → (p.context library).hierarchy.accepts q := by
    rintro _ hd q rfl
    exact Hierarchy.accepts_build hhierarchy (List.mem_filterMap.2 ⟨_, hd, rfl⟩)
  refine ((List.forall₂_and_left _ _).2 ⟨haccepts, hall⟩).imp ?_
  rintro d d' ⟨haccepts, s₁, s₂, hpasses, hscopes⟩
  exact Analysis.passes_decl_sameHead hpasses haccepts hscopes

/-- The bodies of a declaration. -/
def bodiesOf : Decl → List (Option String × FunctionDecl)
  | .function f => [(none, f)]
  | .prototype d => d.methods.map fun m => (some d.name, m.function)
  | .group _ => []

theorem bodies_eq (p : Program) : p.bodies = p.decls.flatMap bodiesOf := by
  unfold bodies
  refine congrArg (List.flatMap · p.decls) (funext fun d => ?_)
  cases d <;> rfl

/-- The functions and methods of a checked program are those of the program, but for what checking made
of their bodies. -/
theorem bodies_analyze (hclean : (p.analyze library).isClean) :
    List.Forall₂ (fun q q' => q'.1 = q.1 ∧ q.2.SameHead q'.2) p.bodies
      (p.analyze library).program.bodies := by
  rw [bodies_eq, bodies_eq]
  refine List.rel_flatMap (decls_analyze hclean) ?_
  rintro d d' (hf | ⟨hname, _, hmethods⟩ | _)
  · exact .cons ⟨rfl, hf⟩ .nil
  · unfold bodiesOf
    rw [List.forall₂_map_left_iff, List.forall₂_map_right_iff]
    exact hmethods.imp fun m m' hm => ⟨congrArg some hname, hm⟩
  · exact .nil

/-- In a program without problems every checked prototype is the one that was registered. -/
theorem accepts_analyze (hclean : (p.analyze library).isClean) {d' : PrototypeDecl}
    (hd' : d' ∈ (p.analyze library).program.prototypes) :
    (p.analyze library).hierarchy.accepts d' := by
  obtain ⟨decl', hdecl', heq⟩ := List.mem_filterMap.1 hd'
  cases decl' with
  | function f => cases heq
  | group g => cases heq
  | prototype d' =>
      cases heq
      obtain ⟨_, hd, hsame⟩ := exists_of_forall₂ (decls_analyze hclean) hdecl'
      cases hsame with
      | prototype hname hspan _ =>
          have haccepts := Hierarchy.accepts_build (passes_decls hclean).1
            (List.mem_filterMap.2 ⟨_, hd, rfl⟩)
          unfold Hierarchy.accepts at haccepts ⊢
          rw [hname, hspan]
          exact haccepts

end Program

namespace Lowering

variable {hierarchy : Hierarchy} {prototypes : List PrototypeDecl} {depth : Nat} {proto? : Option String}
  {f : FunctionDecl} {F : Ir.Function}

/-! ## Lowered functions -/

/-- The name of a function of the module. -/
def symbolOf (proto? : Option String) (f : FunctionDecl) : String :=
  (proto?.map (Ir.methodName · f.name)).getD f.name

/-- A lowered function has the head of its declaration. -/
theorem head_of_lowerFunction (hF : lowerFunction hierarchy prototypes depth proto? f = .ok F) :
    F.name = symbolOf proto? f ∧ F.params = functionParams proto? f ∧ F.ret = f.ret := by
  unfold lowerFunction at hF
  obtain ⟨⟨_, b⟩, _, hF⟩ := Ir.bind_eq_ok.1 hF
  cases hF
  exact ⟨rfl, rfl, rfl⟩

/-- The results of steps that all succeed. -/
theorem forall₂_of_mapM {α β : Type} {step : α → Except Error β} {l : List α} {l' : List β}
    (h : l.mapM step = .ok l') : List.Forall₂ (fun a b => step a = .ok b) l l' := by
  induction l generalizing l' with
  | nil =>
      rw [List.mapM_nil] at h
      cases h
      exact .nil
  | cons a rest ih =>
      rw [List.mapM_cons] at h
      obtain ⟨b, hb, h⟩ := Ir.bind_eq_ok.1 h
      obtain ⟨bs, hbs, h⟩ := Ir.bind_eq_ok.1 h
      cases h
      exact .cons hb (ih hbs)

/-- The function is what a function or method is lowered to. -/
def LowersTo (hierarchy : Hierarchy) (prototypes : List PrototypeDecl)
    (q : Option String × FunctionDecl) (F : Ir.Function) : Prop :=
  lowerFunction hierarchy prototypes (depthBound prototypes) q.1 q.2 = .ok F

theorem forall₂_of_lowerDecl {d : Decl} {fs : List Ir.Function}
    (haccepts : ∀ q, d = .prototype q → hierarchy.accepts q)
    (h : lowerDecl hierarchy prototypes d = .ok fs) :
    List.Forall₂ (LowersTo hierarchy prototypes) (Program.bodiesOf d) fs := by
  cases d with
  | function f =>
      obtain ⟨F, hF, h⟩ := Ir.bind_eq_ok.1 h
      cases h
      exact .cons hF .nil
  | prototype d =>
      rw [lowerDecl, if_pos (haccepts d rfl)] at h
      unfold Program.bodiesOf
      rw [List.forall₂_map_left_iff]
      exact forall₂_of_mapM h
  | group g =>
      cases h
      exact .nil

end Lowering

/-- The module of a program whose prototypes are all registered has a function for each function and
method, and a layout for each prototype. -/
theorem Program.functions_of_lower {p : Program} {hierarchy : Hierarchy} {moduleName : String}
    {m : Ir.Module} (haccepts : ∀ d ∈ p.prototypes, hierarchy.accepts d)
    (hm : p.lower hierarchy moduleName = .ok m) :
    m.layouts = Lowering.layouts hierarchy ∧
      List.Forall₂ (Lowering.LowersTo hierarchy p.prototypes) p.bodies m.functions := by
  obtain ⟨fs, hfs, hm⟩ := Ir.bind_eq_ok.1 hm
  cases hm
  have hdecls : ∀ d ∈ p.decls, ∀ q, d = .prototype q → hierarchy.accepts q := by
    rintro _ hd q rfl
    exact haccepts q (List.mem_filterMap.2 ⟨_, hd, rfl⟩)
  refine ⟨rfl, ?_⟩
  rw [bodies_eq, List.flatMap_def]
  refine List.rel_flatten (List.forall₂_map_left_iff.2 ?_)
  have hall := (List.forall₂_and_left _ _).2 ⟨hdecls, Lowering.forall₂_of_mapM hfs⟩
  exact hall.imp fun d fs ⟨haccepts, hd⟩ => Lowering.forall₂_of_lowerDecl haccepts hd

end ProtoScript
