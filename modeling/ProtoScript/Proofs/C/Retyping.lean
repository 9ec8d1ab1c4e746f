import ProtoScript.Proofs.Analysis.Globals
import ProtoScript.Proofs.C.Dispatch
import ProtoScript.Proofs.C.Types
import ProtoScript.Proofs.Lowering.WellFormed

set_option autoImplicit false

/-!
# Types are found again

What is inferred for a lowered function are the types that were noted when the program was checked
(`temp?_eq_type?_of_isClean`). The local part is an induction over the expression; here it is shown that a
module lowered from a program without problems has all that was known when the program was checked
(`knows_of_isClean`), and that inference finds the types of instructions and variables
(`infers_of_inferFunction`).

A module knows functions and methods by one kind of names. So what was called and what the module has for
the call can be told to be the same only if no name looks like that of a method, which the checker does not
ask for (`temp?_ne_type?_measured`).
-/

namespace ProtoScript

namespace C

open Lowering (Runs LowersTo lowerExpr? newInstance)

section

variable {p : Program} {library : Library} {moduleName : String} {m : Ir.Module}
  (hclean : (p.analyze library).isClean) (hfree : p.ColonFree)
  (hm : (p.analyze library).program.lower (p.analyze library).hierarchy moduleName = .ok m)

include hclean

/-! ## Functions -/

include hfree hm in
/-- The function of a name in the module is the function of that name in the program. -/
theorem function?_of_mem_functions {f : FunctionDecl} (hf : f ∈ p.functions) :
    ∃ g, function? m f.name = some g ∧ g.ret = f.ret := by
  obtain ⟨g₀, hg₀, hname₀⟩ := function_of_body hclean hm (mem_bodies_none.2 hf)
  obtain ⟨g, hg⟩ := exists_function? hg₀
  rw [show g₀.name = f.name from hname₀] at hg
  obtain ⟨hmem, hname⟩ := of_function? hg
  obtain ⟨proto?, f₁, _, hf₁, _, ⟨body, rfl⟩, hlowers⟩ := body_of_mem_functions hclean hm hmem
  obtain ⟨hsymbol, _, hret⟩ := Lowering.head_of_lowerFunction hlowers
  refine ⟨g, hg, hret.trans ?_⟩
  cases proto? with
  | none =>
      obtain rfl := List.inj_on_of_nodup_map (Program.functions_context hclean).2
        (mem_bodies_none.1 hf₁) hf (hsymbol.symm.trans hname)
      rfl
  | some o =>
      obtain ⟨d, hd, rfl, _⟩ := mem_bodies.1 hf₁
      have hf := hfree _ (List.mem_append_left _ (List.mem_map_of_mem hf))
      have hd := hfree _ (List.mem_append_right _ (List.mem_map_of_mem hd))
      exact absurd (hname.symm.trans hsymbol) (ne_methodName hf hd)

/-! ## What was known and what is found -/

include hfree hm in
/-- The module has what is known at the top of the program. -/
theorem knows_of_isClean (proto? : Option String) (ret : Ty) :
    Knows { p.context library with proto?, ret } m where
  function {name f} hf := by
    have hfind : (p.context library).functions.find? (fun g => g.name == name) = some f := hf
    rw [(Program.functions_context hclean).1] at hfind
    obtain rfl : f.name = name := by simpa using List.find?_some hfind
    exact function?_of_mem_functions hclean hfree hm (List.mem_of_find?_eq_some hfind)
  field {proto name f} hf := by
    have heq := fieldType_eq (Program.passes_decls hclean).1 (layouts_eq hclean hm) proto name
    rw [show (Hierarchy.build p.file p.prototypes).1.field? proto name = some f from hf] at heq
    cases hfield : fieldType m proto name with
    | error e =>
        rw [hfield] at heq
        cases heq
    | ok ty =>
        rw [hfield] at heq
        cases heq
        rfl
  method {proto name info} hinfo hopen := by
    obtain ⟨body, hbody, hret, _⟩ := methodBody?_of_method? hclean hfree hm hinfo hopen
    exact ⟨body, by rw [methodBody, hbody], hret⟩
  constant hv := by
    refine Analysis.Context.Constant.ty_eq hclean ?_
    cases hv with
    | member hg hv => exact .member hg hv
    | library hk hv => exact .library hk hv

/-- What is inferred for a function of the program gives its instructions and variables their types. -/
theorem infers_of_inferFunction {proto? : Option String} {f : FunctionDecl} {F : Ir.Function}
    {T : FunctionTypes} (hf : (proto?, f) ∈ (p.analyze library).program.bodies)
    (hself : "self" ∉ f.params.map Param.name)
    (hF : LowersTo (p.analyze library).hierarchy (p.analyze library).program.prototypes (proto?, f) F)
    (hT : inferFunction m F = .ok T) : Infers m F T := by
  obtain ⟨hdests, hnames, hapart⟩ := Lowering.fresh_of_lowerFunction hF
  refine ⟨fun hi ht hloop => temp?_of_inferFunction hdests hT hi ht (hloop · · ·),
    fun hdeclares => var?_of_inferFunction hT ?_ hnames hapart hdeclares⟩
  obtain ⟨_, _, s, s', hpasses, hscopes⟩ := Program.passes_body_of_mem hclean hf
  have htyped := Analysis.passes_function hpasses (congrArg Scopes.shape hscopes)
  have hmap : (f.params.map fun q => (⟨q.name, q.ty⟩ : Ir.Param)).map Ir.Param.name =
      f.params.map Param.name := by
    rw [List.map_map]
    rfl
  rw [(Lowering.head_of_lowerFunction hF).2.1, Lowering.functionParams, List.map_append, hmap]
  cases proto? with
  | none => exact htyped.nodup
  | some o => exact List.nodup_cons.2 ⟨hself, htyped.nodup⟩

end

/-- The types noted when a program was checked are found again in what it is lowered to. The program has no
problems and no colons in its names, and the function or method has no parameter `self`. If an expression of
its body, or the initial value of a field, that is checked without a report is lowered to a value somewhere in
the function, and every name stands for a variable of the type that it was checked with, or for none in both
places, then the type inferred for the value is the one noted for the expression. -/
theorem temp?_eq_type?_of_isClean {p : Program} {library : Library} {moduleName : String} {m : Ir.Module}
    (hclean : (p.analyze library).isClean) (hfree : p.ColonFree)
    (hm : (p.analyze library).program.lower (p.analyze library).hierarchy moduleName = .ok m)
    {proto? : Option String} {f : FunctionDecl} {F : Ir.Function} {T : FunctionTypes}
    (hf : (proto?, f) ∈ (p.analyze library).program.bodies)
    (hself : "self" ∉ f.params.map Param.name)
    (hF : LowersTo (p.analyze library).hierarchy (p.analyze library).program.prototypes (proto?, f) F)
    (hT : inferFunction m F = .ok T)
    {receiver? : Option String} (hreceiver : receiver? = proto? ∨ receiver? = none) {ret : Ty}
    {expected : Option Ty} {e e' : Expr} {s s' : Analysis.State}
    (he : Analysis.Passes (Analysis.checkExpr expected e)
      { p.context library with proto? := receiver?, ret } s e' s')
    {k : Lowering.Context} {depth : Nat} {b b' : Lowering.Builder} {t : Ir.Temp}
    (hlower : Runs k (lowerExpr? (newInstance depth) e') b (some t) b') (hF' : b'.instrs ⊆ F.instrs)
    (hnames : ∀ x, Option.Rel (fun binding y => F.Declares y binding.ty)
      (s.scopes.resolve? x) (Frames.find? b.scopes x)) :
    ∃ τ, e'.type? = some τ ∧ T.temp? t = some τ := by
  have hviews := Analysis.Views.self s.scopes
  obtain ⟨τ, htyped⟩ := Analysis.passes_expr_typed he hviews
  have hnamed : Named F (s.scopes.map Scope.types) b.scopes := by
    intro x
    have hx := hnames x
    rw [← hviews.find? x]
    generalize s.scopes.resolve? x = bound?, Frames.find? b.scopes x = stored? at hx
    cases hx with
    | none => exact .none
    | some h => exact .some h
  have hdeclares : ∀ proto, receiver? = some proto → F.Declares "self" (.named proto) := by
    rintro proto rfl
    rcases hreceiver with rfl | hnone
    · refine .inl ?_
      rw [(Lowering.head_of_lowerFunction hF).2.1]
      exact List.mem_cons_self
    · cases hnone
  exact ⟨τ, htyped.type?, reaches_expr (infers_of_inferFunction hclean hf hself hF hT)
    (knows_of_isClean hclean hfree hm receiver? ret) hdeclares e' htyped hlower hF' hnamed⟩

/-! ## Squares that are measured -/

/-- The area of a square, as it is written. -/
def squareArea : Expr := .methodCall {} (.ident {} "square") "area" []

/-- The area of a square, with what is noted when it is checked. -/
def squareAreaNoted : Expr :=
  .methodCall { type? := some .int, call? := some (.method "Square" "area" false) }
    (.ident { type? := some (.named "Square") } "square") "area" []

/-- Measures a square. -/
def measuring (value : Expr) : FunctionDecl where
  name := "measure"
  params := [⟨"square", .named "Square", .origin⟩]
  ret := .int
  body := [.ret .origin (some value)]

/-- A square is a shape and has its area. There is one more function, of any name. -/
def measured (name : String) : Program where
  file := "measured.pss"
  imports := []
  decls :=
    [ .prototype ⟨"Shape", none, false, [],
        [⟨.everyone, ⟨"area", [], .int, [.ret .origin (some (.literal {} (.int 0)))], .origin⟩⟩], .origin⟩,
      .prototype ⟨"Square", some "Shape", false, [], [], .origin⟩,
      .function ⟨name, [], .string, [.ret .origin (some (.literal {} (.str "none")))], .origin⟩,
      .function (measuring squareArea) ]

/-- What the measuring function is lowered to. -/
def measuringCode : Ir.Function where
  name := "measure"
  params := [⟨"square", .named "Square"⟩]
  ret := .int
  blocks := [⟨"entry", [.loadVar 0 "square", .callMethod (some 1) 0 "Square" "area" []], .ret 1⟩]

/-- The module of the program. -/
def measuredModule (name : String) : Ir.Module where
  name := "measured"
  functions :=
    [ ⟨"Shape::area", [⟨"self", .named "Shape"⟩], .int, [⟨"entry", [.const 0 (.int 0)], .ret 0⟩]⟩,
      ⟨name, [], .string, [⟨"entry", [.const 0 (.str "none")], .ret 0⟩]⟩,
      measuringCode ]
  layouts := Lowering.layouts ((measured name).analyze ⟨[]⟩).hierarchy

/-- The state in which the area is checked. -/
def measuringState : Analysis.State where
  scopes := [⟨.function, [("square", { ty := .named "Square", span := .origin })]⟩]

/-- The builder behind the area. -/
def measuringBuilder : Lowering.Builder :=
  { Lowering.startOf none (measuring squareArea) with
    code := [.loadVar 0 "square", .callMethod (some 1) 0 "Square" "area" []]
    nextTemp := 2 }

/-- The types of a measuring function in which the area is of the given type. -/
def measuringTypes (area : Ty) : FunctionTypes where
  temps := [(0, .named "Square"), (1, area)]
  vars := [("square", .named "Square")]

/-- The only name is that of the parameter. -/
theorem measuring_names (x : String) : Option.Rel (fun binding y => measuringCode.Declares y binding.ty)
    (measuringState.scopes.resolve? x)
    (Frames.find? (Lowering.startOf none (measuring squareArea)).scopes x) := by
  by_cases hx : x = "square"
  · subst hx
    exact .some (.inl List.mem_cons_self)
  · have hne : (x == "square") = false := beq_false_of_ne hx
    have hstate : measuringState.scopes.resolve? x = none := by
      simp [measuringState, Scopes.resolve?, Scope.get?, List.lookup_cons, hne]
    have hstart : Frames.find? (Lowering.startOf none (measuring squareArea)).scopes x = none := by
      simp [Lowering.startOf, measuring, Frames.find?, List.lookup_cons, hne]
    rw [hstate, hstart]
    exact .none

/-- The area of a square is an integer. -/
theorem temp?_eq_type?_measured :
    ((measured "describe").analyze ⟨[]⟩).isClean ∧ (measured "describe").ColonFree ∧
      ((measured "describe").analyze ⟨[]⟩).program.lower ((measured "describe").analyze ⟨[]⟩).hierarchy
        "measured" = .ok (measuredModule "describe") ∧
      (none, measuring squareAreaNoted) ∈ ((measured "describe").analyze ⟨[]⟩).program.bodies ∧
      "self" ∉ (measuring squareAreaNoted).params.map Param.name ∧
      LowersTo ((measured "describe").analyze ⟨[]⟩).hierarchy
        ((measured "describe").analyze ⟨[]⟩).program.prototypes (none, measuring squareAreaNoted)
        measuringCode ∧
      inferFunction (measuredModule "describe") measuringCode = .ok (measuringTypes .int) ∧
      Analysis.Passes (Analysis.checkExpr (some .int) squareArea)
        { (measured "describe").context ⟨[]⟩ with proto? := none, ret := .int } measuringState
        squareAreaNoted measuringState ∧
      Runs ⟨"measure", ((measured "describe").analyze ⟨[]⟩).hierarchy, []⟩
        (lowerExpr? (newInstance 1) squareAreaNoted) (Lowering.startOf none (measuring squareArea)) (some 1)
        measuringBuilder ∧
      measuringBuilder.instrs ⊆ measuringCode.instrs ∧
      ∃ τ, squareAreaNoted.type? = some τ ∧ (measuringTypes .int).temp? 1 = some τ := by
  have hclean : ((measured "describe").analyze ⟨[]⟩).isClean := rfl
  have hfree : (measured "describe").ColonFree := by decide +kernel
  have hlower : ((measured "describe").analyze ⟨[]⟩).program.lower
      ((measured "describe").analyze ⟨[]⟩).hierarchy "measured" = .ok (measuredModule "describe") := rfl
  have hbody : (none, measuring squareAreaNoted) ∈
      ((measured "describe").analyze ⟨[]⟩).program.bodies :=
    List.mem_of_getElem? (show _[2]? = some (none, measuring squareAreaNoted) from rfl)
  have hself : "self" ∉ (measuring squareAreaNoted).params.map Param.name := by decide
  have hcode : LowersTo ((measured "describe").analyze ⟨[]⟩).hierarchy
      ((measured "describe").analyze ⟨[]⟩).program.prototypes (none, measuring squareAreaNoted)
      measuringCode := rfl
  have htypes : inferFunction (measuredModule "describe") measuringCode = .ok (measuringTypes .int) := rfl
  have hpasses : Analysis.Passes (Analysis.checkExpr (some .int) squareArea)
      { (measured "describe").context ⟨[]⟩ with proto? := none, ret := .int } measuringState
      squareAreaNoted measuringState := ⟨rfl, Nat.le_refl _⟩
  have hruns : Runs ⟨"measure", ((measured "describe").analyze ⟨[]⟩).hierarchy, []⟩
      (lowerExpr? (newInstance 1) squareAreaNoted) (Lowering.startOf none (measuring squareArea)) (some 1)
      measuringBuilder := rfl
  have hinstrs : measuringBuilder.instrs ⊆ measuringCode.instrs := List.Subset.refl _
  exact ⟨hclean, hfree, hlower, hbody, hself, hcode, htypes, hpasses, hruns, hinstrs,
    temp?_eq_type?_of_isClean hclean hfree hlower hbody hself hcode htypes (.inl rfl) hpasses hruns hinstrs
      measuring_names⟩

/-- If the other function has the name that a method `area` of a square would have in the module, then that
function is taken for the method: its result is text, though the area is noted to be an integer. -/
theorem temp?_ne_type?_measured :
    ((measured "Square::area").analyze ⟨[]⟩).isClean ∧
      ((measured "Square::area").analyze ⟨[]⟩).program.lower
        ((measured "Square::area").analyze ⟨[]⟩).hierarchy "measured" =
          .ok (measuredModule "Square::area") ∧
      (none, measuring squareAreaNoted) ∈ ((measured "Square::area").analyze ⟨[]⟩).program.bodies ∧
      "self" ∉ (measuring squareAreaNoted).params.map Param.name ∧
      LowersTo ((measured "Square::area").analyze ⟨[]⟩).hierarchy
        ((measured "Square::area").analyze ⟨[]⟩).program.prototypes (none, measuring squareAreaNoted)
        measuringCode ∧
      inferFunction (measuredModule "Square::area") measuringCode = .ok (measuringTypes .string) ∧
      Analysis.Passes (Analysis.checkExpr (some .int) squareArea)
        { (measured "Square::area").context ⟨[]⟩ with proto? := none, ret := .int } measuringState
        squareAreaNoted measuringState ∧
      Runs ⟨"measure", ((measured "Square::area").analyze ⟨[]⟩).hierarchy, []⟩
        (lowerExpr? (newInstance 1) squareAreaNoted) (Lowering.startOf none (measuring squareArea)) (some 1)
        measuringBuilder ∧
      measuringBuilder.instrs ⊆ measuringCode.instrs ∧
      (∀ x, Option.Rel (fun binding y => measuringCode.Declares y binding.ty)
        (measuringState.scopes.resolve? x)
        (Frames.find? (Lowering.startOf none (measuring squareArea)).scopes x)) ∧
      squareAreaNoted.type? = some .int ∧ (measuringTypes .string).temp? 1 = some .string := by
  refine ⟨rfl, rfl, ?_, by decide, rfl, rfl, ⟨rfl, Nat.le_refl _⟩, rfl, List.Subset.refl _,
    measuring_names, rfl, rfl⟩
  exact List.mem_of_getElem? (show _[2]? = some (none, measuring squareAreaNoted) from rfl)

end C

end ProtoScript
