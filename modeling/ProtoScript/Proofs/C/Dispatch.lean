import ProtoScript.C.Index
import ProtoScript.Proofs.C.Names
import ProtoScript.Proofs.Lowering.Module

set_option autoImplicit false

/-!
# The module knows the hierarchy

What generated code looks up in a module is what the checker looked up in the hierarchy: the ancestors of a
prototype (`ancestors_eq`), the types of fields (`fieldType_eq`), and the body that a call of a method runs
(`methodBody?_of_method?`). A body is told by its prototype, since under one name the functions of
different prototypes are different; so a call goes through a dispatcher exactly if a prototype below
declares the method again (`needsDispatch_eq`).
-/

namespace ProtoScript

/-- The names of a program's functions, of its prototypes and of their methods. -/
def Program.declaredNames (p : Program) : List String :=
  p.functions.map (·.name) ++ p.prototypes.flatMap fun d =>
    d.name :: d.methods.map (·.function.name)

/-- No function and no prototype of the program has a name with a colon in it. -/
def Program.ColonFree (p : Program) : Prop :=
  ∀ x ∈ p.functions.map (·.name) ++ p.prototypes.map (·.name), ':' ∉ x.toList

instance (p : Program) : Decidable p.ColonFree :=
  inferInstanceAs (Decidable (∀ x ∈ _, _))

namespace C

/-! ## Prototypes and layouts -/

/-- The layout of a prototype. -/
def layoutOf (h : Hierarchy) (p : Prototype) : Ir.Layout where
  name := p.name
  id := (h.number? p.name).getD 0
  parent := p.parent
  fields := (h.layout p.name).map fun f => ⟨f.name, f.ty⟩

section

variable {file : String} {decls : List PrototypeDecl} {m : Ir.Module} {h : Hierarchy}

theorem layout?_eq (hnodup : h.names.Nodup) (hm : m.layouts = Lowering.layouts h) (name : String) :
    layout? m name = (h.get? name).map (layoutOf h) := by
  have hmap : m.layouts = h.prototypes.map (layoutOf h) := hm
  have hnames : (m.layouts.map (·.name)).Nodup := by
    rw [hmap, List.map_map]
    exact hnodup
  rw [layout?, find?_reverse_of_nodup hnames, hmap, List.find?_map]
  rfl

theorem chain_eq (hnodup : h.names.Nodup) (hm : m.layouts = Lowering.layouts h) (steps : Nat)
    (seen : List String) (name : String) :
    chain m steps seen name = (h.chain steps seen name).map (·.name) := by
  induction steps generalizing seen name with
  | zero => rfl
  | succ steps ih =>
      rw [chain, Hierarchy.chain, layout?_eq hnodup hm]
      cases h.get? name with
      | none => rfl
      | some p =>
          simp only [Option.map_some, layoutOf]
          split
          · rfl
          · rw [List.map_cons]
            cases p.parent with
            | none => rfl
            | some b => exact congrArg _ (ih (p.name :: seen) b)

/-- The module lists the ancestors of a prototype as the hierarchy does. -/
theorem ancestors_eq (hnodup : h.names.Nodup) (hm : m.layouts = Lowering.layouts h) (name : String) :
    ancestors m name = (h.ancestors name).map (·.name) := by
  have hlength : m.layouts.length = h.prototypes.length := by
    rw [hm, Lowering.layouts, List.length_map]
  rw [ancestors, Hierarchy.ancestors, hlength, chain_eq hnodup hm]

theorem isSubtype_eq (hnodup : h.names.Nodup) (hm : m.layouts = Lowering.layouts h)
    (child ancestor : String) : isSubtype m child ancestor = h.isSubtype child ancestor := by
  rw [isSubtype, Hierarchy.isSubtype, ancestors_eq hnodup hm, List.contains_eq_any_beq, List.any_map]
  refine congrArg (List.any _) (funext fun p => ?_)
  exact Bool.beq_comm

theorem snd_field? (l : Ir.Layout) (name : String) :
    (l.field? name).map Prod.snd = l.fields.find? fun f => f.name == name := by
  have hfst : l.fields = l.fields.zipIdx.map Prod.fst := (List.zipIdx_map_fst 0 l.fields).symm
  rw [Ir.Layout.field?, Option.map_map]
  conv_rhs => rw [hfst, List.find?_map]
  rfl

theorem toOption_fieldType (proto field : String) :
    (fieldType m proto field).toOption =
      ((layout? m proto).bind fun l => l.fields.find? fun f => f.name == field).map (·.ty) := by
  unfold fieldType layout
  cases layout? m proto with
  | none => rfl
  | some l =>
      rw [Option.bind_some, ← snd_field?]
      dsimp only
      rw [Ir.ok_bind]
      cases l.field? field with
      | none => rfl
      | some f => rfl

/-- The type of a field is that of the nearest field of the name, and no other name has one. -/
theorem fieldType_eq (hclean : (Hierarchy.build file decls).2 = [])
    (hm : m.layouts = Lowering.layouts (Hierarchy.build file decls).1) (proto field : String) :
    (fieldType m proto field).toOption =
      ((Hierarchy.build file decls).1.field? proto field).map (·.ty) := by
  rw [toOption_fieldType, layout?_eq Hierarchy.nodup_names_build hm]
  cases hget : (Hierarchy.build file decls).1.get? proto with
  | none =>
      rw [Hierarchy.field?, Hierarchy.ancestors_of_get?_eq_none hget]
      rfl
  | some q =>
      obtain ⟨_, rfl⟩ := Hierarchy.of_get? hget
      rw [← Hierarchy.find?_layout hclean (Hierarchy.contains_of_get? hget) field, Option.map_some,
        Option.bind_some, layoutOf, List.find?_map, Option.map_map]
      rfl

end

/-! ## Built-in methods -/

namespace DefaultMethod

theorem of_find? {owner method : String} {d : DefaultMethod} (h : find? owner method = some d) :
    d.owner = owner ∧ d.name = method := by
  have hboth := List.find?_some h
  simpa using hboth

/-- The methods of a built-in prototype that can have children are those that have a body. -/
theorem method?_eq {q : Prototype} (hq : q ∈ Hierarchy.builtins.prototypes) (hopen : q.isSealed = false)
    (name : String) :
    q.method? name = (find? q.name name).map fun d => ⟨d.name, [], d.ret, .everyone, q.name⟩ := by
  have hmethods : ∀ q ∈ Hierarchy.builtins.prototypes, q.isSealed = false →
      q.methods = ([clone, toText, getMessage].filter fun d => d.owner == q.name).map fun d =>
        ⟨d.name, [], d.ret, .everyone, q.name⟩ := by
    decide +kernel
  rw [Prototype.method?, hmethods q hq hopen, List.find?_map, List.find?_filter, find?]
  simp only [Function.comp_def, Bool.decide_and, Bool.decide_eq_true]

/-- The prototype of a built-in method declares it. -/
theorem declared (d : DefaultMethod) :
    ((Hierarchy.builtins.get? d.owner).bind fun q => q.method? d.name).isSome := by
  cases d <;> decide +kernel

end DefaultMethod

/-! ## Functions of methods -/

section

variable {m : Ir.Module} {name : String} {g : Ir.Function}

theorem of_function? (h : function? m name = some g) : g ∈ m.functions ∧ g.name = name :=
  ⟨List.mem_reverse.1 (List.mem_of_find?_eq_some h), by simpa using List.find?_some h⟩

theorem exists_function? (hg : g ∈ m.functions) : ∃ g', function? m g.name = some g' := by
  rw [← Option.isSome_iff_exists, function?, List.find?_isSome]
  exact ⟨g, List.mem_reverse.2 hg, beq_self_eq_true g.name⟩

end

/-- The body is the one that the module of a program has for a method: what the declared method is lowered
to, or the body of a built-in one. -/
def Implements (p : Program) (h : Hierarchy) (m : Ir.Module) (name : String) (info : MethodInfo)
    (body : MethodBody) : Prop :=
  body.ret = info.ret ∧ ∃ q, h.get? info.owner = some q ∧
    match body with
    | .declared g => q.isBuiltin = false ∧ g ∈ m.functions ∧ g.name = Ir.methodName info.owner name ∧
        ∃ f, (some info.owner, f) ∈ p.bodies ∧ f.name = name ∧
          Lowering.LowersTo h p.prototypes (some info.owner, f) g
    | .default d => q.isBuiltin = true ∧ d.owner = info.owner ∧ d.name = name

/-! ## Programs without problems -/

section

variable {p : Program} {library : Library} {moduleName : String} {m : Ir.Module}

theorem mem_bodies {o : String} {f : FunctionDecl} :
    (some o, f) ∈ p.bodies ↔ ∃ d ∈ p.prototypes, d.name = o ∧ ∃ md ∈ d.methods, md.function = f := by
  rw [Program.bodies_eq, List.mem_flatMap]
  constructor
  · rintro ⟨decl, hdecl, hf⟩
    cases decl with
    | function g => simp [Program.bodiesOf] at hf
    | prototype d =>
        obtain ⟨md, hmd, heq⟩ := List.mem_map.1 hf
        cases heq
        exact ⟨d, List.mem_filterMap.2 ⟨_, hdecl, rfl⟩, rfl, md, hmd, rfl⟩
    | group g => cases hf
  · rintro ⟨d, hd, rfl, md, hmd, rfl⟩
    obtain ⟨decl, hdecl, heq⟩ := List.mem_filterMap.1 hd
    cases decl with
    | function g => cases heq
    | prototype d' =>
        cases heq
        exact ⟨_, hdecl, List.mem_map.2 ⟨md, hmd, rfl⟩⟩
    | group g => cases heq

theorem mem_bodies_none {f : FunctionDecl} : (none, f) ∈ p.bodies ↔ f ∈ p.functions := by
  rw [Program.bodies_eq, List.mem_flatMap]
  constructor
  · rintro ⟨decl, hdecl, hf⟩
    cases decl with
    | function g =>
        cases List.mem_singleton.1 hf
        exact List.mem_filterMap.2 ⟨_, hdecl, rfl⟩
    | prototype d => simp [Program.bodiesOf] at hf
    | group g => cases hf
  · intro hf
    obtain ⟨decl, hdecl, heq⟩ := List.mem_filterMap.1 hf
    cases decl with
    | function g =>
        cases heq
        exact ⟨_, hdecl, List.mem_singleton_self _⟩
    | prototype d => cases heq
    | group g => cases heq

variable (hclean : (p.analyze library).isClean) (hfree : p.ColonFree)
  (hnames : ∀ x ∈ p.declaredNames, isIdentifier x)

include hclean

/-- The prototype of a declared method has that method. -/
theorem method?_of_body {o : String} {f : FunctionDecl} (hf : (some o, f) ∈ p.bodies) :
    ∃ q, (p.analyze library).hierarchy.get? o = some q ∧ q.isBuiltin = false ∧
      ∃ info, q.method? f.name = some info ∧ info.params = f.params.map (·.ty) ∧ info.ret = f.ret := by
  have hhierarchy := (Program.passes_decls hclean).1
  obtain ⟨d, hd, rfl, md, hmd, rfl⟩ := mem_bodies.1 hf
  obtain ⟨q, hget, huser, hmethods⟩ := Hierarchy.get?_of_decl hhierarchy hd
  have hnodup := PrototypeDecl.nodup_methods (Hierarchy.repeatedMembers_eq_nil hhierarchy hd)
  have hfind : (d.methods.find? fun md' => md'.function.name == md.function.name) = some md :=
    find?_of_nodup hnodup hmd
  refine ⟨q, hget, huser, md.info d.name, ?_, rfl, rfl⟩
  rw [Prototype.method?, hmethods, List.find?_map]
  exact congrArg (Option.map _) hfind

/-- A method of a prototype that is not built in is declared. -/
theorem body_of_method? {o name : String} {q : Prototype} {info : MethodInfo}
    (hget : (p.analyze library).hierarchy.get? o = some q) (huser : q.isBuiltin = false)
    (hinfo : q.method? name = some info) :
    ∃ f, (some o, f) ∈ p.bodies ∧ f.name = name ∧ info.params = f.params.map (·.ty) ∧
      info.ret = f.ret := by
  obtain ⟨d, hd, rfl, hmethods⟩ := Hierarchy.decl_of_get? (Program.passes_decls hclean).1 hget huser
  obtain ⟨hmem, rfl⟩ := Hierarchy.of_method? hinfo
  rw [hmethods] at hmem
  obtain ⟨md, hmd, rfl⟩ := List.mem_map.1 hmem
  exact ⟨md.function, mem_bodies.2 ⟨d, hd, rfl, md, hmd, rfl⟩, rfl, rfl, rfl⟩

omit hclean in
theorem mem_declaredNames {o : String} {f : FunctionDecl} (hf : (some o, f) ∈ p.bodies) :
    o ∈ p.declaredNames := by
  obtain ⟨d, hd, rfl, _⟩ := mem_bodies.1 hf
  exact List.mem_append_right _ (List.mem_flatMap.2 ⟨d, hd, List.mem_cons_self⟩)

omit hclean in
include hnames in
theorem colonFree_of_isIdentifier : p.ColonFree := by
  intro x hx
  refine colon_notMem (hnames x ?_)
  rcases List.mem_append.1 hx with hx | hx
  · exact List.mem_append_left _ hx
  · obtain ⟨d, hd, rfl⟩ := List.mem_map.1 hx
    exact List.mem_append_right _ (List.mem_flatMap.2 ⟨d, hd, List.mem_cons_self⟩)

/-- What holds of the names of built-in and of declared prototypes holds of the names of all. -/
theorem name_of_get? {P : String → Prop} (hbuiltins : ∀ q ∈ Hierarchy.builtins.prototypes, P q.name)
    (hdecls : ∀ d ∈ p.prototypes, P d.name) {o : String} {q : Prototype}
    (hget : (p.analyze library).hierarchy.get? o = some q) : P o := by
  cases hbuiltin : q.isBuiltin with
  | true =>
      obtain ⟨hq, rfl⟩ := Hierarchy.of_get? hget
      exact hbuiltins q (Hierarchy.builtin_of_isBuiltin hq hbuiltin)
  | false =>
      obtain ⟨d, hd, rfl, _⟩ := Hierarchy.decl_of_get? (Program.passes_decls hclean).1 hget hbuiltin
      exact hdecls d hd

include hfree in
theorem colon_notMem_of_get? {o : String} {q : Prototype}
    (hget : (p.analyze library).hierarchy.get? o = some q) : ':' ∉ o.toList := by
  refine name_of_get? hclean (P := fun o => ':' ∉ o.toList) ?_ (fun d hd => ?_) hget
  · decide +kernel
  · exact hfree _ (List.mem_append_right _ (List.mem_map_of_mem hd))

include hnames in
/-- The names of prototypes are identifiers. -/
theorem isIdentifier_of_get? {o : String} {q : Prototype}
    (hget : (p.analyze library).hierarchy.get? o = some q) : isIdentifier o := by
  refine name_of_get? hclean (P := (isIdentifier ·)) ?_ (fun d hd => ?_) hget
  · decide +kernel
  · exact hnames _ (List.mem_append_right _ (List.mem_flatMap.2 ⟨d, hd, List.mem_cons_self⟩))

variable (hm : (p.analyze library).program.lower (p.analyze library).hierarchy moduleName = .ok m)

include hm

theorem layouts_eq : m.layouts = Lowering.layouts (p.analyze library).hierarchy :=
  (Program.functions_of_lower (fun _ hd => Program.accepts_analyze hclean hd) hm).1

/-- Every function of the module is what a function or method of the checked program is lowered to. -/
theorem body_of_mem_functions {g : Ir.Function} (hg : g ∈ m.functions) :
    ∃ proto? f f', (proto?, f) ∈ p.bodies ∧ (proto?, f') ∈ (p.analyze library).program.bodies ∧
      f.SameHead f' ∧ Lowering.LowersTo (p.analyze library).hierarchy
        (p.analyze library).program.prototypes (proto?, f') g := by
  obtain ⟨_, hfunctions⟩ := Program.functions_of_lower (fun _ hd => Program.accepts_analyze hclean hd) hm
  obtain ⟨⟨proto?, f'⟩, hf', hlowers⟩ := exists_of_forall₂ hfunctions hg
  obtain ⟨⟨_, f⟩, hf, rfl, hsame⟩ := exists_of_forall₂ (Program.bodies_analyze hclean) hf'
  exact ⟨proto?, f, f', hf, hf', hsame, hlowers⟩

/-- Every function and method has a function in the module. -/
theorem function_of_body {proto? : Option String} {f : FunctionDecl} (hf : (proto?, f) ∈ p.bodies) :
    ∃ g ∈ m.functions, g.name = Lowering.symbolOf proto? f := by
  obtain ⟨_, hfunctions⟩ := Program.functions_of_lower (fun _ hd => Program.accepts_analyze hclean hd) hm
  obtain ⟨⟨_, _⟩, hf', heq, body, hsame⟩ :=
    exists_of_forall₂ (Program.bodies_analyze hclean).flip hf
  cases heq
  cases hsame
  obtain ⟨g, hg, hlowers⟩ := exists_of_forall₂ hfunctions.flip hf'
  exact ⟨g, hg, (Lowering.head_of_lowerFunction hlowers).1⟩

section

include hfree

/-- Where no name has a colon, a function that is named as a method is that method. -/
theorem method_of_function {o name : String} {g : Ir.Function} (ho : ':' ∉ o.toList)
    (hg : g ∈ m.functions) (hname : g.name = Ir.methodName o name) :
    ∃ f f', (some o, f) ∈ p.bodies ∧ (some o, f') ∈ (p.analyze library).program.bodies ∧
      f.SameHead f' ∧ f.name = name ∧ Lowering.LowersTo (p.analyze library).hierarchy
        (p.analyze library).program.prototypes (some o, f') g := by
  obtain ⟨proto?, f, f', hf, hf', ⟨body, rfl⟩, hlowers⟩ := body_of_mem_functions hclean hm hg
  have hsymbol := (Lowering.head_of_lowerFunction hlowers).1.symm.trans hname
  cases proto? with
  | none =>
      have hmem := List.mem_map_of_mem (f := (·.name)) (mem_bodies_none.1 hf)
      exact absurd hsymbol (ne_methodName (hfree _ (List.mem_append_left _ hmem)) ho)
  | some o' =>
      obtain ⟨d, hd, rfl, _⟩ := mem_bodies.1 hf
      have hfree' := hfree _ (List.mem_append_right _ (List.mem_map_of_mem hd))
      obtain ⟨rfl, rfl⟩ := methodName_inj hfree' ho hsymbol
      exact ⟨f, _, hf, hf', ⟨body, rfl⟩, rfl, hlowers⟩

/-- The function of a method that a prototype declares. -/
theorem method_of_function? {o name : String} {q : Prototype} {g : Ir.Function}
    (hget : (p.analyze library).hierarchy.get? o = some q)
    (hg : function? m (Ir.methodName o name) = some g) :
    q.isBuiltin = false ∧ ∃ info, q.method? name = some info ∧
      Implements (p.analyze library).program (p.analyze library).hierarchy m name info (.declared g) := by
  obtain ⟨hmem, hgname⟩ := of_function? hg
  obtain ⟨f, f', hf, hf', ⟨body, rfl⟩, rfl, hlowers⟩ :=
    method_of_function hclean hfree hm (colon_notMem_of_get? hclean hfree hget) hmem hgname
  obtain ⟨q', hget', huser, info, hinfo, _, hret⟩ := method?_of_body hclean hf
  cases hget.symm.trans hget'
  obtain ⟨hq, rfl⟩ := Hierarchy.of_get? hget
  obtain ⟨hmethod, _⟩ := Hierarchy.of_method? hinfo
  have howner : info.owner = q.name := Hierarchy.owner_of_mem_methods hq hmethod
  rw [← howner] at hget hf' hgname hlowers
  refine ⟨huser, info, hinfo, ?_, q, hget, huser, hmem, hgname, { f with body }, hf', rfl, hlowers⟩
  exact (Lowering.head_of_lowerFunction hlowers).2.2.trans hret.symm

/-- A prototype has a body of its own for each of its methods, unless it is built in and sealed. -/
theorem ownBody?_of_method? {o name : String} {q : Prototype} {info : MethodInfo}
    (hget : (p.analyze library).hierarchy.get? o = some q) (hopen : q.isBuiltin → q.isSealed = false)
    (hinfo : q.method? name = some info) :
    ∃ body, ownBody? m name o = some body ∧
      Implements (p.analyze library).program (p.analyze library).hierarchy m name info body := by
  cases hbuiltin : q.isBuiltin with
  | true =>
      have hnone : function? m (Ir.methodName o name) = none := by
        cases hg : function? m (Ir.methodName o name) with
        | none => rfl
        | some g => cases hbuiltin.symm.trans (method_of_function? hclean hfree hm hget hg).1
      obtain ⟨hq, rfl⟩ := Hierarchy.of_get? hget
      rw [DefaultMethod.method?_eq (Hierarchy.builtin_of_isBuiltin hq hbuiltin) (hopen hbuiltin)] at hinfo
      obtain ⟨d, hd, rfl⟩ := Option.map_eq_some_iff.1 hinfo
      refine ⟨.default d, ?_, rfl, q, hget, hbuiltin, DefaultMethod.of_find? hd⟩
      rw [ownBody?, hnone]
      exact congrArg (Option.map _) hd
  | false =>
      obtain ⟨f, hf, rfl, _⟩ := body_of_method? hclean hget hbuiltin hinfo
      obtain ⟨g₀, hg₀, hname₀⟩ := function_of_body hclean hm hf
      obtain ⟨g, hg⟩ := exists_function? hg₀
      rw [show g₀.name = Ir.methodName o f.name from hname₀] at hg
      obtain ⟨_, info', hinfo', himplements⟩ := method_of_function? hclean hfree hm hget hg
      cases hinfo.symm.trans hinfo'
      exact ⟨.declared g, by simp only [ownBody?, hg], himplements⟩

/-- A prototype has no body of its own for other methods. -/
theorem ownBody?_eq_none {o name : String} {q : Prototype}
    (hget : (p.analyze library).hierarchy.get? o = some q) (hnone : q.method? name = none) :
    ownBody? m name o = none := by
  cases hg : function? m (Ir.methodName o name) with
  | some g =>
      obtain ⟨_, info, hinfo, _⟩ := method_of_function? hclean hfree hm hget hg
      cases hnone.symm.trans hinfo
  | none =>
      rw [ownBody?, hg, Option.map_eq_none_iff]
      obtain ⟨hq, rfl⟩ := Hierarchy.of_get? hget
      cases hfind : DefaultMethod.find? q.name name with
      | none => rfl
      | some d =>
          obtain ⟨howner, rfl⟩ := DefaultMethod.of_find? hfind
          obtain ⟨info, hinfo⟩ := Option.isSome_iff_exists.1 d.declared
          obtain ⟨b, hb, hmethod⟩ := Option.bind_eq_some_iff.1 hinfo
          rw [howner] at hb
          cases (Hierarchy.get?_build_of_builtins hb).symm.trans hget
          cases hnone.symm.trans hmethod

/-- Calling a method runs the body of the nearest method of the name, unless that is one of a sealed
built-in prototype. -/
theorem methodBody?_of_method? {proto name : String} {info : MethodInfo}
    (hinfo : (p.analyze library).hierarchy.method? proto name = some info)
    (hopen : ∀ q, (p.analyze library).hierarchy.get? info.owner = some q →
      q.isBuiltin → q.isSealed = false) :
    ∃ body, methodBody? m proto name = some body ∧
      Implements (p.analyze library).program (p.analyze library).hierarchy m name info body := by
  obtain ⟨nearer, q, farther, hsplit, hown, hnearer⟩ := List.findSome?_eq_some_iff.1 hinfo
  have hself : ∀ q' ∈ (p.analyze library).hierarchy.ancestors proto,
      (p.analyze library).hierarchy.get? q'.name = some q' :=
    fun _ hq' => (Hierarchy.get?_of_mem_ancestors hq').1
  rw [hsplit] at hself
  have hget := hself q (List.mem_append_right _ List.mem_cons_self)
  have howner : info.owner = q.name :=
    Hierarchy.owner_of_mem_methods (Hierarchy.of_get? hget).1 (Hierarchy.of_method? hown).1
  obtain ⟨body, hbody, himplements⟩ :=
    ownBody?_of_method? hclean hfree hm hget (hopen q (howner ▸ hget)) hown
  refine ⟨body, ?_, himplements⟩
  rw [methodBody?, ancestors_eq Hierarchy.nodup_names_build (layouts_eq hclean hm), List.findSome?_map]
  refine List.findSome?_eq_some_iff.2 ⟨nearer, q, farther, hsplit, hbody, fun q' hq' => ?_⟩
  exact ownBody?_eq_none hclean hfree hm (hself q' (List.mem_append_left _ hq')) (hnearer q' hq')

end

section

include hnames

omit hm in
/-- The body of a method is called after the prototype that declares the method. -/
theorem Implements.cName_eq {name : String} {info : MethodInfo} {body : MethodBody}
    (h : Implements (p.analyze library).program (p.analyze library).hierarchy m name info body) :
    body.cName = memberOf "psm_" info.owner name := by
  obtain ⟨_, q, hget, hbody⟩ := h
  cases body with
  | declared g =>
      obtain ⟨_, _, hgname, _⟩ := hbody
      rw [MethodBody.cName, hgname, functionName_methodName]
      exact colon_notMem (isIdentifier_of_get? hclean hnames hget)
  | default d =>
      obtain ⟨_, howner, hname⟩ := hbody
      rw [MethodBody.cName, DefaultMethod.cName, howner, hname]

/-- A call goes through a dispatcher exactly if a prototype below declares the method again. -/
theorem needsDispatch_eq {proto name : String} {info : MethodInfo}
    (hinfo : (p.analyze library).hierarchy.method? proto name = some info)
    (hopen : ∀ q, (p.analyze library).hierarchy.get? info.owner = some q →
      q.isBuiltin → q.isSealed = false) :
    needsDispatch m proto name = (p.analyze library).hierarchy.isOverriddenBelow proto name := by
  have hfree := colonFree_of_isIdentifier hnames
  obtain ⟨base, hbase, himplements⟩ := methodBody?_of_method? hclean hfree hm hinfo hopen
  have hlay := layouts_eq hclean hm
  have hsubtype := isSubtype_eq Hierarchy.nodup_names_build hlay
  rw [Bool.eq_iff_iff, needsDispatch, hbase, Option.any_some, List.any_eq_true]
  constructor
  · rintro ⟨l, hl, hother⟩
    obtain ⟨hl, hbelow⟩ := List.mem_filter.1 hl
    obtain ⟨_, hsub⟩ := Bool.and_eq_true_iff.1 hbelow
    rw [hsubtype] at hsub
    by_contra hover
    rw [Bool.not_eq_true] at hover
    have hsame := (Hierarchy.method?_of_not_overridden hsub hover).trans hinfo
    obtain ⟨body, hbody, himplements'⟩ := methodBody?_of_method? hclean hfree hm hsame hopen
    rw [hbody, Option.any_some, himplements.cName_eq hclean hnames,
      himplements'.cName_eq hclean hnames] at hother
    simp at hother
  · intro hover
    obtain ⟨q, hq, hbelow⟩ := List.any_eq_true.1 hover
    obtain ⟨hmem, hsub⟩ := List.mem_filter.1 hq
    obtain ⟨hne, hown⟩ := Bool.and_eq_true_iff.1 hbelow
    have hne : q.name ≠ proto := by simpa using hne
    have hget : (p.analyze library).hierarchy.get? q.name = some q :=
      Hierarchy.get?_of_mem Hierarchy.nodup_names_build hmem
    have huser := Hierarchy.isBuiltin_of_overrides hget hsub hne hown
      (Option.isSome_iff_exists.2 ⟨info, hinfo⟩)
    obtain ⟨info', hown⟩ := Option.isSome_iff_exists.1 hown
    have howner : info'.owner = q.name :=
      Hierarchy.owner_of_mem_methods hmem (Hierarchy.of_method? hown).1
    have hopen' : ∀ q', (p.analyze library).hierarchy.get? info'.owner = some q' →
        q'.isBuiltin → q'.isSealed = false := by
      intro q' hget' hbuiltin
      rw [howner] at hget'
      cases hget.symm.trans hget'
      cases huser.symm.trans hbuiltin
    obtain ⟨body, hbody, himplements'⟩ :=
      methodBody?_of_method? hclean hfree hm (Hierarchy.method?_of_own hget hown) hopen'
    refine ⟨layoutOf (p.analyze library).hierarchy q, ?_, ?_⟩
    · refine List.mem_filter.2 ⟨hlay ▸ List.mem_map_of_mem hmem, Bool.and_eq_true_iff.2 ⟨?_, ?_⟩⟩
      · exact bne_iff_ne.2 hne
      · rw [hsubtype]
        exact hsub
    · rw [show (layoutOf (p.analyze library).hierarchy q).name = q.name from rfl, hbody, Option.any_some,
        bne_iff_ne, himplements.cName_eq hclean hnames, himplements'.cName_eq hclean hnames, howner]
      intro hcName
      obtain ⟨_, b, hb, _⟩ := himplements
      have hsame := memberOf_left_inj (isIdentifier_of_get? hclean hnames hget)
        (isIdentifier_of_get? hclean hnames hb) hcName
      exact hne (Hierarchy.eq_of_isSubtype hsub (hsame ▸ Hierarchy.isSubtype_owner hinfo))

end

omit hm in
/-- What is looked up in the module of a program without problems is what was looked up when the program was
checked, if the names of the program are identifiers. That holds for ancestors, subtypes and the types of
fields, and for every method that is not one of a sealed built-in prototype: for the body that a call runs,
for whether the receiver decides on it, and, where it does not, for the method found from every subtype. -/
theorem index_agrees_of_isClean (hnames : ∀ x ∈ p.declaredNames, isIdentifier x)
    (hm : (p.analyze library).program.lower (p.analyze library).hierarchy moduleName = .ok m)
    (proto child field name : String) :
    ancestors m proto = ((p.analyze library).hierarchy.ancestors proto).map (·.name) ∧
      isSubtype m child proto = (p.analyze library).hierarchy.isSubtype child proto ∧
      (fieldType m proto field).toOption =
        ((p.analyze library).hierarchy.field? proto field).map (·.ty) ∧
      ∀ info, (p.analyze library).hierarchy.method? proto name = some info →
        (∀ q, (p.analyze library).hierarchy.get? info.owner = some q →
          q.isBuiltin → q.isSealed = false) →
        (∃ body, methodBody m proto name = .ok body ∧
          Implements (p.analyze library).program (p.analyze library).hierarchy m name info body) ∧
        needsDispatch m proto name = (p.analyze library).hierarchy.isOverriddenBelow proto name ∧
        ((p.analyze library).hierarchy.isOverriddenBelow proto name = false →
          (p.analyze library).hierarchy.isSubtype child proto →
          (p.analyze library).hierarchy.method? child name =
            (p.analyze library).hierarchy.method? proto name) := by
  have hlay := layouts_eq hclean hm
  refine ⟨ancestors_eq Hierarchy.nodup_names_build hlay proto,
    isSubtype_eq Hierarchy.nodup_names_build hlay child proto,
    fieldType_eq (Program.passes_decls hclean).1 hlay proto field, fun info hinfo hopen => ⟨?_, ?_, ?_⟩⟩
  · obtain ⟨body, hbody, himplements⟩ :=
      methodBody?_of_method? hclean (colonFree_of_isIdentifier hnames) hm hinfo hopen
    exact ⟨body, by rw [methodBody, hbody], himplements⟩
  · exact needsDispatch_eq hclean hnames hm hinfo hopen
  · exact fun hover hsub => Hierarchy.method?_of_not_overridden hsub hover

end

/-- A square is a shape with an area of its own. -/
def squares : Program where
  file := "squares.pss"
  imports := []
  decls :=
    [ .prototype ⟨"Shape", none, false, [⟨"name", .string, false, none, .everyone, .origin⟩],
        [⟨.everyone, ⟨"area", [], .int, [.ret .origin (some (.literal {} (.int 0)))], .origin⟩⟩],
        .origin⟩,
      .prototype ⟨"Square", some "Shape", false, [⟨"side", .int, false, none, .everyone, .origin⟩],
        [⟨.everyone, ⟨"area", [], .int, [.ret .origin (some (.member {} (.self {}) "side"))], .origin⟩⟩],
        .origin⟩ ]

/-- The area of a shape depends on the receiver, that of a square does not. -/
theorem index_agrees_squares :
    ∃ m, (squares.analyze ⟨[]⟩).isClean ∧ (∀ x ∈ squares.declaredNames, isIdentifier x) ∧
      (squares.analyze ⟨[]⟩).program.lower (squares.analyze ⟨[]⟩).hierarchy "squares" = .ok m ∧
      ancestors m "Square" = ["Square", "Shape", "Object"] ∧ isSubtype m "Square" "Shape" ∧
      (fieldType m "Square" "name").toOption = some .string ∧
      needsDispatch m "Shape" "area" = true ∧ needsDispatch m "Square" "area" = false ∧
      (∃ body, methodBody m "Square" "area" = .ok body ∧ body.ret = .int) ∧
      ∃ body, methodBody m "Square" "clone" = .ok body ∧ body.ret = .named "Object" := by
  have hclean : (squares.analyze ⟨[]⟩).isClean := by decide +kernel
  have hnames : ∀ x ∈ squares.declaredNames, isIdentifier x := by decide +kernel
  have hok : ((squares.analyze ⟨[]⟩).program.lower (squares.analyze ⟨[]⟩).hierarchy
      "squares").toOption.isSome := by decide +kernel
  obtain ⟨m, hm⟩ : ∃ m, (squares.analyze ⟨[]⟩).program.lower (squares.analyze ⟨[]⟩).hierarchy
      "squares" = .ok m := by
    cases hlower : (squares.analyze ⟨[]⟩).program.lower (squares.analyze ⟨[]⟩).hierarchy "squares" with
    | ok m => exact ⟨m, rfl⟩
    | error e =>
        rw [hlower] at hok
        cases hok
  have hopen : ∀ o ∈ ["Shape", "Square", "Object"],
      ((squares.analyze ⟨[]⟩).hierarchy.get? o).all fun q => !q.isSealed := by decide +kernel
  have hopen' : ∀ o ∈ ["Shape", "Square", "Object"], ∀ q,
      (squares.analyze ⟨[]⟩).hierarchy.get? o = some q → q.isBuiltin → q.isSealed = false := by
    intro o ho q hq _
    have hall := hopen o ho
    rw [hq] at hall
    simpa using hall
  obtain ⟨_, hsub, _, hshape⟩ := index_agrees_of_isClean hclean hnames hm "Shape" "Square" "name" "area"
  obtain ⟨hancestors, _, hfield, hsquare⟩ :=
    index_agrees_of_isClean hclean hnames hm "Square" "Square" "name" "area"
  obtain ⟨_, _, _, hclone⟩ := index_agrees_of_isClean hclean hnames hm "Square" "Square" "name" "clone"
  obtain ⟨_, hshape, _⟩ := hshape ⟨"area", [], .int, .everyone, "Shape"⟩ (by decide +kernel)
    (hopen' _ (by simp))
  obtain ⟨⟨body, hbody, hret, _⟩, hsquare, _⟩ :=
    hsquare ⟨"area", [], .int, .everyone, "Square"⟩ (by decide +kernel) (hopen' _ (by simp))
  obtain ⟨⟨cloned, hcloned, hclonedRet, _⟩, _⟩ :=
    hclone ⟨"clone", [], .named "Object", .everyone, "Object"⟩ (by decide +kernel) (hopen' _ (by simp))
  refine ⟨m, hclean, hnames, hm, hancestors.trans (by decide +kernel), hsub.trans (by decide +kernel),
    hfield.trans (by decide +kernel), hshape.trans (by decide +kernel),
    hsquare.trans (by decide +kernel), ⟨body, hbody, hret⟩, cloned, hcloned, hclonedRet⟩

end C

end ProtoScript
