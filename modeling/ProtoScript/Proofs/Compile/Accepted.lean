import ProtoScript.Compile.Basic
import ProtoScript.Proofs.Analysis.Globals
import ProtoScript.Proofs.C.Dispatch
import ProtoScript.Proofs.Lowering.Accepted
import ProtoScript.Proofs.Lowering.WellFormed
import ProtoScript.Proofs.Optimize.Valid

set_option autoImplicit false

/-!
# Programs that compile

The functions of a program without problems have different names in its module, if no name has a colon in it
(`nodup_symbols`), so the module is valid. Then a program can be refused behind the checker only for what
lowering does not take, or when C is generated (`toIr_of_isClean`).
-/

namespace ProtoScript

namespace Program

variable {p : Program} {library : Library}

/-- Where no name has a colon, the functions and methods of a program without problems have different names
in the module. -/
theorem nodup_symbols (hclean : (p.analyze library).isClean) (hfree : p.ColonFree) :
    (p.bodies.map fun q => Lowering.symbolOf q.1 q.2).Nodup := by
  have hhierarchy := (passes_decls hclean).1
  -- two declarations of one kind have different names
  have hfunctions := List.pairwise_filterMap.1 (List.pairwise_map.1 (functions_context hclean).2)
  have hprototypes := List.pairwise_filterMap.1 (List.pairwise_map.1 (Hierarchy.nodup_names_decls hhierarchy))
  have hcolon : ∀ {d}, Decl.prototype d ∈ p.decls → ':' ∉ d.name.toList := fun hd =>
    hfree _ (List.mem_append_right _ (List.mem_map_of_mem (List.mem_filterMap.2 ⟨_, hd, rfl⟩)))
  have hcolon' : ∀ {f}, Decl.function f ∈ p.decls → ':' ∉ f.name.toList := fun hf =>
    hfree _ (List.mem_append_left _ (List.mem_map_of_mem (List.mem_filterMap.2 ⟨_, hf, rfl⟩)))
  rw [bodies_eq, List.map_flatMap, List.nodup_flatMap]
  refine ⟨fun decl hdecl => ?_, (hfunctions.and hprototypes).imp_of_mem ?_⟩
  · cases decl with
    | function f => exact List.nodup_singleton _
    | prototype d =>
        have hmethods := PrototypeDecl.nodup_methods
          (Hierarchy.repeatedMembers_eq_nil hhierarchy (List.mem_filterMap.2 ⟨_, hdecl, rfl⟩))
        have hnames : (bodiesOf (.prototype d)).map (fun q => Lowering.symbolOf q.1 q.2) =
            (d.methods.map (·.function.name)).map (Ir.methodName d.name) := by
          simp only [bodiesOf, List.map_map]
          rfl
        rw [hnames]
        exact hmethods.map fun name name' heq => (C.methodName_inj (hcolon hdecl) (hcolon hdecl) heq).2
    | group g => exact List.nodup_nil
  · rintro decl decl' hdecl hdecl' ⟨hf, hd⟩ name hname hname'
    obtain ⟨q, hq, rfl⟩ := List.mem_map.1 hname
    obtain ⟨q', hq', heq⟩ := List.mem_map.1 hname'
    cases decl <;> cases decl'
    case function.function f f' =>
      obtain rfl := List.mem_singleton.1 hq
      obtain rfl := List.mem_singleton.1 hq'
      exact hf f rfl f' rfl heq.symm
    case prototype.prototype d d' =>
      obtain ⟨m, _, rfl⟩ := List.mem_map.1 hq
      obtain ⟨m', _, rfl⟩ := List.mem_map.1 hq'
      exact hd d rfl d' rfl (C.methodName_inj (hcolon hdecl) (hcolon hdecl') heq.symm).1
    case function.prototype f d =>
      obtain rfl := List.mem_singleton.1 hq
      obtain ⟨m, _, rfl⟩ := List.mem_map.1 hq'
      exact C.ne_methodName (hcolon' hdecl) (hcolon hdecl') heq.symm
    case prototype.function d f =>
      obtain ⟨m, _, rfl⟩ := List.mem_map.1 hq
      obtain rfl := List.mem_singleton.1 hq'
      exact C.ne_methodName (hcolon' hdecl') (hcolon hdecl) heq
    all_goals first | exact absurd hq List.not_mem_nil | exact absurd hq' List.not_mem_nil

/-- The module of a program without problems and without colons in its names is valid. -/
theorem isValid_of_isClean (hclean : (p.analyze library).isClean) (hfree : p.ColonFree) {moduleName : String}
    {m : Ir.Module}
    (hm : (p.analyze library).program.lower (p.analyze library).hierarchy moduleName = .ok m) : m.isValid := by
  obtain ⟨_, hfunctions⟩ := functions_of_lower (fun _ hd => accepts_analyze hclean hd) hm
  refine (Ir.Module.isValid_iff m).2 ⟨fun F hF => ?_, ?_⟩
  · obtain ⟨q, _, hlowers⟩ := exists_of_forall₂ hfunctions hF
    exact Lowering.wellFormed_of_lowerFunction hlowers
  · have hnames : ∀ {qs qs' : List (Option String × FunctionDecl)} {Fs : List Ir.Function},
        List.Forall₂ (fun q q' => q'.1 = q.1 ∧ q.2.SameHead q'.2) qs qs' →
        List.Forall₂ (Lowering.LowersTo (p.analyze library).hierarchy (p.analyze library).program.prototypes)
          qs' Fs → Fs.map Ir.Function.name = qs.map fun q => Lowering.symbolOf q.1 q.2 := by
      intro qs qs' Fs hsame hlowers
      induction hsame generalizing Fs with
      | nil =>
          cases hlowers
          rfl
      | cons hfirst _ ih =>
          cases hlowers with
          | cons hF hrest =>
              obtain ⟨hproto, body, hhead⟩ := hfirst
              rw [List.map_cons, List.map_cons, ih hrest, (Lowering.head_of_lowerFunction hF).1, hproto, hhead]
              rfl
    rw [hnames (bodies_analyze hclean) hfunctions]
    exact nodup_symbols hclean hfree

/-- A program without problems is compiled to a module, unless calls are inlined and the numbers of temporaries
run out. -/
theorem toIr_of_isClean {o : Options} (ho : o.defect? = none) (hclean : (p.analyze library).isClean)
    (hfree : p.ColonFree) (hp : (p.analyze library).program.Lowerable (p.analyze library).hierarchy) :
    (∃ r, p.toIr library o = .ok r) ∨
      (o.optLevel = .full ∧ p.toIr library o = .error .outOfNumbers) := by
  obtain ⟨m, hm⟩ := exists_lower hclean hp o.moduleName
  have hvalid := isValid_of_isClean hclean hfree hm
  have htoIr : p.toIr library o = lowerOptimized (p.analyze library) o := by
    unfold toIr
    rw [ho]
    exact if_pos hclean
  simp only [htoIr, lowerOptimized, hm]
  cases hoptimize : m.optimize? o.optLevel with
  | none =>
      refine .inr ⟨?_, rfl⟩
      by_contra hlevel
      obtain ⟨m', stats, hsome⟩ := Ir.Module.exists_optimize? (m := m) fun h => absurd h hlevel
      rw [hoptimize] at hsome
      cases hsome
  | some r =>
      have hvalid' := Ir.Module.valid_optimize? hoptimize hvalid
      exact .inl ⟨r, if_pos hvalid'⟩

/-- A function that makes a counter and counts up to a number. -/
def counting : Program where
  file := "counting.ps"
  imports := []
  decls :=
    [ .prototype ⟨"Counter", none, false,
        [⟨"count", .int, false, some (.literal {} (.int 0)), .everyone, .origin⟩], [], .origin⟩,
      .function
        { name := "countTo", params := [⟨"n", .int, .origin⟩], ret := .named "Counter"
          body :=
            [.varDecl .origin "c" (.named "Counter") false (some (.ident {} "Counter")),
              .for .origin (some (.varDecl .origin "i" .int false (some (.literal {} (.int 0)))))
                (some (.binary {} .less (.ident {} "i") (.ident {} "n")))
                (some (.assign .origin (.ident {} "i") (some .add) (.literal {} (.int 1))))
                [.assign .origin (.member {} (.ident {} "c") "count") (some .add) (.literal {} (.int 1))],
              .ret .origin (some (.ident {} "c"))] } ]

theorem lowerable_counting :
    (counting.analyze ⟨[]⟩).program.Lowerable (counting.analyze ⟨[]⟩).hierarchy where
  valued := by decide +kernel
  orderly := by decide +kernel
  ends := by
    have hbodies : ∀ q ∈ (counting.analyze ⟨[]⟩).program.bodies,
        ∀ proto ∈ stmtsInstances q.2.body, proto = "Counter" := by decide +kernel
    have hfields : Lowering.initialized (counting.analyze ⟨[]⟩).hierarchy "Counter" =
        [⟨"count", .int, false, true, .everyone, "Counter"⟩] := by decide +kernel
    intro q hq proto hproto
    rw [hbodies q hq proto hproto]
    -- the initial value of the only field asks for no instance
    refine Acc.intro _ fun needed ⟨f, hf, e, he, hneeded⟩ => ?_
    rw [hfields, List.mem_singleton] at hf
    subst hf
    cases he
    cases hneeded

theorem toIr_of_isClean_counting :
    ({} : Options).defect? = none ∧ (counting.analyze ⟨[]⟩).isClean ∧ counting.ColonFree ∧
      (counting.analyze ⟨[]⟩).program.Lowerable (counting.analyze ⟨[]⟩).hierarchy ∧
      ((∃ r, counting.toIr ⟨[]⟩ {} = .ok r) ∨
        (({} : Options).optLevel = .full ∧ counting.toIr ⟨[]⟩ {} = .error .outOfNumbers)) := by
  have hclean : (counting.analyze ⟨[]⟩).isClean := by decide +kernel
  have hfree : counting.ColonFree := by decide +kernel
  exact ⟨rfl, hclean, hfree, lowerable_counting, toIr_of_isClean rfl hclean hfree lowerable_counting⟩

end Program

end ProtoScript
