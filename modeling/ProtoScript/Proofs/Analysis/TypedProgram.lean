import ProtoScript.Analysis.Program
import ProtoScript.Proofs.Analysis.TypedStmt
import ProtoScript.Proofs.Lookup
import ProtoScript.Proofs.Source.Nodes

set_option autoImplicit false

/-!
# Programs without problems obey the rules

Every declaration of a program in which no problem was found obeys the rules
(`Program.typed_of_isClean`). A prototype is looked into only if its declaration is the one that was
registered; without a problem every declaration is.

An expression that obeys the rules looks at a receiver only in a method. The initial values of fields are
computed outside of every method, so they look at none (`Program.selfless_of_isClean`).
-/

namespace ProtoScript

namespace Analysis

variable {c : Context} {s s' : State}

/-! ## Functions -/

/-- A name that can be bound is new to the innermost scope. -/
theorem define_shape {x : String} {b : Binding} {kind : ScopeKind} {types : List (String × Ty)}
    (h : define x b c s = (none, s')) (hshape : s.scopes.shape = [(kind, types)]) :
    x ∉ types.map Prod.fst ∧ s'.scopes.shape = [(kind, types ++ [(x, b.ty)])] := by
  rw [define_eq] at h
  cases hdefine : s.scopes.define x b with
  | error previous =>
      rw [hdefine] at h
      cases h
  | ok scopes =>
      rw [hdefine] at h
      cases h
      rcases Scopes.define_eq_ok hdefine with ⟨hs, _⟩ | ⟨scope, outer, hs, hnew, rfl⟩
      · rw [hs] at hshape
        cases hshape
      · rw [hs] at hshape
        obtain ⟨hscope, houter⟩ := List.cons.inj hshape
        obtain ⟨rfl, rfl⟩ := Prod.mk.inj hscope
        refine ⟨?_, ?_⟩
        · have hlookup : scope.types.lookup x = none := by
            rw [lookup_scopeTypes, hnew]
            rfl
          exact lookup_eq_none_iff.1 hlookup
        · refine congrArg₂ List.cons ?_ houter
          simp [Scope.shape, Scope.types]

/-- Parameters that pass have known types and different names, and are bound in order. -/
theorem passes_params {params : List Param} {kind : ScopeKind} {types : List (String × Ty)} {u : Unit}
    (h : Passes (checkParams params) c s u s') (hshape : s.scopes.shape = [(kind, types)])
    (hnodup : (types.map Prod.fst).Nodup) :
    s'.scopes.shape = [(kind, types ++ paramTypes params)] ∧
      ((types ++ paramTypes params).map Prod.fst).Nodup ∧
      ∀ p ∈ params, unknownPrototype? c.hierarchy p.ty = none := by
  obtain ⟨h, hsilent⟩ := h
  induction params generalizing s types with
  | nil =>
      cases h
      simpa [paramTypes] using ⟨hshape, hnodup⟩
  | cons p rest ih =>
      obtain ⟨_, s₁, h₁, h⟩ := run_step h
      obtain ⟨previous, s₂, h₂, h⟩ := run_step h
      have l₁ := (namesKept.keeps_checkTy p.ty p.span).count_le h₁
      have l₂ := define_count h₂
      have hshape₁ : s₁.scopes.shape = [(kind, types)] := by
        have hkeeps := (namesKept.keeps_checkTy p.ty p.span c s).shape
        rw [h₁] at hkeeps
        exact hkeeps.trans hshape
      cases previous with
      | some previous =>
          obtain ⟨_, s₃, h₃, h⟩ := run_step h
          have l₃ := count_lt_of_report h₃
          have l₄ := (namesKept.grows_checkParams rest).count_le h
          omega
      | none =>
          have l₃ := (namesKept.grows_checkParams rest).count_le h
          obtain ⟨hnew, hshape₂⟩ := define_shape h₂ hshape₁
          have hnodup₂ : ((types ++ [(p.name, p.ty)]).map Prod.fst).Nodup := by
            rw [List.map_append, List.nodup_append]
            refine ⟨hnodup, by simp, ?_⟩
            rintro x hx y hy rfl
            obtain rfl : x = p.name := by simpa using hy
            exact hnew hx
          obtain ⟨hshape', hnodup', hknown⟩ := ih hshape₂ hnodup₂ h (by omega)
          refine ⟨by simpa [paramTypes] using hshape', by simpa [paramTypes] using hnodup', ?_⟩
          rintro q (_ | ⟨_, hq⟩)
          · exact (checkTy_silent h₁ (by omega)).1
          · exact hknown q hq

/-- The parts of a function that are checked, and the states they are checked in. -/
theorem passes_function_parts {proto? : Option String} {f f' : FunctionDecl}
    (h : Passes (checkFunction proto? f) c s f' s') :
    ∃ s₁ body s₂, unknownPrototype? c.hierarchy f.ret = none ∧
      Passes (checkParams f.params) { c with proto?, ret := f.ret } (s.enter .function) () s₁ ∧
      Passes (checkStmts f.body) { c with proto?, ret := f.ret } s₁ body s₂ ∧ f' = { f with body } := by
  obtain ⟨h, hsilent⟩ := h
  have hrun : (checkTy f.ret f.span >>= fun _ => inScope .function (do
      checkParams f.params
      let body ← checkStmts f.body
      expect (f.ret.isVoid || alwaysLeaves f.body) (.missingReturn f.name f.ret) f.span
      return { f with body })) { c with proto?, ret := f.ret } s = (f', s') := h
  obtain ⟨_, s₁, h₁, hrest⟩ := run_step hrun
  have hkeeps : Keeps (inScope .function (do
      checkParams f.params
      let body ← checkStmts f.body
      expect (f.ret.isVoid || alwaysLeaves f.body) (.missingReturn f.name f.ret) f.span
      return { f with body })) :=
    Grows.inScope ((namesKept.grows_checkParams _).bind fun _ => (grows_checkStmts _).bind fun _ =>
      (namesKept.keeps_expect _ _ _).grows.bind fun _ => (keeps_pure _).grows) _
  have l₁ := (namesKept.keeps_checkTy f.ret f.span).count_le h₁
  have l₂ := hkeeps.count_le hrest
  obtain ⟨hret, _, rfl⟩ := checkTy_silent h₁ (by omega)
  obtain ⟨t, ⟨hinner, hle⟩, _⟩ := Passes.inScope ⟨hrest, by omega⟩
  obtain ⟨_, s₃, h₃, hinner⟩ := run_step hinner
  obtain ⟨body, s₄, h₄, hinner⟩ := run_step hinner
  obtain ⟨_, s₅, h₅, hinner⟩ := run_step hinner
  cases hinner
  have l₃ := (namesKept.grows_checkParams f.params).count_le h₃
  have l₄ := (grows_checkStmts f.body).count_le h₄
  have l₅ := (namesKept.keeps_expect _ _ _).count_le h₅
  exact ⟨s₃, body, s₄, hret, ⟨h₃, by omega⟩, ⟨h₄, by omega⟩, rfl⟩

theorem passes_function {proto? : Option String} {f f' : FunctionDecl}
    (h : Passes (checkFunction proto? f) c s f' s') (hscopes : s.scopes.shape = []) :
    f'.Typed c proto? := by
  obtain ⟨s₁, body, s₂, hret, hparams, hbody, rfl⟩ := passes_function_parts h
  have hshape : (s.enter .function).scopes.shape = [(.function, [])] := congrArg _ hscopes
  obtain ⟨hshape₁, hnodup, hknown⟩ := passes_params hparams hshape List.nodup_nil
  rw [List.nil_append] at hshape₁ hnodup
  rw [map_fst_paramTypes] at hnodup
  have hs₁ : Around false false [paramTypes f.params] s₁.scopes := by
    refine ⟨?_, hparams.within (namesKept.grows_checkParams _) _, hparams.within (namesKept.grows_checkParams _) _⟩
    unfold Views
    rw [hshape₁]
    exact .cons (fun _ => rfl) .nil
  exact ⟨hnodup, hknown, hret, (sound_stmts f.body hbody hs₁).1⟩

/-! ## Prototypes -/

theorem passes_field {proto : String} {f f' : FieldDecl} (h : Passes (checkField proto f) c s f' s')
    (hscopes : s.scopes.shape = []) : f'.Typed c := by
  obtain ⟨h, hsilent⟩ := h
  obtain ⟨known, s₁, h₁, hrest⟩ := run_step h
  obtain ⟨_, s₂, h₂, hrest⟩ := run_step hrest
  have l₁ := (namesKept.keeps_checkTy f.ty f.span).count_le h₁
  have l₂ := (namesKept.keeps_expect _ _ _).count_le h₂
  cases hinit : f.init with
  | none =>
      simp only [hinit] at hrest
      cases hrest
      exact ⟨(checkTy_silent h₁ (by omega)).1, by rw [hinit]; exact nofun⟩
  | some e =>
      simp only [hinit] at hrest
      have hrun : (inScope .function (checkAgainst (if known then some f.ty else none) e) >>= fun e =>
          pure { f with init := some e }) { c with proto? := none } s₂ = (f', s') := hrest
      obtain ⟨e', s₃, h₃, hpure⟩ := run_step hrun
      cases hpure
      have l₃ := ((namesKept.looks_checkAgainst _ e).grows.inScope _).count_le h₃
      obtain ⟨hty, rfl, rfl⟩ := checkTy_silent h₁ (by omega)
      obtain ⟨_, rfl⟩ := expect_silent h₂ (by omega)
      obtain ⟨t, hstored, _⟩ := Passes.inScope ⟨h₃, by omega⟩
      refine ⟨hty, ?_⟩
      rintro e₀ ⟨⟩
      refine passes_stored hstored ?_
      unfold Views
      rw [show (s₂.enter .function).scopes.shape = [(.function, [])] from congrArg _ hscopes]
      exact .cons (fun _ => rfl) .nil

/-- The results of a list of steps that leave the scopes, each from a state without scopes. -/
theorem passes_mapM_forall₂ {α β : Type} {f : α → Check β} (hf : ∀ a, Keeps (f a)) {l : List α} {l' : List β}
    (h : Passes (l.mapM f) c s l' s') (hscopes : s.scopes.shape = []) :
    List.Forall₂ (fun a b => ∃ s₁ s₂, Passes (f a) c s₁ b s₂ ∧ s₁.scopes.shape = []) l l' := by
  obtain ⟨h, hsilent⟩ := h
  induction l generalizing s l' with
  | nil =>
      rw [List.mapM_nil] at h
      cases h
      exact .nil
  | cons a rest ih =>
      rw [List.mapM_cons] at h
      obtain ⟨b', s₁, h₁, h⟩ := run_step h
      obtain ⟨rest', s₂, h₂, h⟩ := run_step h
      cases h
      have l₁ := (hf a).count_le h₁
      have l₂ := (namesKept.keeps_mapM hf rest).count_le h₂
      have hpasses : Passes (f a) c s b' s₁ := ⟨h₁, by omega⟩
      exact .cons ⟨s, s₁, hpasses, hscopes⟩ (ih ((hpasses.shape (hf a)).trans hscopes) h₂ (by omega))

/-- Every result of a list of steps that leave the scopes comes from one of them. -/
theorem passes_mapM {α β : Type} {f : α → Check β} (hf : ∀ a, Keeps (f a)) {l : List α} {l' : List β}
    (h : Passes (l.mapM f) c s l' s') (hscopes : s.scopes.shape = []) {b : β} (hb : b ∈ l') :
    ∃ a ∈ l, ∃ s₁ s₂, Passes (f a) c s₁ b s₂ ∧ s₁.scopes.shape = [] :=
  exists_of_forall₂ (passes_mapM_forall₂ hf h hscopes) hb

/-- The members of a prototype that are checked, each from a state without scopes. -/
theorem passes_prototype_parts {d d' : PrototypeDecl} (h : Passes (checkPrototype d) c s d' s')
    (haccepts : c.hierarchy.accepts d) (hscopes : s.scopes.shape = []) :
    d'.name = d.name ∧ d'.span = d.span ∧
      List.Forall₂ (fun f f' => ∃ s₁ s₂, Passes (checkField d.name f) c s₁ f' s₂ ∧ s₁.scopes.shape = [])
        d.fields d'.fields ∧
      List.Forall₂ (fun m m' => ∃ s₁ s₂,
        Passes (checkFunction (some d.name) m.function) c s₁ m'.function s₂ ∧ s₁.scopes.shape = [])
        d.methods d'.methods := by
  obtain ⟨h, hsilent⟩ := h
  obtain ⟨_, _, h₁, h⟩ := run_step h
  cases h₁
  rw [if_pos haccepts] at h
  obtain ⟨fields, s₁, h₁, h⟩ := run_step h
  obtain ⟨methods, s₂, h₂, h⟩ := run_step h
  cases h
  have hmethods : ∀ m : MethodDecl, Keeps (do
      return { m with function := ← checkFunction (some d.name) m.function } : Check MethodDecl) :=
    fun m => (namesKept.keeps_checkFunction _ _).bind fun _ => keeps_pure _
  have l₁ := (namesKept.keeps_mapM (namesKept.keeps_checkField d.name) d.fields).count_le h₁
  have l₂ := (namesKept.keeps_mapM hmethods d.methods).count_le h₂
  have hfields : Passes (d.fields.mapM (checkField d.name)) c s fields s₁ := ⟨h₁, by omega⟩
  have hscopes₁ := (hfields.shape (namesKept.keeps_mapM (namesKept.keeps_checkField d.name) d.fields)).trans hscopes
  refine ⟨rfl, rfl, passes_mapM_forall₂ (namesKept.keeps_checkField d.name) hfields hscopes,
    (passes_mapM_forall₂ hmethods ⟨h₂, by omega⟩ hscopes₁).imp ?_⟩
  rintro m m' ⟨t₁, t₂, ⟨hmethod, hle⟩, hscopes⟩
  obtain ⟨g, t₃, hg, hmethod⟩ := run_step hmethod
  cases hmethod
  exact ⟨t₁, t₂, ⟨hg, hle⟩, hscopes⟩

theorem passes_prototype {d d' : PrototypeDecl} (h : Passes (checkPrototype d) c s d' s')
    (haccepts : c.hierarchy.accepts d) (hscopes : s.scopes.shape = []) : d'.Typed c := by
  obtain ⟨hname, _, hfields, hmethods⟩ := passes_prototype_parts h haccepts hscopes
  refine ⟨fun f' hf' => ?_, fun m' hm' => ?_⟩
  · obtain ⟨f, _, s₁, s₂, hfield, hscopes⟩ := exists_of_forall₂ hfields hf'
    exact passes_field hfield hscopes
  · obtain ⟨m, _, s₁, s₂, hmethod, hscopes⟩ := exists_of_forall₂ hmethods hm'
    rw [hname]
    exact passes_function hmethod hscopes

theorem passes_decl {d d' : Decl} (h : Passes (checkDecl d) c s d' s')
    (haccepts : ∀ p, d = .prototype p → c.hierarchy.accepts p) (hscopes : s.scopes.shape = []) :
    d'.Typed c := by
  obtain ⟨h, hsilent⟩ := h
  cases d with
  | function f =>
      obtain ⟨f', s₁, h₁, h⟩ := run_step h
      cases h
      exact passes_function ⟨h₁, hsilent⟩ hscopes
  | prototype p =>
      obtain ⟨p', s₁, h₁, h⟩ := run_step h
      cases h
      exact passes_prototype ⟨h₁, hsilent⟩ (haccepts p rfl) hscopes
  | group g =>
      cases h
      trivial

end Analysis

/-! ## Registered prototypes -/

namespace Hierarchy

/-- What a declaration is recognized by. -/
def heads (h : Hierarchy) : List (String × Bool × Span) :=
  h.prototypes.map fun p => (p.name, p.isBuiltin, p.span)

/-- Whether a declaration is the one that was registered depends on the heads alone. -/
theorem accepts_eq (h : Hierarchy) (d : PrototypeDecl) :
    h.accepts d = (h.heads.find? fun p => p.1 == d.name).any fun p => !p.2.1 && p.2.2 == d.span := by
  unfold accepts get? heads
  rw [List.find?_map, Option.any_map]
  rfl

theorem heads_resolveParents (file : String) (h : Hierarchy) :
    (h.resolveParents file).1.heads = h.heads := by
  unfold resolveParents heads
  rw [List.map_map]
  refine List.map_congr_left fun p _ => ?_
  dsimp only [Function.comp_apply]
  split <;> rfl

theorem heads_moveBelowRoot (h : Hierarchy) (name : String) : (h.moveBelowRoot name).heads = h.heads := by
  unfold moveBelowRoot heads
  rw [List.map_map]
  refine List.map_congr_left fun p _ => ?_
  dsimp only [Function.comp_apply]
  split <;> rfl

theorem heads_breakCycles (file : String) (h : Hierarchy) (ps : List Prototype) :
    (breakCycles file h ps).1.heads = h.heads := by
  induction ps generalizing h with
  | nil => rfl
  | cons p rest ih =>
      rw [breakCycles]
      split
      · exact (ih _).trans (h.heads_moveBelowRoot p.name)
      · exact ih h

/-- Without a problem, registering keeps what was accepted and accepts every declaration. -/
theorem accepts_registerAll {file : String} {h : Hierarchy} {decls : List PrototypeDecl}
    (hclean : (registerAll file h decls).2 = []) :
    (∀ d, h.accepts d → (registerAll file h decls).1.accepts d) ∧
      ∀ d ∈ decls, (registerAll file h decls).1.accepts d := by
  induction decls generalizing h with
  | nil => exact ⟨fun _ hd => hd, nofun⟩
  | cons d rest ih =>
      rw [registerAll] at hclean ⊢
      obtain ⟨hhere, hrest⟩ := List.append_eq_nil_iff.1 hclean
      obtain ⟨hold, hall⟩ := ih hrest
      unfold register at hhere hold hall ⊢
      split at hhere
      · cases hhere
      split at hhere
      · cases hhere
      rename_i hbuiltin hnew
      rw [if_neg hbuiltin, if_neg hnew] at hold hall ⊢
      have happend : ∀ d', (⟨h.prototypes ++ [d.toPrototype]⟩ : Hierarchy).accepts d' =
          ((h.get? d'.name).or (if d.name == d'.name then some d.toPrototype else none)).any fun p =>
            !p.isBuiltin && p.span == d'.span := by
        intro d'
        unfold accepts get?
        rw [List.find?_append]
        cases hname : d.name == d'.name <;> simp [PrototypeDecl.toPrototype, hname]
      refine ⟨fun d' hd' => hold d' ?_, ?_⟩
      · rw [happend]
        unfold accepts at hd'
        cases hget : h.get? d'.name with
        | none =>
            rw [hget] at hd'
            cases hd'
        | some p =>
            rw [hget] at hd'
            exact hd'
      · rintro d' (_ | ⟨_, hd'⟩)
        · refine hold d ?_
          have hnone : h.get? d.name = none := by
            simpa [contains] using hnew
          rw [happend, hnone]
          simp [PrototypeDecl.toPrototype]
        · exact hall d' hd'

/-- Every declaration is the one that was registered if no problem was found. -/
theorem accepts_build {file : String} {decls : List PrototypeDecl} (hclean : (build file decls).2 = [])
    {d : PrototypeDecl} (hd : d ∈ decls) : (build file decls).1.accepts d := by
  unfold build at hclean ⊢
  simp only [List.append_eq_nil_iff] at hclean
  have haccepts := (accepts_registerAll hclean.1.1.1).2 d hd
  rw [accepts_eq] at haccepts ⊢
  rw [heads_breakCycles, heads_resolveParents]
  exact haccepts

end Hierarchy

/-! ## Programs -/

/-- What is known of a program when its declarations are checked. -/
def Program.context (p : Program) (library : Library) : Analysis.Context :=
  let imports := (resolveImports p.file p.imports library).1
  let table := p.groupTable (imports.constants library)
  let taken (name : String) : Bool :=
    Builtin.functions.contains name || p.hierarchy.1.contains name || table.1.contains name
  { file := p.file, hierarchy := p.hierarchy.1, library, imports, groups := table.1
    functions := (Analysis.collectFunctions p.file taken [] p.functions).1, consts := table.2.1 }

/-- The name is that of something else than a function of the program. -/
def Program.isTaken (p : Program) (library : Library) (name : String) : Bool :=
  Builtin.functions.contains name || p.hierarchy.1.contains name || (p.context library).groups.contains name

/-- The diagnostics of a program, part by part. -/
theorem Program.diagnostics_analyze (p : Program) (library : Library) :
    (p.analyze library).diagnostics = p.hierarchy.2 ++ (resolveImports p.file p.imports library).2 ++
      (p.groupTable ((p.context library).imports.constants library)).2.2 ++
      Analysis.groupClashes p.file p.hierarchy.1 p.groups ++
      (Analysis.collectFunctions p.file (p.isTaken library) [] p.functions).2 ++
      (p.decls.mapM Analysis.checkDecl (p.context library) {}).2.found := rfl

/-- In a program without problems none was found in any part of it. -/
theorem Program.found_eq_nil {p : Program} {library : Library} (hclean : (p.analyze library).isClean) :
    p.hierarchy.2 = [] ∧ (p.groupTable ((p.context library).imports.constants library)).2.2 = [] ∧
      (Analysis.collectFunctions p.file (p.isTaken library) [] p.functions).2 = [] ∧
      (p.decls.mapM Analysis.checkDecl (p.context library) {}).2.found = [] := by
  have hnil := List.isEmpty_iff.1 hclean
  rw [diagnostics_analyze] at hnil
  simp only [List.append_eq_nil_iff] at hnil
  obtain ⟨⟨⟨⟨⟨hhierarchy, _⟩, hgroups⟩, _⟩, hfunctions⟩, hdecls⟩ := hnil
  exact ⟨hhierarchy, hgroups, hfunctions, hdecls⟩

/-- The declarations of a program without problems are checked one after the other without a report, and
its prototypes have been registered without one. -/
theorem Program.passes_decls {p : Program} {library : Library} (hclean : (p.analyze library).isClean) :
    p.hierarchy.2 = [] ∧ ∃ s', Analysis.Passes (p.decls.mapM Analysis.checkDecl) (p.context library) {}
      (p.analyze library).program.decls s' := by
  obtain ⟨hhierarchy, _, _, hdecls⟩ := Program.found_eq_nil hclean
  exact ⟨hhierarchy, _, rfl, Nat.le_of_eq (congrArg List.length hdecls)⟩

/-- Every declaration of a program without problems comes from one that is checked without a report. -/
theorem Program.passes_decl_of_mem {p : Program} {library : Library}
    (hclean : (p.analyze library).isClean) {d' : Decl} (hd' : d' ∈ (p.analyze library).program.decls) :
    ∃ d ∈ p.decls, ∃ s s', Analysis.Passes (Analysis.checkDecl d) (p.context library) s d' s' ∧
      s.scopes.shape = [] ∧ ∀ q, d = .prototype q → (p.context library).hierarchy.accepts q := by
  obtain ⟨hhierarchy, s', hdecls⟩ := Program.passes_decls hclean
  obtain ⟨d, hd, s₁, s₂, hpasses, hscopes⟩ :=
    Analysis.passes_mapM Analysis.keeps_checkDecl hdecls rfl hd'
  refine ⟨d, hd, s₁, s₂, hpasses, hscopes, ?_⟩
  rintro q rfl
  exact Hierarchy.accepts_build hhierarchy (List.mem_filterMap.2 ⟨_, hd, rfl⟩)

/-- All declarations of a program in which no problem was found obey the rules. -/
theorem Program.typed_of_isClean {p : Program} {library : Library}
    (hclean : (p.analyze library).isClean) {d : Decl} (hd : d ∈ (p.analyze library).program.decls) :
    d.Typed (p.context library) := by
  obtain ⟨d₀, _, s, s', hpasses, hscopes, haccepts⟩ := Program.passes_decl_of_mem hclean hd
  exact Analysis.passes_decl hpasses haccepts hscopes

/-- The functions of a program, and the methods with the prototypes they belong to. -/
def Program.bodies (p : Program) : List (Option String × FunctionDecl) :=
  p.decls.flatMap fun
    | .function f => [(none, f)]
    | .prototype d => d.methods.map fun m => (some d.name, m.function)
    | .group _ => []

/-- Every function and method of a program without problems comes from one that is checked without a report,
from a state without scopes. -/
theorem Program.passes_body_of_mem {p : Program} {library : Library}
    (hclean : (p.analyze library).isClean) {proto? : Option String} {f' : FunctionDecl}
    (hf' : (proto?, f') ∈ (p.analyze library).program.bodies) :
    ∃ f, (proto?, f) ∈ p.bodies ∧ ∃ s s',
      Analysis.Passes (Analysis.checkFunction proto? f) (p.context library) s f' s' ∧ s.scopes = [] := by
  obtain ⟨d', hd', hf'⟩ := List.mem_flatMap.1 hf'
  obtain ⟨d, hd, s, s', ⟨hpasses, hsilent⟩, hscopes, haccepts⟩ := Program.passes_decl_of_mem hclean hd'
  cases d with
  | function f =>
      obtain ⟨f₁, s₁, h₁, hpasses⟩ := Analysis.run_step hpasses
      cases hpasses
      cases List.mem_singleton.1 hf'
      exact ⟨f, List.mem_flatMap.2 ⟨_, hd, List.mem_singleton_self _⟩, s, s', ⟨h₁, hsilent⟩,
        List.map_eq_nil_iff.1 hscopes⟩
  | prototype q =>
      obtain ⟨q', s₁, h₁, hpasses⟩ := Analysis.run_step hpasses
      cases hpasses
      obtain ⟨hname, _, _, hmethods⟩ :=
        Analysis.passes_prototype_parts ⟨h₁, hsilent⟩ (haccepts q rfl) hscopes
      obtain ⟨m', hm', heq⟩ := List.mem_map.1 hf'
      cases heq
      obtain ⟨m, hm, t₁, t₂, hmethod, hscopes⟩ := exists_of_forall₂ hmethods hm'
      rw [hname]
      exact ⟨m.function, List.mem_flatMap.2 ⟨_, hd, List.mem_map.2 ⟨m, hm, rfl⟩⟩, t₁, t₂, hmethod,
        List.map_eq_nil_iff.1 hscopes⟩
  | group g =>
      cases hpasses
      cases hf'

/-! ## Receivers -/

open Analysis

section

variable {c : Context} {Γ : TyEnv} {p : Expr → Prop}

mutual

/-- In an expression that obeys the rules there is a receiver only in a method. -/
theorem leaves_of_typed (hident : ∀ n x, p (.ident n x)) (hself : c.proto?.isSome → ∀ n, p (.self n)) :
    (e : Expr) → {τ : Ty} → e.Typed c Γ τ → e.Leaves p
  | .literal n v, _, _ => trivial
  | .ident n x, _, _ => hident n x
  | .self n, _, h => by
      cases h with
      | self hn hproto => exact hself (by rw [hproto]; rfl) n
  | .unary n op e, _, h => by
      cases h with
      | unary hn he _ => exact leaves_of_typed hident hself e he
  | .binary n op l r, _, h => by
      cases h with
      | binary hn hl hr _ => exact ⟨leaves_of_typed hident hself l hl, leaves_of_typed hident hself r hr⟩
  | .ternary n e a b, _, h => by
      cases h with
      | ternary hn he ha hb _ =>
          exact ⟨leaves_of_typed hident hself e he, leaves_of_typed hident hself a ha,
            leaves_of_typed hident hself b hb⟩
  | .call n name args, _, h => by
      have hleaves : ∀ types, List.Forall₂ (Expr.Typed c Γ) args types → AllLeaves p args :=
        fun _ hargs => allLeaves_of_typed hident hself args hargs
      cases h with
      | print hn hcall ha _ => exact hleaves _ (.cons ha .nil)
      | call hn hcall _ hargs _ => exact hleaves _ hargs
  | .methodCall n e method args, _, h => by
      have hreceiver := fun τ he => leaves_of_typed hident hself e (τ := τ) he
      cases h with
      | moduleCall hn hn' hcall hx hmodule hf hargs _ =>
          exact ⟨hident _ _, allLeaves_of_typed hident hself args hargs⟩
      | newInstance hn hcall _ he => exact ⟨hreceiver _ he, trivial⟩
      | methodCall hn hcall he _ hargs _ =>
          exact ⟨hreceiver _ he, allLeaves_of_typed hident hself args hargs⟩
  | .member n e name, _, h => by
      cases h with
      | constant hn hx howner hvalue _ => exact hident _ _
      | field hn hvalue he _ => exact leaves_of_typed hident hself e he
  | .index n e i, _, h => by
      cases h with
      | index hn he hi _ => exact ⟨leaves_of_typed hident hself e he, leaves_of_typed hident hself i hi⟩
  | .cast n e target, _, h => by
      cases h with
      | cast hn he _ _ => exact leaves_of_typed hident hself e he
  | .list n items, _, h => by
      cases h with
      | list hn hitems _ => exact allLeaves_of_typed hident hself items hitems
  | .map n entries, _, h => by
      cases h with
      | map hn hkeys hvalues _ _ _ => exact entryLeaves_of_typed hident hself entries hkeys hvalues

theorem allLeaves_of_typed (hident : ∀ n x, p (.ident n x)) (hself : c.proto?.isSome → ∀ n, p (.self n)) :
    (es : List Expr) → {types : List Ty} → List.Forall₂ (Expr.Typed c Γ) es types → AllLeaves p es
  | [], _, _ => trivial
  | e :: rest, _, .cons he hrest =>
      ⟨leaves_of_typed hident hself e he, allLeaves_of_typed hident hself rest hrest⟩

theorem entryLeaves_of_typed (hident : ∀ n x, p (.ident n x)) (hself : c.proto?.isSome → ∀ n, p (.self n)) :
    (entries : List (Expr × Expr)) → {keys values : List Ty} →
    List.Forall₂ (Expr.Typed c Γ) (entries.map Prod.fst) keys →
    List.Forall₂ (Expr.Typed c Γ) (entries.map Prod.snd) values → EntryLeaves p entries
  | [], _, _, _, _ => trivial
  | (key, value) :: rest, _, _, .cons hkey hkeys, .cons hvalue hvalues =>
      ⟨leaves_of_typed hident hself key hkey, leaves_of_typed hident hself value hvalue,
        entryLeaves_of_typed hident hself rest hkeys hvalues⟩

end

end

/-- The initial value of a field looks at no receiver. -/
theorem FieldDecl.Typed.selfless {c : Context} {f : FieldDecl} (h : f.Typed c) {e : Expr}
    (he : f.init = some e) : e.Leaves fun e => ∀ n, e ≠ .self n := by
  obtain ⟨τ, htyped, _⟩ := h.init e he
  refine leaves_of_typed (fun n x m hm => ?_) (fun hproto => ?_) e htyped
  · cases hm
  · cases hproto

/-- In a program without problems no initial value looks at a receiver. -/
theorem Program.selfless_of_isClean {p : Program} {library : Library}
    (hclean : (p.analyze library).isClean) {d : PrototypeDecl}
    (hd : d ∈ (p.analyze library).program.prototypes) {f : FieldDecl} (hf : f ∈ d.fields) {e : Expr}
    (he : f.init = some e) : e.Leaves fun e => ∀ n, e ≠ .self n := by
  obtain ⟨decl, hdecl, heq⟩ := List.mem_filterMap.1 hd
  cases decl with
  | prototype d' =>
      cases heq
      have htyped : d.Typed (p.context library) := Program.typed_of_isClean hclean hdecl
      exact (htyped.fields f hf).selfless he
  | function g => cases heq
  | group g => cases heq

end ProtoScript
