import ProtoScript.Proofs.Analysis.Globals

set_option autoImplicit false

/-!
# Declarations in another order

Checking a body asks what stands around it by name only, so it does the same where the same was declared in
another order (`blind`). In a program without problems every declaration is checked from the same state, and
what the names stand for does not depend on the order of the declarations; so there is no problem in any order, and
the declarations come out the same (`Program.Reordered.isClean`, `Program.Reordered.decls_analyze`). Groups are
evaluated one after the other, so they have to keep their places among each other.
-/

namespace ProtoScript

/-! ## Steps in another order -/

namespace Analysis

/-- The step does the same in contexts that are alike. -/
def Blind {α : Type} (m : Check α) : Prop := ∀ c c', c.Alike c' → m c = m c'

section

variable {α β : Type} {m : Check α} {f : α → Check β}

theorem blind_of_eq (h : ∀ c c' : Context, m c = m c') : Blind m := fun c c' _ => h c c'

theorem Blind.bind (hm : Blind m) (hf : ∀ a, Blind (f a)) : Blind (m >>= f) := by
  intro c c' h
  have hrest : (fun a => f a c) = fun a => f a c' := funext fun a => hf a c c' h
  calc
    (m >>= f) c = (m c >>= fun a => f a c) := rfl
    _ = (m c' >>= fun a => f a c') := by rw [hm c c' h, hrest]

/-- A question is answered alike. -/
theorem blind_read {f : Context → Check β} (hsame : ∀ c c', c.Alike c' → f c = f c')
    (hf : ∀ c, Blind (f c)) : Blind (read >>= f) := by
  intro c c' h
  calc
    (read >>= f) c = f c c := rfl
    _ = f c' c := by rw [hsame c c' h]
    _ = f c' c' := hf c' c c' h

end

theorem blind_report (problem : Problem) (span : Span) : Blind (report problem span) := by
  intro c c' h
  calc
    report problem span c = (modify fun s => { s with found := s.found ++ [problem.diagnose c.file span] } :
      Check Unit) c := rfl
    _ = report problem span c' := by rw [h.file]; rfl

theorem blind_reportName (problem : Problem) (span : Span) (name : String) (candidates : List String) :
    Blind (reportName problem span name candidates) := by
  intro c c' h
  calc
    reportName problem span name candidates c = (modify fun s => { s with found := s.found ++
      [(problem.diagnose c.file span).withSuggestions (suggest name candidates)] } : Check Unit) c := rfl
    _ = reportName problem span name candidates c' := by rw [h.file]; rfl

/-- No part of the checker heeds the order in which something was declared. -/
theorem blind : Discipline Blind Blind Blind where
  keeps h := h
  grows h := h
  looks_pure _ := blind_of_eq fun _ _ => rfl
  looks_bind := Blind.bind
  keeps_bind := Blind.bind
  grows_bind := Blind.bind
  looks_get := blind_of_eq fun _ _ => rfl
  looks_read := blind_read
  looks_report := blind_report
  looks_reportName := blind_reportName
  looks_modifyScopes _ := blind_of_eq fun _ _ => rfl
  keeps_modifyScopes _ := blind_of_eq fun _ _ => rfl
  grows_define name b := blind_of_eq fun c c' => funext fun s => by rw [define_eq, define_eq]
  inScope hm _ := (blind_of_eq fun _ _ => rfl).bind fun _ => hm.bind fun _ => blind_of_eq fun _ _ => rfl
  withReader hm hg c c' h := hm _ _ (hg c c' h)

/-! ## Declarations without problems -/

variable {c c' : Context} {ds ds' : List Decl}

/-- A declaration as it is checked by itself. -/
def checked (c : Context) (d : Decl) : Decl := (checkDecl d c {}).1

/-- Nothing is reported of a declaration. -/
def Passed (c : Context) (d : Decl) : Prop := (checkDecl d c {}).2.found = []

/-- A declaration of which nothing is reported leaves the state as it was. -/
theorem checkDecl_of_passed {d : Decl} (h : Passed c d) : checkDecl d c {} = (checked c d, {}) := by
  have hscopes : (checkDecl d c {}).2.scopes = [] := List.map_eq_nil_iff.1 (keeps_checkDecl d c {}).shape
  refine Prod.ext rfl ?_
  unfold Passed at h
  generalize (checkDecl d c {}).2 = s at h hscopes
  obtain ⟨scopes, found⟩ := s
  cases h
  cases hscopes
  rfl

theorem mapM_checkDecl_cons {d : Decl} (h : Passed c d) :
    (d :: ds).mapM checkDecl c {} = (checked c d :: (ds.mapM checkDecl c {}).1, (ds.mapM checkDecl c {}).2) := by
  calc
    (d :: ds).mapM checkDecl c {} = (do
        let d' ← checkDecl d
        let ds' ← ds.mapM checkDecl
        return d' :: ds' : Check (List Decl)) c {} := by rw [List.mapM_cons]
    _ = (fun r : Decl × State => ((r.1 :: (ds.mapM checkDecl c r.2).1), (ds.mapM checkDecl c r.2).2))
        (checkDecl d c {}) := rfl
    _ = (checked c d :: (ds.mapM checkDecl c {}).1, (ds.mapM checkDecl c {}).2) := by
      rw [checkDecl_of_passed h]

/-- Declarations of which nothing is reported are checked each by itself. -/
theorem mapM_checkDecl_of_passed (h : ∀ d ∈ ds, Passed c d) :
    ds.mapM checkDecl c {} = (ds.map (checked c), {}) := by
  induction ds with
  | nil => rfl
  | cons d rest ih =>
      rw [mapM_checkDecl_cons (h d List.mem_cons_self), ih fun e he => h e (List.mem_cons_of_mem _ he),
        List.map_cons]

theorem passed_of_mapM_checkDecl (h : (ds.mapM checkDecl c {}).2.found = []) : ∀ d ∈ ds, Passed c d := by
  induction ds with
  | nil => exact fun d hd => absurd hd List.not_mem_nil
  | cons d rest ih =>
      -- What is reported first is not taken back.
      have hmore : (checkDecl d c {}).2.found <+: ((d :: rest).mapM checkDecl c {}).2.found := by
        rw [List.mapM_cons]
        exact (namesKept.keeps_mapM keeps_checkDecl rest c (checkDecl d c {}).2).found
      rw [h] at hmore
      have hfirst : Passed c d := List.prefix_nil.1 hmore
      rw [mapM_checkDecl_cons hfirst] at h
      exact List.forall_mem_cons.2 ⟨hfirst, ih h⟩

/-- What is reported of a declaration is the same in contexts that are alike, and so is what becomes of it. -/
theorem checked_of_alike (h : c.Alike c') : checked c = checked c' := by
  funext d
  rw [checked, checked, blind.keeps_checkDecl d c c' h]

theorem passed_of_alike (h : c.Alike c') {d : Decl} (hd : Passed c d) : Passed c' d := by
  rwa [Passed, ← blind.keeps_checkDecl d c c' h]

/-! ## Functions -/

section

variable {file : String} {taken : String → Bool} {known fs : List FunctionDecl}

/-- Where no function is reported no name is taken. -/
theorem free_of_collectFunctions (hclean : (collectFunctions file taken known fs).2 = []) :
    ∀ f ∈ fs, taken f.name = false := by
  induction fs generalizing known with
  | nil => exact fun f hf => absurd hf List.not_mem_nil
  | cons f rest ih =>
      rw [collectFunctions] at hclean
      by_cases hknown : (known.any fun g => g.name == f.name) = true
      · rw [if_pos hknown] at hclean
        cases hclean
      · rw [if_neg hknown] at hclean
        dsimp only at hclean
        by_cases htaken : taken f.name = true
        · rw [if_pos htaken] at hclean
          cases hclean
        · rw [if_neg htaken] at hclean
          exact List.forall_mem_cons.2 ⟨Bool.eq_false_iff.2 htaken, ih hclean⟩

/-- Functions with names of their own that are not taken are all known. -/
theorem collectFunctions_of_free (hnodup : ((known ++ fs).map (·.name)).Nodup)
    (hfree : ∀ f ∈ fs, taken f.name = false) : collectFunctions file taken known fs = (known ++ fs, []) := by
  induction fs generalizing known with
  | nil => rw [collectFunctions, List.append_nil]
  | cons f rest ih =>
      have hnew : ¬ (known.any fun g => g.name == f.name) = true := by
        intro hany
        obtain ⟨g, hg, hname⟩ := List.any_eq_true.1 hany
        rw [List.map_append, List.nodup_append] at hnodup
        exact hnodup.2.2 g.name (List.mem_map_of_mem hg) f.name (by simp) (beq_iff_eq.1 hname)
      have hfirst : ¬ taken f.name = true := by simp [hfree f]
      have hrest := ih (by rwa [List.append_cons] at hnodup) fun g hg => hfree g (List.mem_cons_of_mem _ hg)
      rw [collectFunctions, if_neg hnew, hrest, ← List.append_cons]
      exact if_neg hfirst

end

end Analysis

/-! ## Programs -/

namespace Program

variable {p q : Program} {library : Library}

/-- The programs declare the same in any order, but their groups in one. -/
structure Reordered (p q : Program) : Prop where
  file : p.file = q.file
  imports : p.imports = q.imports
  decls : p.decls.Perm q.decls
  groups : p.groups = q.groups

/-- There is no problem in any part of a program. -/
structure Flawless (p : Program) (library : Library) : Prop where
  hierarchy : p.hierarchy.2 = []
  imports : (resolveImports p.file p.imports library).2 = []
  groups : (p.groupTable ((p.context library).imports.constants library)).2.2 = []
  clashes : ∀ g ∈ p.groups, p.hierarchy.1.contains g.name = false
  functions : (p.functions.map (·.name)).Nodup
  free : ∀ f ∈ p.functions, p.isTaken library f.name = false
  decls : ∀ d ∈ p.decls, Analysis.Passed (p.context library) d

theorem groupClashes_eq_nil_iff {file : String} {h : Hierarchy} {groups : List GroupDecl} :
    Analysis.groupClashes file h groups = [] ↔ ∀ g ∈ groups, h.contains g.name = false := by
  rw [Analysis.groupClashes, List.map_eq_nil_iff, List.filter_eq_nil_iff]
  simp only [Bool.not_eq_true]

theorem isClean_iff : (p.analyze library).isClean ↔ p.Flawless library := by
  have hclean : (p.analyze library).isClean ↔ (p.analyze library).diagnostics = [] := List.isEmpty_iff
  rw [hclean, diagnostics_analyze]
  simp only [List.append_eq_nil_iff, groupClashes_eq_nil_iff]
  constructor
  · rintro ⟨⟨⟨⟨⟨hhierarchy, himports⟩, hgroups⟩, hclashes⟩, hfunctions⟩, hdecls⟩
    have hnodup : (p.functions.map (·.name)).Nodup := by
      apply (Analysis.collectFunctions_clean ?_ hfunctions).2
      exact List.nodup_nil
    exact ⟨hhierarchy, himports, hgroups, hclashes, hnodup,
      Analysis.free_of_collectFunctions hfunctions, Analysis.passed_of_mapM_checkDecl hdecls⟩
  · intro h
    refine ⟨⟨⟨⟨⟨h.hierarchy, h.imports⟩, h.groups⟩, h.clashes⟩, ?_⟩, ?_⟩
    · rw [Analysis.collectFunctions_of_free h.functions h.free]
    · rw [Analysis.mapM_checkDecl_of_passed h.decls]

namespace Reordered

variable (h : p.Reordered q)

include h

theorem symm : q.Reordered p := ⟨h.file.symm, h.imports.symm, h.decls.symm, h.groups.symm⟩

theorem functions : p.functions.Perm q.functions := h.decls.filterMap _

theorem prototypes : p.prototypes.Perm q.prototypes := h.decls.filterMap _

/-- The groups are evaluated alike. -/
theorem groupTable (env : ConstEnv) : p.groupTable env = q.groupTable env := by
  rw [Program.groupTable, Program.groupTable, h.file, h.groups]

theorem hierarchy (hp : p.Flawless library) : q.hierarchy.2 = [] ∧ p.hierarchy.1.Alike q.hierarchy.1 := by
  have hbuild := Hierarchy.build_perm hp.hierarchy h.prototypes
  rw [Program.hierarchy, ← h.file]
  exact hbuild

theorem imports_context : (p.context library).imports = (q.context library).imports := by
  show (resolveImports p.file p.imports library).1 = (resolveImports q.file q.imports library).1
  rw [h.file, h.imports]

theorem groupTable_context : p.groupTable ((p.context library).imports.constants library) =
    q.groupTable ((q.context library).imports.constants library) := by
  rw [h.groupTable, h.imports_context]

theorem groups_context : (p.context library).groups = (q.context library).groups :=
  congrArg Prod.fst h.groupTable_context

/-- No function of the program has a name that is taken, in any order. -/
theorem free (hp : p.Flawless library) : ∀ f ∈ q.functions, q.isTaken library f.name = false := by
  intro f hf
  rw [isTaken, ← (h.hierarchy hp).2.contains, ← h.groups_context]
  exact hp.free f (h.functions.mem_iff.2 hf)

/-- Around the bodies of a program without problems stands the same in any order. -/
theorem context (hp : p.Flawless library) : (p.context library).Alike (q.context library) := by
  have hp' : (p.context library).functions = p.functions :=
    congrArg Prod.fst (Analysis.collectFunctions_of_free hp.functions hp.free)
  have hnodup : (q.functions.map (·.name)).Nodup := (h.functions.map _).nodup_iff.1 hp.functions
  have hq' : (q.context library).functions = q.functions :=
    congrArg Prod.fst (Analysis.collectFunctions_of_free hnodup (h.free hp))
  exact {
    file := h.file
    hierarchy := (h.hierarchy hp).2
    library := rfl
    imports := h.imports_context
    groups := h.groups_context
    functions := by
      rw [hp', hq']
      exact h.functions
    nodup := by
      rw [Analysis.Context.functionNames, hp']
      exact hp.functions
    consts := congrArg (·.2.1) h.groupTable_context
    proto? := rfl
    ret := rfl }

theorem flawless (hp : p.Flawless library) : q.Flawless library where
  hierarchy := (h.hierarchy hp).1
  imports := by
    rw [← h.file, ← h.imports]
    exact hp.imports
  groups := by
    rw [← h.groupTable_context]
    exact hp.groups
  clashes := by
    rw [← (h.hierarchy hp).2.contains, ← h.groups]
    exact hp.clashes
  functions := (h.functions.map _).nodup_iff.1 hp.functions
  free := h.free hp
  decls d hd := Analysis.passed_of_alike (h.context hp) (hp.decls d (h.decls.mem_iff.2 hd))

/-- What becomes of the declarations is the same in any order. -/
theorem decls_analyze (hclean : (p.analyze library).isClean) :
    (p.analyze library).program.decls.Perm (q.analyze library).program.decls := by
  have hp := isClean_iff.1 hclean
  have hchecked {p : Program} (hp : p.Flawless library) :
      (p.analyze library).program.decls = p.decls.map (Analysis.checked (p.context library)) :=
    congrArg Prod.fst (Analysis.mapM_checkDecl_of_passed hp.decls)
  rw [hchecked hp, hchecked (h.flawless hp), Analysis.checked_of_alike (h.context hp)]
  exact h.decls.map _

/-- There are problems in one order if there are in the other. -/
theorem isClean (hclean : (p.analyze library).isClean) : (q.analyze library).isClean :=
  isClean_iff.2 (h.flawless (isClean_iff.1 hclean))

end Reordered

end Program

end ProtoScript
