import ProtoScript.Proofs.Analysis.Stmt
import ProtoScript.Proofs.Analysis.TypedProgram

set_option autoImplicit false

/-!
# Functions of a program without problems

A function of the scalar fragment of a program in which no problem was found is well typed, with its
parameters as the variables of its outermost scope, and these have different names
(`Program.wellTyped_of_isClean`).
-/

namespace ProtoScript

namespace Analysis

variable {c : Context} {s s' : State}

/-- A function that passes is well typed if it belongs to the fragment. -/
theorem checkFunction_wellTyped {f f' : FunctionDecl}
    (h : checkFunction none f c s = (f', s')) (hclean : s'.found = []) (hfrag : f'.inFragment)
    (hscopes : s.scopes.shape = []) : f'.WellTyped := by
  have hrun : (checkTy f.ret f.span >>= fun _ => inScope .function (do
      checkParams f.params
      let body ← checkStmts f.body
      expect (f.ret.isVoid || alwaysLeaves f.body) (.missingReturn f.name f.ret) f.span
      return { f with body })) { c with proto? := none, ret := f.ret } s = (f', s') := h
  obtain ⟨_, s₁, h₁, h⟩ := run_bind hrun
  obtain ⟨s₂, h₂, hs₂⟩ := run_inScope h
  obtain ⟨_, s₃, h₃, h⟩ := run_bind h₂
  obtain ⟨body, s₄, h₄, h⟩ := run_bind h
  obtain ⟨_, s₅, h₅, h⟩ := run_bind h
  cases h
  simp only [FunctionDecl.inFragment, Bool.and_eq_true] at hfrag
  obtain ⟨⟨hparams, _⟩, hbody⟩ := hfrag
  have hclean₄ := (namesKept.keeps_expect _ _ _).clean h₅ (hs₂.trans hclean)
  have hclean₃ := (grows_checkStmts f.body).clean h₄ hclean₄
  have hshape₁ : (s₁.scopes.enter .function).shape = [(.function, [])] := by
    have hkeeps := (namesKept.keeps_checkTy f.ret f.span { c with proto? := none, ret := f.ret } s).shape
    rw [h₁] at hkeeps
    exact congrArg _ (hkeeps.trans hscopes)
  have hsilent : s₃.count ≤ ({ s₁ with scopes := s₁.scopes.enter .function } : State).count := by
    simp [State.count, hclean₃]
  obtain ⟨hshape₃, hnodup, _⟩ := passes_params ⟨h₃, hsilent⟩ hshape₁ List.nodup_nil
  rw [List.nil_append] at hshape₃ hnodup
  rw [map_fst_paramTypes] at hnodup
  have hstands : Stands false false [paramTypes f.params] s₃.scopes := by
    refine ⟨⟨?_, ?_⟩, (namesKept.grows_checkParams _).within h₃ _, (namesKept.grows_checkParams _).within h₃ _⟩
    · rw [hshape₃]
      exact .cons (fun _ => rfl) .nil
    · intro τ hτ
      obtain ⟨p, hp, rfl⟩ : ∃ p ∈ f.params, p.ty = τ := by
        simpa [Frames.values, paramTypes] using hτ
      exact List.all_eq_true.1 hparams p hp
  exact ⟨hnodup, checkStmts_wellTyped f.body h₄ hclean₄ hbody hstands⟩

/-- A function that comes out of checking declarations without a report was checked outside of every
scope. -/
theorem mapM_checkDecl_function {decls decls' : List Decl} {f' : FunctionDecl}
    (h : decls.mapM checkDecl c s = (decls', s')) (hclean : s'.found = [])
    (hscopes : s.scopes.shape = []) (hf : .function f' ∈ decls') :
    ∃ f s₁ s₂, checkFunction none f c s₁ = (f', s₂) ∧ s₂.found = [] ∧ s₁.scopes.shape = [] := by
  induction decls generalizing s decls' with
  | nil =>
      rw [List.mapM_nil] at h
      cases h
      cases hf
  | cons d rest ih =>
      rw [List.mapM_cons] at h
      obtain ⟨d', s₁, h₁, h⟩ := run_bind h
      obtain ⟨rest', s₂, h₂, h⟩ := run_bind h
      cases h
      have hclean₁ := (namesKept.keeps_mapM keeps_checkDecl rest).clean h₂ hclean
      have hscopes₁ : s₁.scopes.shape = [] := by
        have hkeeps := (keeps_checkDecl d c s).shape
        rw [h₁] at hkeeps
        exact hkeeps.trans hscopes
      rcases List.mem_cons.1 hf with rfl | hf
      · cases d with
        | function f =>
            obtain ⟨f₁, t₁, ht₁, h₁⟩ := run_bind h₁
            cases h₁
            exact ⟨f, s, s₁, ht₁, hclean₁, hscopes⟩
        | prototype d =>
            obtain ⟨_, _, _, h₁⟩ := run_bind h₁
            cases h₁
        | group g => cases h₁
      · exact ih h₂ hscopes₁ hf

end Analysis

/-- The declarations of a program are checked one after the other, outside of every scope. -/
theorem Program.analyze_decls (p : Program) (library : Library) :
    ∃ c : Analysis.Context,
      (p.analyze library).program.decls = (p.decls.mapM Analysis.checkDecl c {}).1 ∧
      ∃ before, (p.analyze library).diagnostics =
        before ++ (p.decls.mapM Analysis.checkDecl c {}).2.found :=
  ⟨_, rfl, _, rfl⟩

/-- A function of the scalar fragment is well typed if no problem was found in its program. -/
theorem Program.wellTyped_of_isClean {p : Program} {library : Library}
    (hclean : (p.analyze library).isClean) {f : FunctionDecl}
    (hf : f ∈ (p.analyze library).program.functions) (hfrag : f.inFragment) : f.WellTyped := by
  obtain ⟨c, hdecls, before, hdiagnostics⟩ := p.analyze_decls library
  have hfound : (p.decls.mapM Analysis.checkDecl c {}).2.found = [] := by
    have hnil := List.isEmpty_iff.1 hclean
    rw [hdiagnostics, List.append_eq_nil_iff] at hnil
    exact hnil.2
  have hmem : .function f ∈ (p.decls.mapM Analysis.checkDecl c {}).1 := by
    obtain ⟨d, hd, hdf⟩ := List.mem_filterMap.1 hf
    rw [hdecls] at hd
    cases d with
    | function g =>
        cases hdf
        exact hd
    | prototype d => cases hdf
    | group g => cases hdf
  obtain ⟨g, s₁, s₂, hg, hclean₂, hscopes⟩ := Analysis.mapM_checkDecl_function rfl hfound rfl hmem
  exact Analysis.checkFunction_wellTyped hg hclean₂ hfrag hscopes

end ProtoScript
