import ProtoScript.Proofs.Analysis.Keeps
import ProtoScript.Proofs.Analysis.Rules

set_option autoImplicit false

/-!
# Checking is never silently wrong

A step of checking that adds no diagnostic has found nothing wrong: an expression checked by it obeys
the rules (`sound_expr`). In particular an expression is left without a type only if a diagnostic was
added since it was entered (`count_lt_of_untyped`), whatever had been found before.

The proofs follow the checker step by step. Every step adds diagnostics at most, so if there are no more
behind the last step than before the first, no step has added any; this is arithmetic over their
numbers.
-/

namespace ProtoScript.Analysis

/-! ## Variables in scope -/

/-- The names in scope have the given types. -/
def Views (scopes : Scopes) (Γ : TyEnv) : Prop :=
  List.Forall₂ (fun scope frame => ∀ x, scope.2.lookup x = frame.lookup x) scopes.shape Γ

theorem lookup_scopeTypes (s : Scope) (x : String) :
    s.types.lookup x = (s.get? x).map Binding.ty := by
  unfold Scope.types Scope.get?
  induction s.bindings with
  | nil => rfl
  | cons p rest ih =>
      rw [List.map_cons, List.lookup_cons, List.lookup_cons, ih]
      cases x == p.1 with
      | true => rfl
      | false => rfl

namespace Views

variable {scopes scopes' : Scopes} {Γ : TyEnv}

/-- Any scopes give types to the names in them. -/
theorem self (scopes : Scopes) : Views scopes (scopes.map Scope.types) := by
  unfold Views Scopes.shape
  induction scopes with
  | nil => exact .nil
  | cons scope outer ih => exact .cons (fun _ => rfl) ih

theorem of_shape (h : Views scopes Γ) (hshape : scopes'.shape = scopes.shape) : Views scopes' Γ := by
  unfold Views
  rw [hshape]
  exact h

theorem enter (h : Views scopes Γ) (kind : ScopeKind) : Views (scopes.enter kind) ([] :: Γ) :=
  .cons (fun _ => rfl) h

/-- A name stands for the variable of the checker. -/
theorem find? (h : Views scopes Γ) (x : String) :
    (scopes.resolve? x).map Binding.ty = Frames.find? Γ x := by
  unfold Views Scopes.shape at h
  induction scopes generalizing Γ with
  | nil =>
      cases h
      rfl
  | cons scope outer ih =>
      obtain _ | ⟨hframe, hrest⟩ := h
      have hlookup := lookup_scopeTypes scope x
      rw [Frames.find?_cons, ← hframe x, ← ih hrest, Scopes.resolve?, List.findSome?_cons,
        show scope.shape.2 = scope.types from rfl, hlookup]
      cases scope.get? x with
      | none => rfl
      | some b => rfl

theorem find?_eq_none (h : Views scopes Γ) {x : String} (hx : scopes.resolve? x = none) :
    Frames.find? Γ x = none := by
  rw [← h.find? x, hx]
  rfl

/-- A name that can be bound is new to the innermost scope, and bound there. -/
theorem define (h : Views scopes Γ) {x : String} {b : Binding}
    (hdefine : scopes.define x b = .ok scopes') :
    Γ.declares x = false ∧ Views scopes' (Frames.declare x b.ty Γ) := by
  rcases Scopes.define_eq_ok hdefine with ⟨rfl, rfl⟩ | ⟨scope, outer, rfl, hnew, rfl⟩
  · cases h
    exact ⟨rfl, .nil⟩
  · obtain _ | ⟨hframe, hrest⟩ := h
    rename_i frame Γ
    have hfree : scope.types.lookup x = none := by
      rw [lookup_scopeTypes, hnew]
      rfl
    refine ⟨?_, .cons (fun y => ?_) hrest⟩
    · have hx : frame.lookup x = none := (hframe x).symm.trans hfree
      show (frame.lookup x).isSome = false
      rw [hx]
      rfl
    · have hshape : ({ scope with bindings := scope.bindings ++ [(x, b)] } : Scope).shape.2 =
          scope.types ++ [(x, b.ty)] := by simp [Scope.shape, Scope.types]
      have hold : scope.types.lookup y = frame.lookup y := hframe y
      rw [hshape, List.lookup_append, List.lookup_cons, List.lookup_cons, ← hold]
      by_cases hy : y = x
      · subst hy
        simp [hfree]
      · simp [beq_eq_false_iff_ne.2 hy]

end Views

/-! ## Numbers of diagnostics -/

/-- The number of diagnostics found. -/
def State.count (s : State) : Nat := s.found.length

section

variable {α β : Type} {m : Check α} {f : α → Check β} {c : Context} {s s' : State} {a : α}

theorem run_step {r : β × State} (h : (m >>= f) c s = r) :
    ∃ a s', m c s = (a, s') ∧ f a c s' = r := ⟨_, _, rfl, h⟩

theorem Grows.count_le (hm : Grows m) (h : m c s = (a, s')) : s.count ≤ s'.count := by
  have hfound := (hm c s).found.length_le
  rw [h] at hfound
  exact hfound

theorem Keeps.count_le (hm : Keeps m) (h : m c s = (a, s')) : s.count ≤ s'.count :=
  hm.grows.count_le h

theorem Inspects.count_le (hm : Inspects m) (h : m c s = (a, s')) : s.count ≤ s'.count :=
  hm.grows.count_le h

theorem Keeps.views {Γ : TyEnv} (hm : Keeps m) (h : m c s = (a, s')) (hs : Views s.scopes Γ) :
    Views s'.scopes Γ := by
  have hshape := (hm c s).shape
  rw [h] at hshape
  exact hs.of_shape hshape

theorem Inspects.views {Γ : TyEnv} (hm : Inspects m) (h : m c s = (a, s')) (hs : Views s.scopes Γ) :
    Views s'.scopes Γ := hm.keeps.views h hs

theorem count_lt_of_report {problem : Problem} {span : Span} {u : Unit}
    (h : report problem span c s = (u, s')) : s.count < s'.count := by
  have hfound : s'.found = s.found ++ [problem.diagnose c.file span] := by
    rw [show s' = (report problem span c s).2 by rw [h]]
    rfl
  unfold State.count
  rw [hfound, List.length_append]
  exact Nat.lt_succ_self _

theorem count_lt_of_reportName {problem : Problem} {span : Span} {name : String}
    {candidates : List String} {u : Unit}
    (h : reportName problem span name candidates c s = (u, s')) : s.count < s'.count := by
  have hfound : s'.found = s.found ++
      [(problem.diagnose c.file span).withSuggestions (suggest name candidates)] := by
    rw [show s' = (reportName problem span name candidates c s).2 by rw [h]]
    rfl
  unfold State.count
  rw [hfound, List.length_append]
  exact Nat.lt_succ_self _

theorem count_lt_of_reportUndefined {name : String} {span : Span} {u : Unit}
    (h : reportUndefined name span c s = (u, s')) : s.count < s'.count := by
  obtain ⟨_, _, h₁, h⟩ := run_step h
  obtain ⟨_, _, h₂, h⟩ := run_step h
  cases h₁
  cases h₂
  exact count_lt_of_reportName h

/-- A report is not silent, whatever result is given behind it. -/
theorem count_lt_of_report_pure {problem : Problem} {span : Span} {b b' : β}
    (h : (report problem span >>= fun _ => (pure b : Check β)) c s = (b', s')) :
    s.count < s'.count := by
  obtain ⟨_, _, h₁, h⟩ := run_step h
  cases h
  exact count_lt_of_report h₁

theorem count_lt_of_reportName_pure {problem : Problem} {span : Span} {name : String}
    {candidates : List String} {b b' : β}
    (h : (reportName problem span name candidates >>= fun _ => (pure b : Check β)) c s = (b', s')) :
    s.count < s'.count := by
  obtain ⟨_, _, h₁, h⟩ := run_step h
  cases h
  exact count_lt_of_reportName h₁

/-- Where nothing was reported the condition holds, and nothing has changed. -/
theorem expect_silent {holds : Bool} {problem : Problem} {span : Span} {u : Unit}
    (h : expect holds problem span c s = (u, s')) (hsilent : s'.count ≤ s.count) :
    holds ∧ s' = s := by
  unfold expect at h
  split at h
  case isTrue hholds =>
    cases h
    exact ⟨hholds, rfl⟩
  case isFalse => exact absurd hsilent (Nat.not_le.2 (count_lt_of_report h))

end

section

variable {Γ : TyEnv} {c : Context} {s s' : State}

/-! ## Names and members -/

theorem noteLiteral_silent {n n' : Note} {v : Literal} {expected : Option Ty}
    (h : noteLiteral n v expected c s = (n', s')) (hsilent : s'.count ≤ s.count) :
    ∃ τ, n'.type? = some τ ∧ v.CanBe τ := by
  unfold noteLiteral at h
  split at h
  · obtain ⟨_, _, h₁, h⟩ := run_step h
    cases h
    exact ⟨.byte, rfl, .inr ⟨rfl, _, rfl, (expect_silent h₁ hsilent).1⟩⟩
  · cases h
    exact ⟨v.ty, rfl, .inl rfl⟩

theorem noteLibraryConstant_silent {n n' : Note} {constant : LibraryConstant} {module name : String}
    (h : noteLibraryConstant n constant c s = (n', s')) (hsilent : s'.count ≤ s.count)
    (hconstant : c.library.constant? module name = some constant) :
    ∃ v τ, n'.value? = some (.constant v) ∧ n'.type? = some τ ∧ c.Constant v τ := by
  unfold noteLibraryConstant at h
  cases hvalue : constant.toConstant? with
  | some v =>
      rw [hvalue] at h
      cases h
      exact ⟨v, constant.ty, rfl, rfl, .library hconstant hvalue⟩
  | none =>
      rw [hvalue] at h
      exact absurd hsilent (Nat.not_le.2 (count_lt_of_report_pure h))

/-- A prototype's name as a value is noted to be one. -/
theorem noteGlobal_prototype {n : Note} {x : String} (hx : c.hierarchy.contains x) :
    noteGlobal n x c s = (denotes n (.named x) (.prototype x), s) := by
  generalize hrun : noteGlobal n x c s = r
  obtain ⟨n', s'⟩ := r
  obtain ⟨_, _, h₁, h⟩ := run_step hrun
  cases h₁
  rw [if_pos hx] at h
  exact h.symm

/-- A name that is no variable is noted to stand for a value, or reported. -/
theorem noteGlobal_silent {n n' : Note} {x : String} (h : noteGlobal n x c s = (n', s'))
    (hsilent : s'.count ≤ s.count) :
    ∃ t τ, n'.value? = some t ∧ n'.type? = some τ ∧ c.Global t τ := by
  by_cases hproto : c.hierarchy.contains x
  · rw [noteGlobal_prototype hproto] at h
    cases h
    exact ⟨_, _, rfl, rfl, .prototype hproto⟩
  · obtain ⟨_, _, h₁, h⟩ := run_step h
    cases h₁
    rw [if_neg hproto] at h
    cases hconstant : importedConstant? c x with
    | some constant =>
        rw [hconstant] at h
        obtain ⟨⟨module, member⟩, _, hmember⟩ := Option.bind_eq_some_iff.1 hconstant
        obtain ⟨v, τ, hvalue, htype, hv⟩ := noteLibraryConstant_silent h hsilent hmember
        exact ⟨_, τ, hvalue, htype, .constant hv⟩
    | none =>
        rw [hconstant] at h
        cases hproblem : notValue? c x with
        | some problem =>
            simp only [hproblem] at h
            exact absurd hsilent (Nat.not_le.2 (count_lt_of_report_pure h))
        | none =>
            simp only [hproblem] at h
            obtain ⟨_, _, h₁, h⟩ := run_step h
            cases h
            exact absurd hsilent (Nat.not_le.2 (count_lt_of_reportUndefined h₁))

theorem noteName_silent {n n' : Note} {x : String} (h : noteName n x c s = (n', s'))
    (hsilent : s'.count ≤ s.count) (hs : Views s.scopes Γ) :
    ∃ τ, (Expr.ident n' x).Typed c Γ τ := by
  obtain ⟨b, _, h₁, h⟩ := run_step h
  cases h₁
  cases hb : s.scopes.resolve? x with
  | some b =>
      rw [hb] at h
      obtain ⟨_, _, _, h⟩ := run_step h
      cases h
      refine ⟨b.ty, .bound rfl ?_⟩
      rw [← hs.find? x, hb]
      rfl
  | none =>
      rw [hb] at h
      obtain ⟨t, τ, hvalue, htype, ht⟩ := noteGlobal_silent h hsilent
      exact ⟨τ, .global htype (hs.find?_eq_none hb) hvalue ht⟩

theorem noteSelf_silent {n n' : Note} (h : noteSelf n c s = (n', s'))
    (hsilent : s'.count ≤ s.count) : ∃ τ, (Expr.self n').Typed c Γ τ := by
  obtain ⟨_, _, h₁, h⟩ := run_step h
  cases h₁
  cases hproto : c.proto? with
  | some proto =>
      rw [hproto] at h
      cases h
      exact ⟨_, .self rfl hproto⟩
  | none =>
      rw [hproto] at h
      exact absurd hsilent (Nat.not_le.2 (count_lt_of_report_pure h))

/-- What a name before a dot stands for, if it is no value. -/
theorem owner?_eq {e : Expr} {r : Option Owner} (h : owner? e c s = (r, s')) :
    s' = s ∧ ∀ o, r = some o → ∃ n x, e = .ident n x ∧ s.scopes.resolve? x = none ∧
      match o with
      | .group g => c.groups.get? x = some g
      | .module m => c.imports.namespace? x = some m := by
  unfold owner? at h
  split at h
  case h_1 n x =>
    obtain ⟨b, _, h₁, h⟩ := run_step h
    cases h₁
    cases hb : s.scopes.resolve? x with
    | some b =>
        rw [hb, Option.isSome_some, if_pos rfl] at h
        cases h
        exact ⟨rfl, nofun⟩
    | none =>
        rw [hb, Option.isSome_none, if_neg Bool.false_ne_true] at h
        obtain ⟨_, _, h₁, h⟩ := run_step h
        cases h₁
        cases hg : c.groups.get? x with
        | some g =>
            rw [hg] at h
            cases h
            refine ⟨rfl, ?_⟩
            rintro o ⟨⟩
            exact ⟨n, x, rfl, hb, hg⟩
        | none =>
            rw [hg] at h
            cases h
            refine ⟨rfl, fun o ho => ?_⟩
            obtain ⟨m, hm, rfl⟩ := Option.map_eq_some_iff.1 ho
            exact ⟨n, x, rfl, hb, hm⟩
  case h_2 =>
    cases h
    exact ⟨rfl, nofun⟩

theorem noteGroupMember_silent {n n' : Note} {g : Group} {name : String}
    (h : noteGroupMember n g name c s = (n', s')) (hsilent : s'.count ≤ s.count)
    (hg : g ∈ c.groups.groups) :
    ∃ v τ, n'.value? = some (.constant v) ∧ n'.type? = some τ ∧ c.Constant v τ := by
  unfold noteGroupMember at h
  cases hvalue : g.member? name with
  | some v =>
      rw [hvalue] at h
      cases h
      exact ⟨v, g.base, rfl, rfl, .member hg hvalue⟩
  | none =>
      rw [hvalue] at h
      exact absurd hsilent (Nat.not_le.2 (count_lt_of_reportName_pure h))

theorem noteModuleMember_silent {n n' : Note} {module name : String}
    (h : noteModuleMember n module name c s = (n', s')) (hsilent : s'.count ≤ s.count) :
    ∃ v τ, n'.value? = some (.constant v) ∧ n'.type? = some τ ∧ c.Constant v τ := by
  obtain ⟨_, _, h₁, h⟩ := run_step h
  cases h₁
  cases hconstant : c.library.constant? module name with
  | some constant =>
      simp only [hconstant] at h
      exact noteLibraryConstant_silent h hsilent hconstant
  | none =>
      simp only [hconstant] at h
      split at h
      · exact absurd hsilent (Nat.not_le.2 (count_lt_of_report_pure h))
      · exact absurd hsilent (Nat.not_le.2 (count_lt_of_reportName_pure h))

theorem noteField_silent {n n' : Note} {proto name : String}
    (h : noteField n proto name c s = (n', s')) (hsilent : s'.count ≤ s.count) :
    ∃ f, c.hierarchy.field? proto name = some f ∧ n'.type? = some f.ty ∧
      n'.value? = some (.field proto name) := by
  obtain ⟨_, _, h₁, h⟩ := run_step h
  cases h₁
  cases hf : c.hierarchy.field? proto name with
  | some f =>
      rw [hf] at h
      obtain ⟨_, _, _, h⟩ := run_step h
      cases h
      exact ⟨f, rfl, rfl, rfl⟩
  | none =>
      rw [hf] at h
      dsimp only at h
      split at h
      · exact absurd hsilent (Nat.not_le.2 (count_lt_of_report_pure h))
      · exact absurd hsilent (Nat.not_le.2 (count_lt_of_reportName_pure h))

theorem noteMember_silent {n n' : Note} {object : Ty} {name : String}
    (h : noteMember n object name c s = (n', s')) (hsilent : s'.count ≤ s.count) :
    ∃ proto f, object = .named proto ∧ c.hierarchy.field? proto name = some f ∧
      n'.type? = some f.ty ∧ n'.value? = some (.field proto name) := by
  unfold noteMember at h
  split at h
  · obtain ⟨f, hf, htype, hvalue⟩ := noteField_silent h hsilent
    exact ⟨_, f, rfl, hf, htype, hvalue⟩
  · exact absurd hsilent (Nat.not_le.2 (count_lt_of_report_pure h))

/-! ## Calls -/

theorem moduleCallee?_silent {module name : String} {span : Span} {k? : Option Callee}
    (h : moduleCallee? module name span c s = (k?, s')) (hsilent : s'.count ≤ s.count) :
    ∃ f, c.library.function? module name = some f ∧
      k? = some ⟨name, f.params, f.ret, .foreign module name f.ret⟩ := by
  obtain ⟨_, _, h₁, h⟩ := run_step h
  cases h₁
  cases hf : c.library.function? module name with
  | some f =>
      simp only [hf] at h
      cases h
      exact ⟨f, rfl, rfl⟩
  | none =>
      simp only [hf] at h
      split at h
      · exact absurd hsilent (Nat.not_le.2 (count_lt_of_report_pure h))
      · exact absurd hsilent (Nat.not_le.2 (count_lt_of_reportName_pure h))

theorem functionCallee?_silent {name : String} {span : Span} {k? : Option Callee}
    (h : functionCallee? name span c s = (k?, s')) (hsilent : s'.count ≤ s.count) :
    ∃ k, k? = some k ∧ c.Function name k := by
  obtain ⟨_, _, h₁, h⟩ := run_step h
  cases h₁
  cases hf : c.function? name with
  | some f =>
      rw [hf] at h
      cases h
      exact ⟨_, rfl, .declared hf⟩
  | none =>
      rw [hf] at h
      cases hmember : c.imports.member? name with
      | some target =>
          obtain ⟨module, member⟩ := target
          simp only [hmember] at h
          obtain ⟨f, hf, rfl⟩ := moduleCallee?_silent h hsilent
          exact ⟨_, rfl, .imported hmember hf⟩
      | none =>
          simp only [hmember] at h
          exact absurd hsilent (Nat.not_le.2 (count_lt_of_reportName_pure h))

theorem instanceCallee?_silent {proto method : String} {span : Span} {k? : Option Callee}
    (h : instanceCallee? proto method span c s = (k?, s')) (hsilent : s'.count ≤ s.count) :
    ∃ k, k? = some k ∧ c.Method (.named proto) method k := by
  obtain ⟨_, _, h₁, h⟩ := run_step h
  cases h₁
  cases hm : c.hierarchy.method? proto method with
  | some info =>
      simp only [hm] at h
      obtain ⟨_, _, _, h⟩ := run_step h
      cases h
      exact ⟨_, rfl, .ofInstance hm⟩
  | none =>
      simp only [hm] at h
      split at h
      · exact absurd hsilent (Nat.not_le.2 (count_lt_of_report_pure h))
      · exact absurd hsilent (Nat.not_le.2 (count_lt_of_reportName_pure h))

theorem methodCallee?_silent {ty : Ty} {method : String} {span : Span} {k? : Option Callee}
    (h : methodCallee? ty method span c s = (k?, s')) (hsilent : s'.count ≤ s.count) :
    ∃ k, k? = some k ∧ c.Method ty method k := by
  unfold methodCallee? at h
  split at h
  · exact instanceCallee?_silent h hsilent
  · split at h
    · exact absurd hsilent (Nat.not_le.2 (count_lt_of_report_pure h))
    · unfold containerCallee? at h
      cases hm : containerMethod? ty method with
      | some m =>
          rw [hm] at h
          cases h
          exact ⟨_, rfl, .ofContainer hm⟩
      | none =>
          rw [hm] at h
          exact absurd hsilent (Nat.not_le.2 (count_lt_of_reportName_pure h))

theorem expectedArgs_silent {k : Callee} {count : Nat} {span : Span} {params : List Ty}
    (h : expectedArgs (some k) count span c s = (params, s')) (hsilent : s'.count ≤ s.count) :
    params = k.params ∧ k.params.length = count := by
  unfold expectedArgs at h
  dsimp only at h
  split at h
  case isTrue hcount =>
    cases h
    exact ⟨rfl, hcount⟩
  case isFalse => exact absurd hsilent (Nat.not_le.2 (count_lt_of_report_pure h))

/-- What a name before a method call stands for, if it is no value. -/
theorem receiver?_eq {e : Expr} {method : String} {r : Option Receiver}
    (h : receiver? e method c s = (r, s')) :
    s' = s ∧ ∀ o, r = some o → ∃ n x, e = .ident n x ∧ s.scopes.resolve? x = none ∧
      match o with
      | .module m => c.imports.namespace? x = some m
      | .prototype p => p = x ∧ c.hierarchy.contains x
      | .group _ => True := by
  unfold receiver? at h
  split at h
  case h_1 n x =>
    obtain ⟨b, _, h₁, h⟩ := run_step h
    cases h₁
    cases hb : s.scopes.resolve? x with
    | some b =>
        rw [hb, Option.isSome_some, if_pos rfl] at h
        cases h
        exact ⟨rfl, nofun⟩
    | none =>
        rw [hb, Option.isSome_none, if_neg Bool.false_ne_true] at h
        obtain ⟨_, _, h₁, h⟩ := run_step h
        cases h₁
        cases hm : c.imports.namespace? x with
        | some m =>
            rw [hm] at h
            cases h
            refine ⟨rfl, ?_⟩
            rintro o ⟨⟩
            exact ⟨n, x, rfl, hb, hm⟩
        | none =>
            rw [hm] at h
            dsimp only at h
            split at h
            case isTrue hproto =>
              cases h
              rw [Bool.and_eq_true] at hproto
              refine ⟨rfl, ?_⟩
              rintro o ⟨⟩
              exact ⟨n, x, rfl, hb, rfl, hproto.1⟩
            case isFalse =>
              cases h
              refine ⟨rfl, fun o ho => ?_⟩
              obtain ⟨g, _, rfl⟩ := Option.map_eq_some_iff.1 ho
              exact ⟨n, x, rfl, hb, trivial⟩
  case h_2 =>
    cases h
    exact ⟨rfl, nofun⟩

/-! ## Operators and elements -/

theorem expectAssignable_silent {e : Expr} {τ target : Ty} {u : Unit} (he : e.Typed c Γ τ)
    (h : expectAssignable e target c s = (u, s')) (hsilent : s'.count ≤ s.count) :
    c.hierarchy.isAssignable τ target := by
  unfold expectAssignable at h
  rw [he.type?] at h
  obtain ⟨_, _, h₁, h⟩ := run_step h
  cases h₁
  exact (expect_silent h hsilent).1

theorem expectCondition_silent {e : Expr} {τ : Ty} {u : Unit} (he : e.Typed c Γ τ)
    (h : expectCondition e c s = (u, s')) (hsilent : s'.count ≤ s.count) : e.Typed c Γ .bool := by
  unfold expectCondition at h
  rw [he.type?] at h
  have hbool := (expect_silent h hsilent).1
  obtain rfl : τ = .bool := by simpa [Ty.isBool] using hbool
  exact he

theorem noteUnary_silent {n n' : Note} {op : UnaryOp} {τ : Ty}
    (h : noteUnary n op (some τ) c s = (n', s')) (hsilent : s'.count ≤ s.count) :
    unaryApplies op τ ∧ n'.type? = some τ := by
  unfold noteUnary at h
  dsimp only at h
  split at h
  case isTrue happ =>
    cases h
    exact ⟨happ, rfl⟩
  case isFalse => exact absurd hsilent (Nat.not_le.2 (count_lt_of_report_pure h))

theorem binaryResult?_silent {op : BinaryOp} {left right : Ty} {span : Span} {r : Option Ty}
    (h : binaryResult? op left right span c s = (r, s')) (hsilent : s'.count ≤ s.count) :
    s' = s ∧ ∃ τ, r = some τ ∧ op.Gives c.hierarchy left right τ := by
  unfold binaryResult? at h
  split at h
  case isTrue hop =>
    split at h
    case isTrue hbool =>
      cases h
      rw [Bool.and_eq_true] at hbool
      obtain ⟨hl, hr⟩ := hbool
      refine ⟨rfl, .bool, rfl, ?_⟩
      unfold BinaryOp.Gives
      rw [if_pos hop]
      exact ⟨by simpa [Ty.isBool] using hl, by simpa [Ty.isBool] using hr, rfl⟩
    case isFalse => exact absurd hsilent (Nat.not_le.2 (count_lt_of_report_pure h))
  case isFalse hop =>
    have hgives : ∀ {τ}, (left = right ∧ binaryApplies op left ∧ τ = op.resultTy left ∨
        op.isEquality ∧ (c.hierarchy.isAssignable left right ∨ c.hierarchy.isAssignable right left) ∧
          τ = .bool) → op.Gives c.hierarchy left right τ := by
      intro τ hτ
      unfold BinaryOp.Gives
      rw [if_neg hop]
      exact hτ
    split at h
    case isTrue =>
      obtain ⟨_, _, h₁, h⟩ := run_step h
      cases h₁
      obtain ⟨_, _, h₂, h⟩ := run_step h
      cases h₂
      dsimp only at h
      split at h
      case isTrue hrelated =>
        cases h
        rw [Bool.and_eq_true, Bool.or_eq_true] at hrelated
        exact ⟨rfl, .bool, rfl, hgives (.inr ⟨hrelated.1, hrelated.2, rfl⟩)⟩
      case isFalse => exact absurd hsilent (Nat.not_le.2 (count_lt_of_report_pure h))
    case isFalse heq =>
      split at h
      case isTrue happ =>
        cases h
        exact ⟨rfl, _, rfl, hgives (.inl ⟨not_not.1 heq, happ, rfl⟩)⟩
      case isFalse => exact absurd hsilent (Nat.not_le.2 (count_lt_of_report_pure h))

theorem noteBinary_silent {n n' : Note} {op : BinaryOp} {l r : Expr} {left right : Ty}
    (hl : l.Typed c Γ left) (hr : r.Typed c Γ right)
    (h : noteBinary n op l.type? r.type? c s = (n', s')) (hsilent : s'.count ≤ s.count) :
    ∃ τ, (Expr.binary n' op l r).Typed c Γ τ := by
  rw [hl.type?, hr.type?] at h
  obtain ⟨result, _, h₁, h⟩ := run_step h
  cases h
  obtain ⟨_, τ, rfl, hop⟩ := binaryResult?_silent h₁ hsilent
  exact ⟨τ, .binary rfl hl hr hop⟩

theorem noteTernary_silent {n n' : Note} {e a b : Expr} {α β : Ty} (he : e.Typed c Γ .bool)
    (ha : a.Typed c Γ α) (hb : b.Typed c Γ β) (h : noteTernary n a b c s = (n', s'))
    (hsilent : s'.count ≤ s.count) : ∃ τ, (Expr.ternary n' e a b).Typed c Γ τ := by
  unfold noteTernary at h
  rw [ha.type?, hb.type?] at h
  obtain ⟨_, _, h₁, h⟩ := run_step h
  cases h₁
  split at h
  case isTrue happ =>
    cases h
    exact ⟨α, .ternary rfl he ha hb (.inl ⟨happ, rfl⟩)⟩
  case isFalse =>
    obtain ⟨_, _, h₂, h⟩ := run_step h
    cases h₂
    split at h
    case isTrue happ =>
      cases h
      exact ⟨β, .ternary rfl he ha hb (.inr ⟨happ, rfl⟩)⟩
    case isFalse => exact absurd hsilent (Nat.not_le.2 (count_lt_of_report_pure h))

theorem elementAt?_silent {object position : Ty} {i : Expr} {span : Span} {r : Option Ty}
    (hi : i.Typed c Γ position) (h : elementAt? object i span c s = (r, s'))
    (hsilent : s'.count ≤ s.count) :
    ∃ τ, r = some τ ∧ Ty.Element c.hierarchy object position τ := by
  have hsequence : ∀ {object τ : Ty} {r : Unit}, object.key? = some .int → object.element? = some τ →
      expect (position == .int) (.indexType position) i.span c s = (r, s') →
      Ty.Element c.hierarchy object position τ := by
    intro object τ r hkey helem h
    have hint := (expect_silent h hsilent).1
    obtain rfl : position = .int := by simpa using hint
    exact .ofSequence hkey helem
  unfold elementAt? at h
  split at h
  case h_1 k v =>
    obtain ⟨_, _, h₁, h⟩ := run_step h
    cases h
    exact ⟨v, rfl, .ofMap (expectAssignable_silent hi h₁ hsilent)⟩
  case h_2 | h_3 | h_4 | h_5 =>
    rw [hi.type?] at h
    obtain ⟨_, _, h₁, h⟩ := run_step h
    cases h
    exact ⟨_, rfl, hsequence rfl rfl h₁⟩
  case h_6 => exact absurd hsilent (Nat.not_le.2 (count_lt_of_report_pure h))

theorem noteCast_silent {n n' : Note} {e : Expr} {source target : Ty} (he : e.Typed c Γ source)
    (h : noteCast n e target c s = (n', s')) (hsilent : s'.count ≤ s.count) :
    (Expr.cast n' e target).Typed c Γ target := by
  unfold noteCast at h
  rw [he.type?] at h
  dsimp only at h
  split at h
  case isTrue hnumeric =>
    obtain ⟨_, _, _, h⟩ := run_step h
    cases h
    rw [Bool.and_eq_true] at hnumeric
    exact .cast rfl he hnumeric.1 hnumeric.2
  case isFalse => exact absurd hsilent (Nat.not_le.2 (count_lt_of_report_pure h))

/-- A type that is accepted names no unknown prototype. -/
theorem checkTy_silent {ty : Ty} {span : Span} {known : Bool} (h : checkTy ty span c s = (known, s'))
    (hsilent : s'.count ≤ s.count) :
    unknownPrototype? c.hierarchy ty = none ∧ known = true ∧ s' = s := by
  obtain ⟨_, _, h₁, h⟩ := run_step h
  cases h₁
  cases hunknown : unknownPrototype? c.hierarchy ty with
  | none =>
      simp only [hunknown] at h
      cases h
      exact ⟨rfl, rfl, rfl⟩
  | some name =>
      simp only [hunknown] at h
      exact absurd hsilent (Nat.not_le.2 (count_lt_of_reportName_pure h))

theorem isAssignable_refl (h : Hierarchy) (τ : Ty) : h.isAssignable τ τ := by
  simp [Hierarchy.isAssignable]

/-- An item fits the type that all items share, which it gives if it is the first. -/
theorem unify_silent {shared r : Option Ty} {ty : Ty} {problem : Ty → Problem} {span : Span}
    (h : unify shared ty problem span c s = (r, s')) (hsilent : s'.count ≤ s.count) :
    ∃ t, r = some t ∧ c.hierarchy.isAssignable ty t ∧ ∀ t', shared = some t' → t = t' := by
  unfold unify at h
  cases shared with
  | none =>
      cases h
      exact ⟨ty, rfl, isAssignable_refl _ _, nofun⟩
  | some t =>
      obtain ⟨_, _, h₁, h⟩ := run_step h
      cases h₁
      obtain ⟨_, _, h₂, h⟩ := run_step h
      cases h
      refine ⟨t, rfl, (expect_silent h₂ hsilent).1, ?_⟩
      rintro t' ⟨⟩
      rfl

end

end ProtoScript.Analysis
