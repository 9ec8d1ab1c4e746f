import ProtoScript.Proofs.Analysis.Keeps
import ProtoScript.Proofs.Source.Typing

set_option autoImplicit false

/-!
# Expressions that pass the checker have types

An expression of the scalar fragment in which no problem was found is well typed
(`checkExpr_hasTy`): the notes of the checker are the types that the rules ask for, and where they
ask for equal types the checker would have reported.

The proofs follow the checker from its last step back to the first. Since no diagnostic is taken
back, none was found at any step.
-/

namespace ProtoScript

/-! ## Types of the fragment -/

theorem Ty.eq_bool_of_isBool {t : Ty} (h : t.isBool) : t = .bool := by
  simpa [Ty.isBool] using h

theorem Ty.eq_void_of_isVoid {t : Ty} (h : t.isVoid) : t = .void := by
  simpa [Ty.isVoid] using h

/-- In the fragment only equal types can be assigned. -/
theorem Hierarchy.eq_of_isAssignable {h : Hierarchy} {source target : Ty} (hword : source.isWord)
    (happ : h.isAssignable source target) : source = target := by
  unfold isAssignable at happ
  split at happ
  · cases hword
  · simpa using happ

/-! ## Names in scope -/

namespace Analysis

/-- The names in scope have the given types, all of which belong to the fragment. -/
structure Sees (scopes : Scopes) (Γ : TyEnv) : Prop where
  types : List.Forall₂ (fun scope frame => ∀ x, scope.2.lookup x = frame.lookup x) scopes.shape Γ
  words : ∀ τ ∈ Frames.values Γ, τ.isWord

theorem lookup_types (s : Scope) (x : String) :
    s.types.lookup x = (s.get? x).map Binding.ty := by
  unfold Scope.types Scope.get?
  induction s.bindings with
  | nil => rfl
  | cons p rest ih =>
      rw [List.map_cons, List.lookup_cons, List.lookup_cons, ih]
      cases x == p.1 with
      | true => rfl
      | false => rfl

namespace Sees

variable {scopes scopes' : Scopes} {Γ : TyEnv}

theorem of_shape (h : Sees scopes Γ) (hshape : scopes'.shape = scopes.shape) : Sees scopes' Γ :=
  ⟨hshape ▸ h.types, h.words⟩

theorem enter (h : Sees scopes Γ) (kind : ScopeKind) : Sees (scopes.enter kind) ([] :: Γ) :=
  ⟨.cons (fun _ => rfl) h.types, h.words⟩

/-- A name stands for the variable of the checker. -/
theorem find? (h : Sees scopes Γ) (x : String) :
    (scopes.resolve? x).map Binding.ty = Frames.find? Γ x := by
  have htypes := h.types
  unfold Scopes.shape at htypes
  clear h
  induction scopes generalizing Γ with
  | nil =>
      cases htypes
      rfl
  | cons scope outer ih =>
      obtain _ | ⟨hframe, hrest⟩ := htypes
      rw [Frames.find?_cons, ← hframe x, ← ih hrest, Scopes.resolve?, List.findSome?_cons]
      have hlookup := lookup_types scope x
      rw [show scope.shape.2 = scope.types from rfl, hlookup]
      cases scope.get? x with
      | none => rfl
      | some b => rfl

theorem isWord (h : Sees scopes Γ) {x : String} {τ : Ty} (hx : Frames.find? Γ x = some τ) :
    τ.isWord := h.words τ (Frames.mem_values_of_find? hx)

/-- A new name in the innermost scope. -/
theorem define (h : Sees scopes Γ) {x : String} {b : Binding} (hword : b.ty.isWord)
    (hdefine : scopes.define x b = .ok scopes') : Sees scopes' (Frames.declare x b.ty Γ) := by
  obtain ⟨htypes, hwords⟩ := h
  rcases Scopes.define_eq_ok hdefine with ⟨rfl, rfl⟩ | ⟨scope, outer, rfl, hnew, rfl⟩
  · cases htypes
    exact ⟨.nil, hwords⟩
  · obtain _ | ⟨hframe, hrest⟩ := htypes
    rename_i frame Γ
    refine ⟨.cons (fun y => ?_) hrest, ?_⟩
    · have hshape : ({ scope with bindings := scope.bindings ++ [(x, b)] } : Scope).shape.2 =
          scope.types ++ [(x, b.ty)] := by simp [Scope.shape, Scope.types]
      have hfree : scope.types.lookup x = none := by
        rw [lookup_types, hnew]
        rfl
      have hold : scope.types.lookup y = frame.lookup y := hframe y
      rw [hshape, List.lookup_append, List.lookup_cons, List.lookup_cons, ← hold]
      by_cases hy : y = x
      · subst hy
        simp [hfree]
      · simp [beq_eq_false_iff_ne.2 hy]
    · intro τ hτ
      simp only [Frames.values, Frames.declare, List.flatMap_cons, List.map_cons,
        List.cons_append, List.mem_cons] at hτ
      rcases hτ with rfl | hτ
      · exact hword
      · exact hwords τ hτ

end Sees

/-! ## Steps without a report -/

section

variable {α β : Type} {m : Check α} {f : α → Check β} {c : Context} {s s' : State} {a : α}

theorem run_bind {r : β × State} (h : (m >>= f) c s = r) :
    ∃ a s', m c s = (a, s') ∧ f a c s' = r := ⟨_, _, rfl, h⟩

/-- No diagnostic is taken back. -/
theorem Grows.clean (hm : Grows m) (h : m c s = (a, s')) (hclean : s'.found = []) :
    s.found = [] := by
  have hfound := (hm c s).found
  rw [h, hclean] at hfound
  exact List.prefix_nil.1 hfound

theorem Keeps.clean (hm : Keeps m) (h : m c s = (a, s')) (hclean : s'.found = []) :
    s.found = [] := hm.grows.clean h hclean

theorem Keeps.sees {Γ : TyEnv} (hm : Keeps m) (h : m c s = (a, s')) (hs : Sees s.scopes Γ) :
    Sees s'.scopes Γ := by
  have hshape := (hm c s).shape
  rw [h] at hshape
  exact hs.of_shape hshape

theorem not_clean_report {problem : Problem} {span : Span} {u : Unit}
    (h : report problem span c s = (u, s')) : s'.found ≠ [] := by
  have hfound : s'.found = s.found ++ [problem.diagnose c.file span] := by
    rw [show s' = (report problem span c s).2 by rw [h]]
    rfl
  rw [hfound]
  simp

theorem not_clean_reportName {problem : Problem} {span : Span} {name : String}
    {candidates : List String} {u : Unit}
    (h : reportName problem span name candidates c s = (u, s')) : s'.found ≠ [] := by
  have hfound : s'.found = s.found ++
      [(problem.diagnose c.file span).withSuggestions (suggest name candidates)] := by
    rw [show s' = (reportName problem span name candidates c s).2 by rw [h]]
    rfl
  rw [hfound]
  simp

theorem not_clean_reportUndefined {name : String} {span : Span} {u : Unit}
    (h : reportUndefined name span c s = (u, s')) : s'.found ≠ [] := by
  obtain ⟨_, _, _, h⟩ := run_bind h
  obtain ⟨_, _, _, h⟩ := run_bind h
  exact not_clean_reportName h

/-- Where nothing was reported the condition holds. -/
theorem holds_of_expect {holds : Bool} {problem : Problem} {span : Span} {u : Unit}
    (h : expect holds problem span c s = (u, s')) (hclean : s'.found = []) : holds ∧ s' = s := by
  unfold expect at h
  split at h
  case isTrue hholds =>
    cases h
    exact ⟨hholds, rfl⟩
  case isFalse => exact absurd hclean (not_clean_report h)

end

/-! ## Notes -/

section

variable {Γ : TyEnv} {c : Context} {s s' : State}

theorem hasTy_noteLiteral {n n' : Note} {v : Literal} {expected : Option Ty}
    (h : noteLiteral n v expected c s = (n', s')) (hclean : s'.found = []) (hv : v.isWord) :
    ∃ τ, (Expr.literal n' v).HasTy Γ τ := by
  unfold noteLiteral at h
  split at h
  · obtain ⟨_, s₁, h₁, h⟩ := run_bind h
    cases h
    exact ⟨.byte, .literal rfl (.inr ⟨rfl, (holds_of_expect h₁ hclean).1⟩)⟩
  · cases h
    cases v with
    | int v => exact ⟨.int, .literal rfl (.inl rfl)⟩
    | bool b => exact ⟨.bool, .literal rfl rfl⟩
    | _ => cases hv

theorem isSome_noteLibraryConstant {n n' : Note} {constant : LibraryConstant}
    (h : noteLibraryConstant n constant c s = (n', s')) (hclean : s'.found = []) :
    n'.value?.isSome := by
  unfold noteLibraryConstant at h
  cases hvalue : constant.toConstant? with
  | some value =>
      rw [hvalue] at h
      cases h
      rfl
  | none =>
      rw [hvalue] at h
      obtain ⟨_, s₁, h₁, h⟩ := run_bind h
      cases h
      exact absurd hclean (not_clean_report h₁)

/-- A name that is no variable is noted to stand for something else, or reported. -/
theorem isSome_noteGlobal {n n' : Note} {x : String} (h : noteGlobal n x c s = (n', s'))
    (hclean : s'.found = []) : n'.value?.isSome := by
  obtain ⟨c', s₁, h₁, h⟩ := run_bind h
  cases h₁
  split at h
  case isTrue =>
    cases h
    rfl
  case isFalse =>
    cases hconstant : importedConstant? c x with
    | some constant =>
        rw [hconstant] at h
        exact isSome_noteLibraryConstant h hclean
    | none =>
        rw [hconstant] at h
        cases hproblem : notValue? c x with
        | some problem =>
            simp only [hproblem] at h
            obtain ⟨_, s₁, h₁, h⟩ := run_bind h
            cases h
            exact absurd hclean (not_clean_report h₁)
        | none =>
            simp only [hproblem] at h
            obtain ⟨_, s₁, h₁, h⟩ := run_bind h
            cases h
            exact absurd hclean (not_clean_reportUndefined h₁)

/-- A name that stands for nothing but a variable is one of the variables in scope. -/
theorem hasTy_noteName {n n' : Note} {x : String} (h : noteName n x c s = (n', s'))
    (hclean : s'.found = []) (hn' : n'.value?.isNone) (hs : Sees s.scopes Γ) :
    ∃ τ, (Expr.ident n' x).HasTy Γ τ := by
  obtain ⟨b, s₁, h₁, h⟩ := run_bind h
  cases h₁
  have hfind := hs.find? x
  cases hb : s.scopes.resolve? x with
  | some b =>
      rw [hb] at h hfind
      obtain ⟨_, s₂, _, h⟩ := run_bind h
      cases h
      exact ⟨b.ty, .ident rfl hfind.symm (hs.isWord hfind.symm)⟩
  | none =>
      rw [hb] at h
      have hsome := isSome_noteGlobal h hclean
      rw [Option.isNone_iff_eq_none.1 hn'] at hsome
      cases hsome

theorem noteUnary_eq {n n' : Note} {op : UnaryOp} {τ : Ty}
    (h : noteUnary n op (some τ) c s = (n', s')) (hclean : s'.found = []) :
    unaryApplies op τ ∧ n'.type? = some τ := by
  unfold noteUnary at h
  dsimp only at h
  split at h
  case isTrue happ =>
    cases h
    exact ⟨happ, rfl⟩
  case isFalse =>
    obtain ⟨_, s₁, h₁, h⟩ := run_bind h
    cases h
    exact absurd hclean (not_clean_report h₁)

/-- An operation on types of the fragment that is not reported. -/
theorem binaryResult?_eq {op : BinaryOp} {left right : Ty} {span : Span} {r : Option Ty}
    (hl : left.isWord) (hr : right.isWord) (h : binaryResult? op left right span c s = (r, s'))
    (hclean : s'.found = []) :
    s' = s ∧ if op.isLogical then left = .bool ∧ right = .bool ∧ r = some .bool
      else left = right ∧ binaryApplies op left ∧ r = some (op.resultTy left) := by
  have hreported : ∀ {problem r s'}, (do report problem span; return none : Check (Option Ty)) c s =
      (r, s') → s'.found ≠ [] := by
    intro problem r s' h
    obtain ⟨_, s₁, h₁, h⟩ := run_bind h
    cases h
    exact not_clean_report h₁
  unfold binaryResult? at h
  split at h
  case isTrue hop =>
    rw [if_pos hop]
    split at h
    case isTrue hbool =>
      cases h
      rw [Bool.and_eq_true] at hbool
      exact ⟨rfl, Ty.eq_bool_of_isBool hbool.1, Ty.eq_bool_of_isBool hbool.2, rfl⟩
    case isFalse => exact absurd hclean (hreported h)
  case isFalse hop =>
    rw [if_neg hop]
    split at h
    case isTrue hne =>
      obtain ⟨b₁, s₁, h₁, h⟩ := run_bind h
      cases h₁
      obtain ⟨b₂, s₂, h₂, h⟩ := run_bind h
      cases h₂
      dsimp only at h
      split at h
      case isTrue hrelated =>
        rw [Bool.and_eq_true, Bool.or_eq_true] at hrelated
        rcases hrelated.2 with happ | happ
        · exact absurd (Hierarchy.eq_of_isAssignable hl happ) hne
        · exact absurd (Hierarchy.eq_of_isAssignable hr happ).symm hne
      case isFalse => exact absurd hclean (hreported h)
    case isFalse heq =>
      split at h
      case isTrue happ =>
        cases h
        exact ⟨rfl, not_not.1 heq, happ, rfl⟩
      case isFalse => exact absurd hclean (hreported h)

theorem hasTy_noteBinary {n n' : Note} {op : BinaryOp} {l r : Expr} {τ τ' : Ty}
    (hl : l.HasTy Γ τ) (hr : r.HasTy Γ τ')
    (h : noteBinary n op l.type? r.type? c s = (n', s')) (hclean : s'.found = []) :
    ∃ τ, (Expr.binary n' op l r).HasTy Γ τ := by
  rw [hl.type?, hr.type?] at h
  obtain ⟨result, s₁, h₁, h⟩ := run_bind h
  cases h
  obtain ⟨_, hresult⟩ := binaryResult?_eq hl.isWord hr.isWord h₁ hclean
  cases hop : op.isLogical with
  | true =>
      rw [hop, if_pos rfl] at hresult
      obtain ⟨rfl, rfl, rfl⟩ := hresult
      exact ⟨_, .logical rfl hop hl hr⟩
  | false =>
      rw [hop, if_neg Bool.false_ne_true] at hresult
      obtain ⟨rfl, happ, rfl⟩ := hresult
      exact ⟨_, .binary rfl hop hl hr happ⟩

theorem hasTy_of_expectCondition {e : Expr} {τ : Ty} {u : Unit} (he : e.HasTy Γ τ)
    (h : expectCondition e c s = (u, s')) (hclean : s'.found = []) : e.HasTy Γ .bool := by
  unfold expectCondition at h
  rw [he.type?] at h
  exact Ty.eq_bool_of_isBool (holds_of_expect h hclean).1 ▸ he

theorem hasTy_noteTernary {n n' : Note} {e a b : Expr} {τ τ' : Ty} (he : e.HasTy Γ .bool)
    (ha : a.HasTy Γ τ) (hb : b.HasTy Γ τ') (h : noteTernary n a b c s = (n', s'))
    (hclean : s'.found = []) : ∃ τ, (Expr.ternary n' e a b).HasTy Γ τ := by
  unfold noteTernary at h
  rw [ha.type?, hb.type?] at h
  obtain ⟨b₁, s₁, h₁, h⟩ := run_bind h
  cases h₁
  split at h
  case isTrue happ =>
    cases h
    obtain rfl := Hierarchy.eq_of_isAssignable hb.isWord happ
    exact ⟨_, .ternary rfl he ha hb⟩
  case isFalse =>
    obtain ⟨b₂, s₂, h₂, h⟩ := run_bind h
    cases h₂
    split at h
    case isTrue happ =>
      cases h
      obtain rfl := Hierarchy.eq_of_isAssignable ha.isWord happ
      exact ⟨_, .ternary rfl he ha hb⟩
    case isFalse =>
      obtain ⟨_, s₃, h₃, h⟩ := run_bind h
      cases h
      exact absurd hclean (not_clean_report h₃)

theorem hasTy_of_expectAssignable {e : Expr} {τ target : Ty} {u : Unit} (he : e.HasTy Γ τ)
    (h : expectAssignable e target c s = (u, s')) (hclean : s'.found = []) :
    e.HasTy Γ target := by
  unfold expectAssignable at h
  rw [he.type?] at h
  obtain ⟨b, s₁, h₁, h⟩ := run_bind h
  cases h₁
  exact Hierarchy.eq_of_isAssignable he.isWord (holds_of_expect h hclean).1 ▸ he

end

/-! ## Expressions outside the fragment -/

/-- The expression is no literal, no name and no operation. -/
def isCompound : Expr → Bool
  | .literal .. | .ident .. | .unary .. | .binary .. | .ternary .. => false
  | _ => true

theorem inFragment_of_isCompound {e : Expr} (h : isCompound e) : e.inFragment = false := by
  cases e with
  | literal | ident | unary | binary | ternary => cases h
  | _ => rfl

theorem ident?_of_isCompound {e : Expr} (h : isCompound e) : e.ident? = none := by
  cases e with
  | literal | ident | unary | binary | ternary => cases h
  | _ => rfl

/-- Every result of the step is of the given kind. -/
def Gives {α : Type} (p : α → Prop) (m : Check α) : Prop := ∀ (c : Context) (s : State), p (m c s).1

theorem gives_pure {α : Type} {p : α → Prop} {a : α} (h : p a) : Gives p (pure a : Check α) :=
  fun _ _ => h

theorem Gives.of_bind {α β : Type} {p : β → Prop} {m : Check α} {f : α → Check β}
    (h : ∀ a, Gives p (f a)) : Gives p (m >>= f) := fun c _ => h _ c _

theorem Gives.bind {α β : Type} {p : α → Prop} {q : β → Prop} {m : Check α} {f : α → Check β}
    (hm : Gives p m) (hf : ∀ a, p a → Gives q (f a)) : Gives q (m >>= f) :=
  fun c s => hf _ (hm c s) c _

theorem Gives.inScope {α : Type} {p : α → Prop} {m : Check α} (hm : Gives p m) {kind : ScopeKind} :
    Gives p (inScope kind m) := fun c _ => hm c _

theorem Gives.repeated {α : Type} {p : α → Prop} {m : Check α} (hm : Gives p m) :
    Gives p (repeated m) := fun c _ => hm c _

theorem Gives.run {α : Type} {p : α → Prop} {m : Check α} {c : Context} {s s' : State} {a : α}
    (hm : Gives p m) (h : m c s = (a, s')) : p a := by
  have hp := hm c s
  rw [h] at hp
  exact hp

/-- What is outside the fragment stays outside. -/
theorem gives_checkExpr {e : Expr} (h : isCompound e) (expected : Option Ty) :
    Gives (fun e' => isCompound e' = true) (checkExpr expected e) := by
  cases e with
  | literal | ident | unary | binary | ternary => cases h
  | self n =>
      rw [checkExpr]
      exact Gives.of_bind fun _ => gives_pure rfl
  | call n name args =>
      rw [checkExpr]
      refine Gives.of_bind fun _ => ?_
      split
      · exact Gives.of_bind fun _ => Gives.of_bind fun _ => gives_pure rfl
      · split
        · exact Gives.of_bind fun _ => Gives.of_bind fun _ => Gives.of_bind fun _ => gives_pure rfl
        · exact Gives.of_bind fun _ => Gives.of_bind fun _ => Gives.of_bind fun _ => gives_pure rfl
  | methodCall n e method args =>
      rw [checkExpr]
      refine Gives.of_bind fun _ => ?_
      split
      · exact Gives.of_bind fun _ => Gives.of_bind fun _ => Gives.of_bind fun _ => gives_pure rfl
      · exact Gives.of_bind fun _ => Gives.of_bind fun _ => gives_pure rfl
      · exact Gives.of_bind fun _ => gives_pure rfl
      · refine Gives.of_bind fun _ => ?_
        split
        · exact Gives.of_bind fun _ => gives_pure rfl
        · refine Gives.of_bind fun _ => Gives.of_bind fun _ => Gives.of_bind fun _ => ?_
          exact Gives.of_bind fun _ => gives_pure rfl
  | member n e name =>
      rw [checkExpr]
      refine Gives.of_bind fun _ => ?_
      split
      · exact Gives.of_bind fun _ => gives_pure rfl
      · exact Gives.of_bind fun _ => gives_pure rfl
      · refine Gives.of_bind fun _ => ?_
        split
        · exact gives_pure rfl
        · exact Gives.of_bind fun _ => gives_pure rfl
  | index n e i =>
      rw [checkExpr]
      refine Gives.of_bind fun _ => ?_
      split
      · exact Gives.of_bind fun _ => gives_pure rfl
      · exact Gives.of_bind fun _ => Gives.of_bind fun _ => gives_pure rfl
  | cast n e target =>
      rw [checkExpr]
      exact Gives.of_bind fun _ => Gives.of_bind fun _ => gives_pure rfl
  | list n items =>
      rw [checkExpr]
      exact Gives.of_bind fun _ => gives_pure rfl
  | map n entries =>
      rw [checkExpr]
      exact Gives.of_bind fun _ => gives_pure rfl

/-! ## Expressions -/

/-- An expression of the fragment that passes has a type. -/
theorem checkExpr_hasTy {Γ : TyEnv} {c : Context} : (e : Expr) → {expected : Option Ty} →
    {s s' : State} → {e' : Expr} → checkExpr expected e c s = (e', s') → s'.found = [] → e'.inFragment →
    Sees s.scopes Γ → ∃ τ, e'.HasTy Γ τ
  | .literal n v, expected, s, s', e', h, hclean, hfrag, hs => by
      rw [checkExpr] at h
      obtain ⟨n', s₁, h₁, h⟩ := run_bind h
      cases h
      exact hasTy_noteLiteral h₁ hclean hfrag
  | .ident n x, expected, s, s', e', h, hclean, hfrag, hs => by
      rw [checkExpr] at h
      obtain ⟨n', s₁, h₁, h⟩ := run_bind h
      cases h
      exact hasTy_noteName h₁ hclean hfrag hs
  | .unary n op e, expected, s, s', e', h, hclean, hfrag, hs => by
      rw [checkExpr] at h
      obtain ⟨e₁, s₁, h₁, h⟩ := run_bind h
      obtain ⟨n', s₂, h₂, h⟩ := run_bind h
      cases h
      have hclean₁ := (namesKept.looks_noteUnary _ _ _).keeps.clean h₂ hclean
      obtain ⟨τ, he⟩ := checkExpr_hasTy e h₁ hclean₁ hfrag hs
      rw [he.type?] at h₂
      obtain ⟨happ, hn⟩ := noteUnary_eq h₂ hclean
      exact ⟨τ, .unary hn he happ⟩
  | .binary n op l r, expected, s, s', e', h, hclean, hfrag, hs => by
      rw [checkExpr] at h
      split at h
      case isTrue =>
        obtain ⟨r', s₁, h₁, h⟩ := run_bind h
        obtain ⟨l', s₂, h₂, h⟩ := run_bind h
        obtain ⟨n', s₃, h₃, h⟩ := run_bind h
        cases h
        rw [Expr.inFragment, Bool.and_eq_true] at hfrag
        have hclean₂ := (namesKept.looks_noteBinary _ _ _ _).keeps.clean h₃ hclean
        have hclean₁ := (inspects_checkExpr _ _).keeps.clean h₂ hclean₂
        obtain ⟨τ, hr⟩ := checkExpr_hasTy r h₁ hclean₁ hfrag.2 hs
        obtain ⟨τ', hl⟩ := checkExpr_hasTy l h₂ hclean₂ hfrag.1 ((inspects_checkExpr _ _).keeps.sees h₁ hs)
        exact hasTy_noteBinary hl hr h₃ hclean
      case isFalse =>
        obtain ⟨l', s₁, h₁, h⟩ := run_bind h
        obtain ⟨r', s₂, h₂, h⟩ := run_bind h
        obtain ⟨n', s₃, h₃, h⟩ := run_bind h
        cases h
        rw [Expr.inFragment, Bool.and_eq_true] at hfrag
        have hclean₂ := (namesKept.looks_noteBinary _ _ _ _).keeps.clean h₃ hclean
        have hclean₁ := (inspects_checkExpr _ _).keeps.clean h₂ hclean₂
        obtain ⟨τ, hl⟩ := checkExpr_hasTy l h₁ hclean₁ hfrag.1 hs
        obtain ⟨τ', hr⟩ := checkExpr_hasTy r h₂ hclean₂ hfrag.2 ((inspects_checkExpr _ _).keeps.sees h₁ hs)
        exact hasTy_noteBinary hl hr h₃ hclean
  | .ternary n e a b, expected, s, s', e', h, hclean, hfrag, hs => by
      rw [checkExpr] at h
      obtain ⟨e₁, s₁, h₁, h⟩ := run_bind h
      obtain ⟨_, s₂, h₂, h⟩ := run_bind h
      obtain ⟨a', s₃, h₃, h⟩ := run_bind h
      obtain ⟨b', s₄, h₄, h⟩ := run_bind h
      obtain ⟨n', s₅, h₅, h⟩ := run_bind h
      cases h
      simp only [Expr.inFragment, Bool.and_eq_true] at hfrag
      obtain ⟨⟨hfrage, hfraga⟩, hfragb⟩ := hfrag
      have hclean₄ := (namesKept.looks_noteTernary _ _ _).keeps.clean h₅ hclean
      have hclean₃ := (inspects_checkExpr _ _).keeps.clean h₄ hclean₄
      have hclean₂ := (inspects_checkExpr _ _).keeps.clean h₃ hclean₃
      have hclean₁ := (namesKept.looks_expectCondition _).keeps.clean h₂ hclean₂
      have hs₂ := (namesKept.looks_expectCondition _).keeps.sees h₂ ((inspects_checkExpr _ _).keeps.sees h₁ hs)
      obtain ⟨τ₁, he⟩ := checkExpr_hasTy e h₁ hclean₁ hfrage hs
      obtain ⟨τ₂, ha⟩ := checkExpr_hasTy a h₃ hclean₃ hfraga hs₂
      obtain ⟨τ₃, hb⟩ := checkExpr_hasTy b h₄ hclean₄ hfragb ((inspects_checkExpr _ _).keeps.sees h₃ hs₂)
      exact hasTy_noteTernary (hasTy_of_expectCondition he h₂ hclean₂) ha hb h₅ hclean
  | .self _, _, _, _, _, h, _, hfrag, _ | .call .., _, _, _, _, h, _, hfrag, _
  | .methodCall .., _, _, _, _, h, _, hfrag, _ | .member .., _, _, _, _, h, _, hfrag, _
  | .index .., _, _, _, _, h, _, hfrag, _ | .cast .., _, _, _, _, h, _, hfrag, _
  | .list .., _, _, _, _, h, _, hfrag, _ | .map .., _, _, _, _, h, _, hfrag, _ => by
      rw [inFragment_of_isCompound ((gives_checkExpr (by rfl) _).run h)] at hfrag
      cases hfrag

end Analysis

end ProtoScript
