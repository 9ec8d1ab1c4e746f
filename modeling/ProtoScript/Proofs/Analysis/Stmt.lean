import ProtoScript.Proofs.Analysis.Expr

set_option autoImplicit false

/-!
# Functions that pass the checker obey the rules

The statements of the scalar fragment in which no problem was found are well typed
(`checkStmt_wellTyped`). The scopes of the checker are those of the rules: a body has a scope of its
own, a declaration adds its name behind its initial value, and loops and arms of a switch around a
jump are scopes around it.
-/

namespace ProtoScript

namespace Scopes

/-- Where jumps can go depends on the kinds of the scopes. -/
theorem within_congr (kinds : List ScopeKind) {s s' : Scopes}
    (h : s'.shape.map Prod.fst = s.shape.map Prod.fst) : s'.within kinds = s.within kinds := by
  induction s generalizing s' with
  | nil =>
      cases s' with
      | nil => rfl
      | cons scope outer => cases h
  | cons scope outer ih =>
      cases s' with
      | nil => cases h
      | cons scope' outer' =>
          obtain ⟨hkind, hrest⟩ := List.cons.inj h
          have hkind : scope'.kind = scope.kind := hkind
          rw [within, within, hkind, ih hrest]

end Scopes

namespace Analysis

variable {Γ : TyEnv} {c : Context} {s s' : State}

/-! ## Parts of statements -/

theorem checkStored_hasTy {ty : Ty} {e e' : Expr} (h : checkStored ty e c s = (e', s'))
    (hclean : s'.found = []) (hfrag : e'.inFragment) (hs : Sees s.scopes Γ) :
    e'.HasTy Γ ty := by
  obtain ⟨e₁, s₁, h₁, h⟩ := run_bind h
  obtain ⟨_, s₂, h₂, h⟩ := run_bind h
  cases h
  obtain ⟨τ, he⟩ := checkExpr_hasTy e h₁ ((namesKept.looks_expectAssignable _ _).keeps.clean h₂ hclean) hfrag hs
  exact hasTy_of_expectAssignable he h₂ hclean

theorem checkCondition_hasTy {e e' : Expr} (h : checkCondition e c s = (e', s'))
    (hclean : s'.found = []) (hfrag : e'.inFragment) (hs : Sees s.scopes Γ) :
    e'.HasTy Γ .bool := by
  obtain ⟨e₁, s₁, h₁, h⟩ := run_bind h
  obtain ⟨_, s₂, h₂, h⟩ := run_bind h
  cases h
  obtain ⟨τ, he⟩ := checkExpr_hasTy e h₁ ((namesKept.looks_expectCondition _).keeps.clean h₂ hclean) hfrag hs
  exact hasTy_of_expectCondition he h₂ hclean

theorem checkSwitched_hasTy {e e' : Expr} (h : checkSwitched e c s = (e', s'))
    (hclean : s'.found = []) (hfrag : e'.inFragment) (hs : Sees s.scopes Γ) :
    ∃ τ, e'.HasTy Γ τ := by
  obtain ⟨e₁, s₁, h₁, h⟩ := run_bind h
  cases hty : e₁.type? with
  | none =>
      simp only [hty] at h
      cases h
      exact checkExpr_hasTy e h₁ hclean hfrag hs
  | some ty =>
      simp only [hty] at h
      obtain ⟨_, s₂, h₂, h⟩ := run_bind h
      cases h
      exact checkExpr_hasTy e h₁ ((namesKept.keeps_expect _ _ _).clean h₂ hclean) hfrag hs

/-- The value of an assignment that passes fits the variable. -/
theorem checkAssigned_fitsVar {span : Span} {τ : Ty} {op : Option BinaryOp} {e e' : Expr}
    (h : checkAssigned span τ op e c s = (e', s')) (hclean : s'.found = []) (hfrag : e'.inFragment)
    (hs : Sees s.scopes Γ) (hword : τ.isWord) : e'.FitsVar Γ τ op := by
  cases op with
  | none => exact checkStored_hasTy h hclean hfrag hs
  | some op =>
      obtain ⟨e₁, s₁, h₁, h⟩ := run_bind h
      cases hty : e₁.type? with
      | none =>
          simp only [hty] at h
          cases h
          obtain ⟨τ', he⟩ := checkExpr_hasTy e h₁ hclean hfrag hs
          rw [he.type?] at hty
          cases hty
      | some ty =>
          simp only [hty] at h
          obtain ⟨r, s₂, h₂, h⟩ := run_bind h
          have hrest : e' = e₁ ∧ s₂.found = [] ∧ ∀ result, r = some result → result = τ := by
            cases r with
            | none =>
                cases h
                refine ⟨rfl, hclean, fun _ hr => ?_⟩
                cases hr
            | some result =>
                obtain ⟨_, s₃, h₃, h⟩ := run_bind h
                cases h
                obtain ⟨heq, rfl⟩ := holds_of_expect h₃ hclean
                refine ⟨rfl, hclean, fun _ hr => ?_⟩
                cases hr
                exact beq_iff_eq.1 heq
          obtain ⟨rfl, hclean₂, hresult⟩ := hrest
          obtain ⟨τ', he⟩ := checkExpr_hasTy e h₁ ((namesKept.looks_binaryResult? _ _ _ _).keeps.clean h₂ hclean₂)
            hfrag hs
          obtain rfl : τ' = ty := by
            rw [he.type?] at hty
            exact Option.some.inj hty
          have happ := (binaryResult?_eq hword he.isWord h₂ hclean₂).2
          simp only [Expr.FitsVar]
          split at happ
          case isTrue hop =>
            obtain ⟨rfl, rfl, _⟩ := happ
            rw [if_pos hop]
            exact ⟨rfl, he⟩
          case isFalse hop =>
            obtain ⟨rfl, happ, hr⟩ := happ
            rw [if_neg hop]
            exact ⟨he, happ, hresult _ hr⟩

/-- An assignment to a name that passes is one to a variable in scope. -/
theorem checkAssignName_wellTyped {span : Span} {n n' : Note} {x : String} {op : Option BinaryOp}
    {e e' : Expr} (h : checkAssignName span n x op e c s = ((n', e'), s')) (hclean : s'.found = [])
    (hfrag : e'.inFragment) (hs : Sees s.scopes Γ) :
    ∃ τ, n'.type? = some τ ∧ Frames.find? Γ x = some τ ∧ τ.isWord ∧ e'.FitsVar Γ τ op := by
  obtain ⟨b, s₁, h₁, h⟩ := run_bind h
  cases h₁
  have hfind := hs.find? x
  cases hb : s.scopes.resolve? x with
  | none =>
      rw [hb] at h
      obtain ⟨c', s₁, h₁, h⟩ := run_bind h
      cases h₁
      cases hproblem : assignProblem? c x with
      | some problem =>
          simp only [hproblem] at h
          obtain ⟨_, s₁, h₁, h⟩ := run_bind h
          obtain ⟨_, s₂, h₂, h⟩ := run_bind h
          cases h
          exact absurd ((inspects_checkExpr _ _).keeps.clean h₂ hclean) (not_clean_report h₁)
      | none =>
          simp only [hproblem] at h
          obtain ⟨_, s₁, h₁, h⟩ := run_bind h
          obtain ⟨_, s₂, h₂, h⟩ := run_bind h
          cases h
          exact absurd ((inspects_checkExpr _ _).keeps.clean h₂ hclean) (not_clean_reportUndefined h₁)
  | some b =>
      rw [hb] at h hfind
      obtain ⟨_, s₁, h₁, h⟩ := run_bind h
      obtain ⟨_, s₂, h₂, h⟩ := run_bind h
      obtain ⟨e₁, s₃, h₃, h⟩ := run_bind h
      obtain ⟨_, s₄, h₄, h⟩ := run_bind h
      obtain ⟨_, s₅, h₅, h⟩ := run_bind h
      cases h
      cases h₅
      have hclean₃ := (namesKept.keeps_aliasesSelf _).clean h₄ hclean
      have hs₂ := (namesKept.keeps_expect _ _ _).sees h₂ ((namesKept.keeps_expect _ _ _).sees h₁ hs)
      have hword := hs.isWord hfind.symm
      exact ⟨b.ty, rfl, hfind.symm, hword, checkAssigned_fitsVar h₃ hclean₃ hfrag hs₂ hword⟩

/-- A target that is no name stays so. -/
theorem gives_checkAssign {target : Expr} (h : isCompound target) (span : Span)
    (op : Option BinaryOp) (e : Expr) :
    Gives (fun r => isCompound r.1 = true) (checkAssign span target op e) := by
  cases target with
  | literal | ident | unary | binary | ternary => cases h
  | member n object x =>
      refine Gives.of_bind fun owner => ?_
      split
      · exact Gives.of_bind fun _ => Gives.of_bind fun _ => gives_pure rfl
      · refine (gives_checkExpr rfl none).bind fun target htarget => ?_
        split
        · exact Gives.of_bind fun _ => gives_pure htarget
        · refine Gives.of_bind fun _ => Gives.of_bind fun _ => Gives.of_bind fun _ => ?_
          exact gives_pure htarget
  | index n object i =>
      refine Gives.of_bind fun object => ?_
      split
      · exact Gives.of_bind fun _ => Gives.of_bind fun _ => gives_pure rfl
      · split
        · exact Gives.of_bind fun _ => Gives.of_bind fun _ => Gives.of_bind fun _ => gives_pure rfl
        · refine Gives.of_bind fun _ => Gives.of_bind fun elem? => ?_
          split
          · exact Gives.of_bind fun _ => Gives.of_bind fun _ => gives_pure rfl
          · exact Gives.of_bind fun _ => Gives.of_bind fun _ => gives_pure rfl
  | _ => exact Gives.of_bind fun _ => Gives.of_bind fun _ => Gives.of_bind fun _ => gives_pure rfl

/-- An assignment of the fragment that passes obeys the rules. -/
theorem checkAssign_wellTyped {span : Span} {target target' : Expr} {op : Option BinaryOp}
    {e e' : Expr} (h : checkAssign span target op e c s = ((target', e'), s'))
    (hclean : s'.found = []) (hfrag : (Stmt.assign span target' op e').inFragment)
    (hs : Sees s.scopes Γ) (ret : Ty) (loop brk : Bool) :
    (Stmt.assign span target' op e').WellTyped ret loop brk Γ := by
  rw [Stmt.inFragment, Bool.and_eq_true] at hfrag
  obtain ⟨hident, hfrag⟩ := hfrag
  cases target with
  | ident n x =>
      obtain ⟨r, s₁, h₁, h⟩ := run_bind h
      obtain ⟨n', e₁⟩ := r
      obtain ⟨_, s₂, h₂, h⟩ := run_bind h
      cases h
      rw [Stmt.WellTyped]
      exact checkAssignName_wellTyped h₁ ((namesKept.keeps_escape _).clean h₂ hclean) hfrag hs
  | literal | unary | binary | ternary =>
      obtain ⟨_, s₁, h₁, h⟩ := run_bind h
      obtain ⟨_, s₂, h₂, h⟩ := run_bind h
      obtain ⟨_, s₃, h₃, h⟩ := run_bind h
      cases h
      have hclean₁ := (inspects_checkExpr _ _).keeps.clean h₂ ((namesKept.keeps_escape _).clean h₃ hclean)
      exact absurd hclean₁ (not_clean_report h₁)
  | _ =>
      rw [ident?_of_isCompound ((gives_checkAssign (by rfl) span op e).run h)] at hident
      cases hident

/-! ## Declarations and returns -/

theorem checkTy_eq {ty : Ty} (hword : ty.isWord) (span : Span) (c : Context) (s : State) :
    checkTy ty span c s = (true, s) := by
  cases ty with
  | prim p => rfl
  | _ => cases hword

theorem containsVoid_of_isWord {ty : Ty} (hword : ty.isWord) : ty.containsVoid = false := by
  cases ty with
  | prim p =>
      cases p with
      | int | byte | bool => rfl
      | _ => cases hword
  | _ => cases hword

/-- A name that passes is new to the innermost scope, and bound there. -/
theorem sees_checkDeclared {x : String} {b : Binding} {span : Span} {init init' : Option Expr}
    (h : checkDeclared span x b init c s = (init', s'))
    (hclean : s'.found = []) (hs : Sees s.scopes Γ) (hword : b.ty.isWord) :
    init' = init ∧ s.found = [] ∧ Sees s'.scopes (Frames.declare x b.ty Γ) := by
  obtain ⟨previous, s₁, h₁, h⟩ := run_bind h
  cases previous with
  | some previous =>
      obtain ⟨_, s₂, h₂, h⟩ := run_bind h
      cases h
      exact absurd hclean (not_clean_report h₂)
  | none =>
      cases h
      refine ⟨rfl, (grows_define x b).clean h₁ hclean, ?_⟩
      rw [define_eq] at h₁
      cases hdefine : s.scopes.define x b with
      | error previous =>
          rw [hdefine] at h₁
          cases h₁
      | ok scopes =>
          rw [hdefine] at h₁
          cases h₁
          exact hs.define hword hdefine

/-- A declaration that passes obeys the rules, and its variable is in scope behind it. -/
theorem checkVarDecl_wellTyped {span : Span} {x : String} {ty : Ty} {isConst : Bool}
    {init init' : Option Expr} (h : checkVarDecl span x ty isConst init c s = (init', s'))
    (hclean : s'.found = []) (hword : ty.isWord) (hfrag : init'.all Expr.inFragment)
    (hs : Sees s.scopes Γ) :
    (∀ e, init' = some e → e.HasTy Γ ty) ∧ Sees s'.scopes (Frames.declare x ty Γ) := by
  obtain ⟨known, s₁, h₁, h⟩ := run_bind h
  rw [checkTy_eq hword] at h₁
  cases h₁
  obtain ⟨_, s₂, h₂, h⟩ := run_bind h
  obtain ⟨_, s₃, h₃, h⟩ := run_bind h
  have hs₃ := (namesKept.keeps_expect _ _ _).sees h₃ ((namesKept.keeps_expect _ _ _).sees h₂ hs)
  cases init with
  | none =>
      obtain ⟨rfl, _, hsees⟩ := sees_checkDeclared h hclean hs₃ hword
      exact ⟨nofun, hsees⟩
  | some e =>
      rw [containsVoid_of_isWord hword] at h
      obtain ⟨e₁, s₄, h₄, h⟩ := run_bind h
      obtain ⟨_, s₅, h₅, h⟩ := run_bind h
      obtain ⟨_, s₆, h₆, h⟩ := run_bind h
      have hs₄ := (namesKept.looks_checkStored _ _).keeps.sees h₄ hs₃
      have hs₆ := (namesKept.keeps_escape _).sees h₆ ((namesKept.keeps_aliasesSelf _).sees h₅ hs₄)
      obtain ⟨rfl, hclean₆, hsees⟩ := sees_checkDeclared h hclean hs₆ hword
      refine ⟨fun e' he => ?_, hsees⟩
      cases he
      have hclean₄ := (namesKept.keeps_aliasesSelf _).clean h₅ ((namesKept.keeps_escape _).clean h₆ hclean₆)
      exact checkStored_hasTy h₄ hclean₄ hfrag hs₃

theorem checkReturned_hasTy {span : Span} {ret : Ty} {e : Expr} {value : Option Expr}
    (h : checkReturned span ret e c s = (value, s')) (hclean : s'.found = [])
    (hfrag : value.all Expr.inFragment) (hs : Sees s.scopes Γ) :
    ∃ e', value = some e' ∧ e'.HasTy Γ ret := by
  unfold checkReturned at h
  split at h
  case isTrue =>
    obtain ⟨_, s₁, h₁, h⟩ := run_bind h
    obtain ⟨_, s₂, h₂, h⟩ := run_bind h
    obtain ⟨_, s₃, h₃, h⟩ := run_bind h
    cases h
    exact absurd ((namesKept.keeps_escape _).clean h₃ hclean) (not_clean_report h₂)
  case isFalse =>
    obtain ⟨e₁, s₁, h₁, h⟩ := run_bind h
    cases hty : e₁.type? with
    | none =>
        simp only [hty] at h
        obtain ⟨_, s₂, h₂, h⟩ := run_bind h
        cases h
        obtain ⟨τ, he⟩ := checkExpr_hasTy e h₁ ((namesKept.keeps_escape _).clean h₂ hclean) hfrag hs
        rw [he.type?] at hty
        cases hty
    | some ty =>
        simp only [hty] at h
        obtain ⟨_, s₂, h₂, h⟩ := run_bind h
        cases h₂
        obtain ⟨_, s₃, h₃, h⟩ := run_bind h
        obtain ⟨_, s₄, h₄, h⟩ := run_bind h
        cases h
        have hclean₃ := (namesKept.keeps_escape _).clean h₄ hclean
        obtain ⟨happ, rfl⟩ := holds_of_expect h₃ hclean₃
        obtain ⟨τ, he⟩ := checkExpr_hasTy e h₁ hclean₃ hfrag hs
        obtain rfl : τ = ty := by
          rw [he.type?] at hty
          exact Option.some.inj hty
        exact ⟨e₁, rfl, Hierarchy.eq_of_isAssignable he.isWord happ ▸ he⟩

/-- What is returned has the type of the result. -/
theorem checkReturn_wellTyped {span : Span} {value value' : Option Expr}
    (h : checkReturn span value c s = (value', s')) (hclean : s'.found = [])
    (hfrag : value'.all Expr.inFragment) (hs : Sees s.scopes Γ) (loop brk : Bool) :
    (Stmt.ret span value').WellTyped c.ret loop brk Γ := by
  obtain ⟨c', s₁, h₁, h⟩ := run_bind h
  cases h₁
  cases value with
  | none =>
      obtain ⟨_, s₁, h₁, h⟩ := run_bind h
      cases h
      rw [Stmt.WellTyped]
      exact Ty.eq_void_of_isVoid (holds_of_expect h₁ hclean).1
  | some e =>
      obtain ⟨c', s₁, h₁, h⟩ := run_bind h
      cases h₁
      have hrest : ∃ s₁, Sees s₁.scopes Γ ∧ checkReturned span c.ret e c s₁ = (value', s') := by
        by_cases hproto : c.proto?.isSome
        · dsimp only at h
          rw [if_pos hproto] at h
          obtain ⟨_, s₁, h₁, h⟩ := run_bind h
          obtain ⟨_, s₂, h₂, h⟩ := run_bind h
          exact ⟨s₂, (namesKept.keeps_expect _ _ _).sees h₂ ((namesKept.keeps_aliasesSelf _).sees h₁ hs), h⟩
        · dsimp only at h
          rw [if_neg hproto] at h
          exact ⟨s, hs, h⟩
      obtain ⟨s₁, hs₁, h⟩ := hrest
      obtain ⟨e', rfl, he⟩ := checkReturned_hasTy h hclean hfrag hs₁
      rw [Stmt.WellTyped]
      exact he

/-! ## Statements -/

/-- What the checker knows at a point: the types of the names in scope, whether a loop is around, and
whether a loop or switch is. -/
structure Stands (loop brk : Bool) (Γ : TyEnv) (scopes : Scopes) : Prop extends Sees scopes Γ where
  inLoop : scopes.inLoop = loop
  canBreak : scopes.canBreak = brk

section

variable {α : Type} {m : Check α} {a : α} {loop brk : Bool} {scopes : Scopes}

theorem Grows.within (hm : Grows m) (h : m c s = (a, s')) (kinds : List ScopeKind) :
    s'.scopes.within kinds = s.scopes.within kinds := by
  have hkinds := (hm c s).kinds
  rw [h] at hkinds
  exact Scopes.within_congr kinds hkinds

theorem Keeps.stands (hm : Keeps m) (h : m c s = (a, s')) (hs : Stands loop brk Γ s.scopes) :
    Stands loop brk Γ s'.scopes where
  toSees := hm.sees h hs.toSees
  inLoop := (hm.grows.within h _).trans hs.inLoop
  canBreak := (hm.grows.within h _).trans hs.canBreak

theorem Stands.enterBlock (h : Stands loop brk Γ scopes) :
    Stands loop brk ([] :: Γ) (scopes.enter .block) := ⟨h.enter _, h.inLoop, h.canBreak⟩

theorem Stands.enterLoop (h : Stands loop brk Γ scopes) :
    Stands true true ([] :: Γ) (scopes.enter .loop) := ⟨h.enter _, rfl, rfl⟩

theorem Stands.enterSwitch (h : Stands loop brk Γ scopes) :
    Stands loop true ([] :: Γ) (scopes.enter .switch) := ⟨h.enter _, h.inLoop, rfl⟩

theorem run_inScope {kind : ScopeKind} (h : inScope kind m c s = (a, s')) :
    ∃ s₁, m c { s with scopes := s.scopes.enter kind } = (a, s₁) ∧ s₁.found = s'.found := by
  obtain ⟨_, s₁, h₁, h⟩ := run_bind h
  obtain ⟨a', s₂, h₂, h⟩ := run_bind h
  obtain ⟨_, s₃, h₃, h⟩ := run_bind h
  cases h₁
  cases h₃
  cases h
  exact ⟨s₂, h₂, rfl⟩

theorem run_repeated (h : repeated m c s = (a, s')) :
    ∃ s₁, m c { s with scopes := s.scopes.forgetLengths } = (a, s₁) ∧ s₁.found = s'.found := by
  obtain ⟨_, s₁, h₁, h⟩ := run_bind h
  obtain ⟨_, s₂, h₂, h⟩ := run_bind h
  obtain ⟨a', s₃, h₃, h⟩ := run_bind h
  obtain ⟨_, s₄, h₄, h⟩ := run_bind h
  obtain ⟨_, s₅, h₅, h⟩ := run_bind h
  cases h₁
  cases h₂
  cases h₄
  cases h₅
  cases h
  exact ⟨s₃, h₃, rfl⟩

end

/-- The statement is no part of the fragment, whatever its parts are. -/
def isForeign : Stmt → Bool
  | .expr .. | .for .. | .forEach .. | .throw .. | .try .. => true
  | _ => false

theorem inFragment_of_isForeign {stmt : Stmt} (h : isForeign stmt) : stmt.inFragment = false := by
  cases stmt with
  | expr | «for» | forEach | throw | «try» => rfl
  | _ => cases h

/-- What is outside the fragment stays outside. -/
theorem gives_checkStmt {stmt : Stmt} (h : isForeign stmt) :
    Gives (fun stmt' => isForeign stmt' = true) (checkStmt stmt) := by
  cases stmt with
  | expr span e =>
      rw [checkStmt]
      exact Gives.of_bind fun _ => gives_pure rfl
  | «for» span init e update body =>
      rw [checkStmt]
      refine Gives.inScope (Gives.of_bind fun _ => Gives.repeated ?_)
      split
      · refine Gives.of_bind fun _ => Gives.inScope ?_
        exact Gives.of_bind fun _ => Gives.of_bind fun _ => gives_pure rfl
      · refine Gives.of_bind fun _ => Gives.of_bind fun _ => Gives.inScope ?_
        exact Gives.of_bind fun _ => Gives.of_bind fun _ => gives_pure rfl
  | forEach span kind ty x e body =>
      rw [checkStmt]
      refine Gives.of_bind fun _ => Gives.of_bind fun _ => Gives.repeated (Gives.inScope ?_)
      exact Gives.of_bind fun _ => Gives.of_bind fun _ => gives_pure rfl
  | throw span e =>
      rw [checkStmt]
      exact Gives.of_bind fun _ => gives_pure rfl
  | «try» span body clauses =>
      rw [checkStmt]
      refine Gives.of_bind fun _ => Gives.of_bind fun _ => Gives.of_bind fun _ => ?_
      exact Gives.of_bind fun _ => Gives.of_bind fun _ => gives_pure rfl
  | _ => cases h

/-- An arm obeys the rules if its parts do. -/
theorem checkArmsFrom_wellTyped {loop brk : Bool} {τ : Ty} {before : FlowSnapshot}
    {merged merged' : Option FlowSnapshot} {span : Span} (test : Option Expr) {body : List Stmt}
    {falls : Bool} {rest arms' : List SwitchArm}
    (hbody : ∀ {s s' body'}, checkStmts body c s = (body', s') → s'.found = [] →
      stmtsInFragment body' → Stands loop true ([] :: Γ) s.scopes →
      StmtsWellTyped c.ret loop true ([] :: Γ) body')
    (hrest : ∀ {merged merged' s s' rest'},
      checkArms (some τ) before merged rest c s = ((rest', merged'), s') → s'.found = [] →
      armsInFragment rest' → Stands loop brk Γ s.scopes → ArmsWellTyped c.ret loop τ Γ rest')
    (h : checkArmsFrom (some τ) before merged span test body falls rest c s = ((arms', merged'), s'))
    (hclean : s'.found = []) (hfrag : armsInFragment arms') (hs : Stands loop brk Γ s.scopes)
    (htest : s.found = [] → ∀ e, test = some e → e.inFragment → e.HasTy Γ τ) :
    ArmsWellTyped c.ret loop τ Γ arms' := by
  obtain ⟨_, s₁, h₁, h⟩ := run_bind h
  obtain ⟨body', s₂, h₂, h⟩ := run_bind h
  obtain ⟨_, s₃, h₃, h⟩ := run_bind h
  obtain ⟨_, s₄, h₄, h⟩ := run_bind h
  obtain ⟨r, s₅, h₅, h⟩ := run_bind h
  obtain ⟨rest', merged''⟩ := r
  cases h
  cases h₄
  simp only [armsInFragment, Bool.and_eq_true] at hfrag
  obtain ⟨⟨hfragTest, hfragBody⟩, hfragRest⟩ := hfrag
  have hclean₃ := (namesKept.keeps_checkArms _ _ _ rest).clean h₅ hclean
  obtain ⟨_, rfl⟩ := holds_of_expect h₃ hclean₃
  have hclean₁ := ((grows_checkStmts body).inScope _).clean h₂ hclean₃
  have hs₁ := (namesKept.keeps_restore _).stands h₁ hs
  have hs₂ := ((grows_checkStmts body).inScope _).stands h₂ hs₁
  obtain ⟨t₁, h₂, ht₁⟩ := run_inScope h₂
  rw [ArmsWellTyped]
  refine ⟨?_, hbody h₂ (ht₁.trans hclean₃) hfragBody hs₁.enterSwitch,
    hrest h₅ hclean hfragRest hs₂⟩
  rintro e rfl
  exact htest ((namesKept.keeps_restore _).clean h₁ hclean₁) e rfl hfragTest

mutual

/-- A statement of the fragment that passes obeys the rules. -/
theorem checkStmt_wellTyped : (stmt : Stmt) → {loop brk : Bool} → {Γ : TyEnv} → {s s' : State} →
    {stmt' : Stmt} → checkStmt stmt c s = (stmt', s') → s'.found = [] → stmt'.inFragment →
    Stands loop brk Γ s.scopes →
    stmt'.WellTyped c.ret loop brk Γ ∧ Stands loop brk (Γ.after stmt') s'.scopes
  | .varDecl span x ty isConst init, loop, brk, Γ, s, s', stmt', h, hclean, hfrag, hs => by
      have hgrows := namesKept.grows_checkStmt (.varDecl span x ty isConst init)
      have hloop := (hgrows.within h _).trans hs.inLoop
      have hbrk := (hgrows.within h _).trans hs.canBreak
      rw [checkStmt] at h
      obtain ⟨init', s₁, h₁, h⟩ := run_bind h
      cases h
      rw [Stmt.inFragment, Bool.and_eq_true] at hfrag
      obtain ⟨htyped, hsees⟩ := checkVarDecl_wellTyped h₁ hclean hfrag.1 hfrag.2 hs.toSees
      refine ⟨?_, hsees, hloop, hbrk⟩
      cases init' with
      | none =>
          rw [Stmt.WellTyped]
          exact hfrag.1
      | some e =>
          rw [Stmt.WellTyped]
          exact ⟨hfrag.1, htyped e rfl⟩
  | .assign span target op e, loop, brk, Γ, s, s', stmt', h, hclean, hfrag, hs => by
      have hs' := (keeps_checkStmt _ rfl).stands h hs
      rw [checkStmt] at h
      obtain ⟨r, s₁, h₁, h⟩ := run_bind h
      obtain ⟨target', e'⟩ := r
      cases h
      exact ⟨checkAssign_wellTyped h₁ hclean hfrag hs.toSees _ _ _, hs'⟩
  | .ifThen span e body, loop, brk, Γ, s, s', stmt', h, hclean, hfrag, hs => by
      have hs' := (keeps_checkStmt _ rfl).stands h hs
      rw [checkStmt] at h
      obtain ⟨e', s₁, h₁, h⟩ := run_bind h
      obtain ⟨_, s₂, h₂, h⟩ := run_bind h
      obtain ⟨body', s₃, h₃, h⟩ := run_bind h
      obtain ⟨_, s₄, h₄, h⟩ := run_bind h
      obtain ⟨_, s₅, h₅, h⟩ := run_bind h
      cases h
      cases h₂
      cases h₄
      rw [Stmt.inFragment, Bool.and_eq_true] at hfrag
      have hclean₃ := (namesKept.keeps_restore _).clean h₅ hclean
      have hclean₁ := ((grows_checkStmts body).inScope _).clean h₃ hclean₃
      have hs₁ := (namesKept.looks_checkCondition e).keeps.stands h₁ hs
      obtain ⟨t₁, hbody, ht₁⟩ := run_inScope h₃
      rw [Stmt.WellTyped]
      exact ⟨⟨checkCondition_hasTy h₁ hclean₁ hfrag.1 hs.toSees,
        checkStmts_wellTyped body hbody (ht₁.trans hclean₃) hfrag.2 hs₁.enterBlock⟩, hs'⟩
  | .ifElse span e body other, loop, brk, Γ, s, s', stmt', h, hclean, hfrag, hs => by
      have hs' := (keeps_checkStmt _ rfl).stands h hs
      rw [checkStmt] at h
      obtain ⟨e', s₁, h₁, h⟩ := run_bind h
      obtain ⟨_, s₂, h₂, h⟩ := run_bind h
      obtain ⟨body', s₃, h₃, h⟩ := run_bind h
      obtain ⟨_, s₄, h₄, h⟩ := run_bind h
      obtain ⟨_, s₅, h₅, h⟩ := run_bind h
      obtain ⟨other', s₆, h₆, h⟩ := run_bind h
      obtain ⟨_, s₇, h₇, h⟩ := run_bind h
      obtain ⟨_, s₈, h₈, h⟩ := run_bind h
      cases h
      cases h₂
      cases h₄
      cases h₇
      simp only [Stmt.inFragment, Bool.and_eq_true] at hfrag
      obtain ⟨⟨hfrage, hfragBody⟩, hfragOther⟩ := hfrag
      have hclean₆ := (namesKept.keeps_restore _).clean h₈ hclean
      have hclean₅ := ((grows_checkStmts other).inScope _).clean h₆ hclean₆
      have hclean₃ := (namesKept.keeps_restore _).clean h₅ hclean₅
      have hclean₁ := ((grows_checkStmts body).inScope _).clean h₃ hclean₃
      have hs₁ := (namesKept.looks_checkCondition e).keeps.stands h₁ hs
      have hs₃ := ((grows_checkStmts body).inScope _).stands h₃ hs₁
      have hs₅ := (namesKept.keeps_restore _).stands h₅ hs₃
      obtain ⟨t₁, hbody, ht₁⟩ := run_inScope h₃
      obtain ⟨t₂, hother, ht₂⟩ := run_inScope h₆
      rw [Stmt.WellTyped]
      exact ⟨⟨checkCondition_hasTy h₁ hclean₁ hfrage hs.toSees,
        checkStmts_wellTyped body hbody (ht₁.trans hclean₃) hfragBody hs₁.enterBlock,
        checkStmts_wellTyped other hother (ht₂.trans hclean₆) hfragOther hs₅.enterBlock⟩, hs'⟩
  | .while span e body, loop, brk, Γ, s, s', stmt', h, hclean, hfrag, hs => by
      have hs' := (keeps_checkStmt _ rfl).stands h hs
      rw [checkStmt] at h
      obtain ⟨_, s₁, h₁, h⟩ := run_bind h
      obtain ⟨e', s₂, h₂, h⟩ := run_bind h
      obtain ⟨body', s₃, h₃, h⟩ := run_bind h
      cases h
      rw [Stmt.inFragment, Bool.and_eq_true] at hfrag
      have hclean₂ := ((grows_checkStmts body).inScope _).repeated.clean h₃ hclean
      have hs₁ := namesKept.keeps_forgetLengths.stands h₁ hs
      have hs₂ := (namesKept.looks_checkCondition e).keeps.stands h₂ hs₁
      obtain ⟨t₁, h₃, ht₁⟩ := run_repeated h₃
      obtain ⟨t₂, hbody, ht₂⟩ := run_inScope h₃
      have hforget := namesKept.keeps_forgetLengths.stands (c := c) rfl hs₂
      rw [Stmt.WellTyped]
      exact ⟨⟨checkCondition_hasTy h₂ hclean₂ hfrag.1 hs₁.toSees,
        checkStmts_wellTyped body hbody (ht₂.trans (ht₁.trans hclean)) hfrag.2
          hforget.enterLoop⟩, hs'⟩
  | .doWhile span body e, loop, brk, Γ, s, s', stmt', h, hclean, hfrag, hs => by
      have hs' := (keeps_checkStmt _ rfl).stands h hs
      rw [checkStmt] at h
      obtain ⟨_, s₁, h₁, h⟩ := run_bind h
      obtain ⟨body', s₂, h₂, h⟩ := run_bind h
      obtain ⟨e', s₃, h₃, h⟩ := run_bind h
      obtain ⟨_, s₄, h₄, h⟩ := run_bind h
      cases h
      rw [Stmt.inFragment, Bool.and_eq_true] at hfrag
      have hclean₃ := namesKept.keeps_forgetLengths.clean h₄ hclean
      have hclean₂ := (namesKept.looks_checkCondition e).keeps.clean h₃ hclean₃
      have hs₁ := namesKept.keeps_forgetLengths.stands h₁ hs
      have hs₂ := ((grows_checkStmts body).inScope _).stands h₂ hs₁
      obtain ⟨t₁, hbody, ht₁⟩ := run_inScope h₂
      rw [Stmt.WellTyped]
      exact ⟨⟨checkStmts_wellTyped body hbody (ht₁.trans hclean₂) hfrag.1 hs₁.enterLoop,
        checkCondition_hasTy h₃ hclean₃ hfrag.2 hs₂.toSees⟩, hs'⟩
  | .switch span e arms, loop, brk, Γ, s, s', stmt', h, hclean, hfrag, hs => by
      have hs' := (keeps_checkStmt _ rfl).stands h hs
      rw [checkStmt] at h
      obtain ⟨e', s₁, h₁, h⟩ := run_bind h
      obtain ⟨before, s₂, h₂, h⟩ := run_bind h
      obtain ⟨r, s₃, h₃, h⟩ := run_bind h
      obtain ⟨arms', merged⟩ := r
      obtain ⟨_, s₄, h₄, h⟩ := run_bind h
      cases h
      cases h₂
      rw [Stmt.inFragment, Bool.and_eq_true] at hfrag
      have hclean₃ := (namesKept.keeps_restore _).clean h₄ hclean
      have hclean₁ := (namesKept.keeps_checkArms _ _ _ arms).clean h₃ hclean₃
      have hs₁ := (namesKept.looks_checkSwitched e).keeps.stands h₁ hs
      obtain ⟨τ, he⟩ := checkSwitched_hasTy h₁ hclean₁ hfrag.1 hs.toSees
      rw [he.type?] at h₃
      rw [Stmt.WellTyped]
      exact ⟨⟨τ, he, checkArms_wellTyped arms h₃ hclean₃ hfrag.2 hs₁⟩, hs'⟩
  | .break span, loop, brk, Γ, s, s', stmt', h, hclean, hfrag, hs => by
      have hs' := (keeps_checkStmt _ rfl).stands h hs
      rw [checkStmt] at h
      obtain ⟨_, s₁, h₁, h⟩ := run_bind h
      obtain ⟨_, s₂, h₂, h⟩ := run_bind h
      cases h
      cases h₁
      rw [Stmt.WellTyped]
      exact ⟨hs.canBreak.symm.trans (holds_of_expect h₂ hclean).1, hs'⟩
  | .continue span, loop, brk, Γ, s, s', stmt', h, hclean, hfrag, hs => by
      have hs' := (keeps_checkStmt _ rfl).stands h hs
      rw [checkStmt] at h
      obtain ⟨_, s₁, h₁, h⟩ := run_bind h
      obtain ⟨_, s₂, h₂, h⟩ := run_bind h
      cases h
      cases h₁
      rw [Stmt.WellTyped]
      exact ⟨hs.inLoop.symm.trans (holds_of_expect h₂ hclean).1, hs'⟩
  | .ret span value, loop, brk, Γ, s, s', stmt', h, hclean, hfrag, hs => by
      have hs' := (keeps_checkStmt _ rfl).stands h hs
      rw [checkStmt] at h
      obtain ⟨value', s₁, h₁, h⟩ := run_bind h
      cases h
      exact ⟨checkReturn_wellTyped h₁ hclean hfrag hs.toSees _ _, hs'⟩
  | .block span body, loop, brk, Γ, s, s', stmt', h, hclean, hfrag, hs => by
      have hs' := (keeps_checkStmt _ rfl).stands h hs
      rw [checkStmt] at h
      obtain ⟨body', s₁, h₁, h⟩ := run_bind h
      cases h
      obtain ⟨t₁, hbody, ht₁⟩ := run_inScope h₁
      rw [Stmt.WellTyped]
      exact ⟨checkStmts_wellTyped body hbody (ht₁.trans hclean) hfrag hs.enterBlock, hs'⟩
  | .expr .., _, _, _, _, _, _, h, _, hfrag, _ | .for .., _, _, _, _, _, _, h, _, hfrag, _
  | .forEach .., _, _, _, _, _, _, h, _, hfrag, _ | .throw .., _, _, _, _, _, _, h, _, hfrag, _
  | .try .., _, _, _, _, _, _, h, _, hfrag, _ => by
      rw [inFragment_of_isForeign ((gives_checkStmt (by rfl)).run h)] at hfrag
      cases hfrag

theorem checkStmts_wellTyped : (stmts : List Stmt) → {loop brk : Bool} → {Γ : TyEnv} →
    {s s' : State} → {stmts' : List Stmt} → checkStmts stmts c s = (stmts', s') → s'.found = [] →
    stmtsInFragment stmts' → Stands loop brk Γ s.scopes → StmtsWellTyped c.ret loop brk Γ stmts'
  | [], loop, brk, Γ, s, s', stmts', h, hclean, hfrag, hs => by
      rw [checkStmts] at h
      cases h
      rw [StmtsWellTyped]
      trivial
  | stmt :: rest, loop, brk, Γ, s, s', stmts', h, hclean, hfrag, hs => by
      rw [checkStmts] at h
      obtain ⟨stmt', s₁, h₁, h⟩ := run_bind h
      obtain ⟨rest', s₂, h₂, h⟩ := run_bind h
      cases h
      rw [stmtsInFragment, Bool.and_eq_true] at hfrag
      have hclean₁ := (grows_checkStmts _).clean h₂ hclean
      obtain ⟨htyped, hs₁⟩ := checkStmt_wellTyped stmt h₁ hclean₁ hfrag.1 hs
      rw [StmtsWellTyped]
      exact ⟨htyped, checkStmts_wellTyped rest h₂ hclean hfrag.2 hs₁⟩

theorem checkArms_wellTyped : (arms : List SwitchArm) → {loop brk : Bool} → {Γ : TyEnv} →
    {τ : Ty} → {before : FlowSnapshot} → {merged merged' : Option FlowSnapshot} → {s s' : State} →
    {arms' : List SwitchArm} → checkArms (some τ) before merged arms c s = ((arms', merged'), s') →
    s'.found = [] → armsInFragment arms' → Stands loop brk Γ s.scopes →
    ArmsWellTyped c.ret loop τ Γ arms'
  | [], loop, brk, Γ, τ, before, merged, merged', s, s', arms', h, hclean, hfrag, hs => by
      rw [checkArms] at h
      cases h
      rw [ArmsWellTyped]
      trivial
  | .mk span test body falls :: rest, loop, brk, Γ, τ, before, merged, merged', s, s', arms', h,
      hclean, hfrag, hs => by
      have hbody : ∀ {s s' body'}, checkStmts body c s = (body', s') → s'.found = [] →
          stmtsInFragment body' → Stands loop true ([] :: Γ) s.scopes →
          StmtsWellTyped c.ret loop true ([] :: Γ) body' := checkStmts_wellTyped body
      have hrest : ∀ {merged merged' s s' rest'},
          checkArms (some τ) before merged rest c s = ((rest', merged'), s') → s'.found = [] →
          armsInFragment rest' → Stands loop brk Γ s.scopes → ArmsWellTyped c.ret loop τ Γ rest' :=
        checkArms_wellTyped rest
      cases test with
      | none =>
          rw [checkArms] at h
          exact checkArmsFrom_wellTyped none hbody hrest h hclean hfrag hs nofun
      | some e =>
          rw [checkArms] at h
          obtain ⟨e', s₁, h₁, h⟩ := run_bind h
          have hs₁ := (namesKept.looks_checkStored τ e).keeps.stands h₁ hs
          refine checkArmsFrom_wellTyped (some e') hbody hrest h hclean hfrag hs₁ ?_
          intro hclean₁ _ he hfrage
          cases he
          exact checkStored_hasTy h₁ hclean₁ hfrage hs.toSees

end

end Analysis

end ProtoScript
