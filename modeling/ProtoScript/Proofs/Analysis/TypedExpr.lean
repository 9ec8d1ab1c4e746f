import ProtoScript.Proofs.Analysis.Silent

set_option autoImplicit false

/-!
# Expressions that are checked silently obey the rules

An expression in which no problem is found has a type by the rules (`sound_expr`). So where the
checker gives no type it has added a diagnostic (`count_lt_of_untyped`).
-/

namespace ProtoScript.Analysis

variable {c : Context} {Γ : TyEnv}

/-- As many arguments come out as went in. -/
theorem length_of_checkArgs {params : List Ty} {args args' : List Expr} {s s' : State}
    (h : checkArgs params args c s = (args', s')) : args'.length = args.length := by
  induction args generalizing params args' s s' with
  | nil =>
      rw [checkArgs] at h
      cases h
      rfl
  | cons e rest ih =>
      cases params with
      | nil =>
          rw [checkArgs] at h
          obtain ⟨_, _, _, h⟩ := run_step h
          obtain ⟨_, _, hrest, h⟩ := run_step h
          cases h
          exact congrArg (· + 1) (ih hrest)
      | cons ty params =>
          rw [checkArgs] at h
          obtain ⟨_, _, _, h⟩ := run_step h
          obtain ⟨_, _, _, h⟩ := run_step h
          obtain ⟨_, _, _, h⟩ := run_step h
          obtain ⟨_, _, hrest, h⟩ := run_step h
          cases h
          exact congrArg (· + 1) (ih hrest)

/-- The name of a prototype that no variable hides. -/
theorem checkExpr_prototype {expected : Option Ty} {n : Note} {x : String} {s : State}
    (hx : s.scopes.resolve? x = none) (hproto : c.hierarchy.contains x) :
    checkExpr expected (.ident n x) c s =
      (.ident (denotes n (.named x) (.prototype x)) x, s) := by
  have hnote : noteName n x c s = (denotes n (.named x) (.prototype x), s) := by
    generalize hrun : noteName n x c s = r
    obtain ⟨n', s'⟩ := r
    obtain ⟨_, _, h₁, h⟩ := run_step hrun
    cases h₁
    rw [hx] at h
    exact h.symm.trans (noteGlobal_prototype hproto)
  rw [checkExpr]
  show (Expr.ident (noteName n x c s).1 x, (noteName n x c s).2) = _
  rw [hnote]

/-- A list literal has a type if its items share one. -/
theorem list_typed {n : Note} {items : List Expr} {elem : Option Ty} {types : List Ty}
    (hitems : List.Forall₂ (Expr.Typed c Γ) items types)
    (hfit : ∀ τ ∈ types, ∃ t, elem = some t ∧ c.hierarchy.isAssignable τ t) :
    ∃ τ, (Expr.list { n with type? := listType? items elem } items).Typed c Γ τ := by
  cases elem with
  | some t =>
      refine ⟨.list t, .list rfl hitems fun τ hτ => ?_⟩
      obtain ⟨t', ht, hassign⟩ := hfit τ hτ
      cases ht
      exact hassign
  | none =>
      cases hitems with
      | nil => exact ⟨.list .void, .list rfl .nil nofun⟩
      | cons _ _ =>
          obtain ⟨_, ht, _⟩ := hfit _ List.mem_cons_self
          cases ht

/-- A map literal has a type if its keys share one and so do its values. -/
theorem map_typed {n : Note} {entries : List (Expr × Expr)} {key value : Option Ty}
    {keys values : List Ty} (hkeys : List.Forall₂ (Expr.Typed c Γ) (entries.map Prod.fst) keys)
    (hvalues : List.Forall₂ (Expr.Typed c Γ) (entries.map Prod.snd) values)
    (hscalar : ∀ τ ∈ keys, τ.isScalar)
    (hkey : ∀ τ ∈ keys, ∃ t, key = some t ∧ c.hierarchy.isAssignable τ t)
    (hvalue : ∀ τ ∈ values, ∃ t, value = some t ∧ c.hierarchy.isAssignable τ t) :
    ∃ τ, (Expr.map { n with type? := mapType? entries key value } entries).Typed c Γ τ := by
  cases entries with
  | nil =>
      cases hkeys
      cases hvalues
      cases key with
      | none => exact ⟨.map .void .void, .map rfl .nil .nil nofun nofun nofun⟩
      | some k =>
          cases value with
          | none => exact ⟨.map .void .void, .map rfl .nil .nil nofun nofun nofun⟩
          | some v => exact ⟨.map k v, .map rfl .nil .nil nofun nofun nofun⟩
  | cons entry rest =>
      obtain _ | ⟨hk, hks⟩ := hkeys
      obtain _ | ⟨hv, hvs⟩ := hvalues
      obtain ⟨k, rfl, _⟩ := hkey _ List.mem_cons_self
      obtain ⟨v, rfl, _⟩ := hvalue _ List.mem_cons_self
      refine ⟨.map k v, .map rfl (.cons hk hks) (.cons hv hvs) hscalar ?_ ?_⟩
      · intro τ hτ
        obtain ⟨t, ht, hassign⟩ := hkey τ hτ
        cases ht
        exact hassign
      · intro τ hτ
        obtain ⟨t, ht, hassign⟩ := hvalue τ hτ
        cases ht
        exact hassign

/-- The entries of a map have types that fit those they share, and their keys are scalars. The types
shared by the entries before are shared by these. -/
structure EntriesTyped (c : Context) (Γ : TyEnv) (entries : List (Expr × Expr))
    (key value key' value' : Option Ty) : Prop where
  keys : ∃ keys, List.Forall₂ (Expr.Typed c Γ) (entries.map Prod.fst) keys ∧
    (∀ τ ∈ keys, τ.isScalar) ∧ ∀ τ ∈ keys, ∃ t, key' = some t ∧ c.hierarchy.isAssignable τ t
  values : ∃ values, List.Forall₂ (Expr.Typed c Γ) (entries.map Prod.snd) values ∧
    ∀ τ ∈ values, ∃ t, value' = some t ∧ c.hierarchy.isAssignable τ t
  key : ∀ t, key = some t → key' = some t
  value : ∀ t, value = some t → value' = some t

theorem EntriesTyped.of_key {entries : List (Expr × Expr)} {key value key' value' : Option Ty} {t : Ty}
    (h : EntriesTyped c Γ entries (some t) value key' value') (ht : ∀ t', key = some t' → t = t') :
    EntriesTyped c Γ entries key value key' value' := by
  refine ⟨h.keys, h.values, fun t' ht' => ?_, h.value⟩
  rw [← ht t' ht']
  exact h.key t rfl

theorem EntriesTyped.of_value {entries : List (Expr × Expr)} {key value key' value' : Option Ty}
    {t : Ty} (h : EntriesTyped c Γ entries key (some t) key' value')
    (ht : ∀ t', value = some t' → t = t') : EntriesTyped c Γ entries key value key' value' := by
  refine ⟨h.keys, h.values, h.key, fun t' ht' => ?_⟩
  rw [← ht t' ht']
  exact h.value t rfl

/-- One more entry in front. -/
theorem EntriesTyped.cons {k v : Expr} {entries : List (Expr × Expr)} {key' value' : Option Ty}
    {κ ν t u : Ty} (h : EntriesTyped c Γ entries (some t) (some u) key' value')
    (hk : k.Typed c Γ κ) (hscalar : κ.isScalar) (hkey : c.hierarchy.isAssignable κ t)
    (hv : v.Typed c Γ ν) (hvalue : c.hierarchy.isAssignable ν u) :
    EntriesTyped c Γ ((k, v) :: entries) (some t) (some u) key' value' := by
  obtain ⟨⟨keys, hkeys, hscalars, hkeyFit⟩, ⟨values, hvalues, hvalueFit⟩, ht, hu⟩ := h
  refine ⟨⟨κ :: keys, .cons hk hkeys, ?_, ?_⟩, ⟨ν :: values, .cons hv hvalues, ?_⟩, ht, hu⟩
  · exact List.forall_mem_cons.2 ⟨hscalar, hscalars⟩
  · exact List.forall_mem_cons.2 ⟨⟨t, ht t rfl, hkey⟩, hkeyFit⟩
  · exact List.forall_mem_cons.2 ⟨⟨u, hu u rfl, hvalue⟩, hvalueFit⟩

/-! ## One form at a time -/

/-- Whenever the expression is checked silently it comes out with a type. -/
def Sound (c : Context) (Γ : TyEnv) (e : Expr) : Prop :=
  ∀ {expected : Option Ty} {s s' : State} {e' : Expr}, checkExpr expected e c s = (e', s') →
    s'.count ≤ s.count → Views s.scopes Γ → ∃ τ, e'.Typed c Γ τ

/-- Whenever the arguments are checked silently they come out with types, which fit the parameters if
there is one for each. -/
def SoundArgs (c : Context) (Γ : TyEnv) (args : List Expr) : Prop :=
  ∀ {params : List Ty} {s s' : State} {args' : List Expr},
    checkArgs params args c s = (args', s') → s'.count ≤ s.count → Views s.scopes Γ →
    ∃ types, List.Forall₂ (Expr.Typed c Γ) args' types ∧
      (params.length = args.length → c.hierarchy.Accepts types params)

/-- Whenever the items are checked silently they come out with types that fit the one they share. -/
def SoundItems (c : Context) (Γ : TyEnv) (items : List Expr) : Prop :=
  ∀ {elem shared : Option Ty} {s s' : State} {items' : List Expr},
    checkItems elem items c s = ((items', shared), s') → s'.count ≤ s.count → Views s.scopes Γ →
    ∃ types, List.Forall₂ (Expr.Typed c Γ) items' types ∧
      (∀ τ ∈ types, ∃ t, shared = some t ∧ c.hierarchy.isAssignable τ t) ∧
      ∀ t, elem = some t → shared = some t

/-- Whenever the entries are checked silently they come out with types that fit those they share. -/
def SoundEntries (c : Context) (Γ : TyEnv) (entries : List (Expr × Expr)) : Prop :=
  ∀ {key value key' value' : Option Ty} {s s' : State} {entries' : List (Expr × Expr)},
    checkEntries key value entries c s = ((entries', key', value'), s') → s'.count ≤ s.count →
    Views s.scopes Γ → EntriesTyped c Γ entries' key value key' value'

/-- Checks the value of an entry whose key has been checked, and the entries behind it. -/
def checkEntryFrom (k v : Expr) (key value : Option Ty) (rest : List (Expr × Expr)) :
    Check (List (Expr × Expr) × Option Ty × Option Ty) := do
  let v ← checkExpr value v
  let value ← match v.type? with
    | none => pure value
    | some ty => unify value ty (.mapEntries .value · ty) v.span
  escape v
  let (rest, key, value) ← checkEntries key value rest
  return ((k, v) :: rest, key, value)

theorem inspects_checkEntryFrom (k v : Expr) (key value : Option Ty) (rest : List (Expr × Expr)) :
    Inspects (checkEntryFrom k v key value rest) := by
  refine (inspects_checkExpr _ v).bind fun v' => ?_
  split
  · refine (inspects_pure _).bind fun _ => (namesKept.looks_escape _).bind fun _ => ?_
    exact (namesKept.looks_checkEntries _ _ rest).bind fun _ => inspects_pure _
  · refine (namesKept.looks_unify _ _ _ _).bind fun _ => (namesKept.looks_escape _).bind fun _ => ?_
    exact (namesKept.looks_checkEntries _ _ rest).bind fun _ => inspects_pure _

theorem checkEntryFrom_typed {k v : Expr} {value : Option Ty} {rest : List (Expr × Expr)}
    (hvalue : Sound c Γ v) (hrest : SoundEntries c Γ rest)
    {key' value' : Option Ty} {s s' : State} {entries' : List (Expr × Expr)} {κ t : Ty}
    (h : checkEntryFrom k v (some t) value rest c s = ((entries', key', value'), s'))
    (hsilent : s'.count ≤ s.count) (hs : Views s.scopes Γ) (hk : k.Typed c Γ κ)
    (hscalar : κ.isScalar) (hkey : c.hierarchy.isAssignable κ t) :
    EntriesTyped c Γ entries' (some t) value key' value' := by
  obtain ⟨v', s₁, h₁, h⟩ := run_step h
  have l₁ := (inspects_checkExpr value v).count_le h₁
  have hs₁ := (inspects_checkExpr value v).views h₁ hs
  cases hty : v'.type? with
  | none =>
      simp only [hty] at h
      obtain ⟨_, s₂, h₂, h⟩ := run_step h
      cases h₂
      obtain ⟨_, s₃, h₃, h⟩ := run_step h
      obtain ⟨⟨rest', _, _⟩, s₄, h₄, h⟩ := run_step h
      cases h
      have l₃ := (namesKept.keeps_escape _).count_le h₃
      have l₄ := (namesKept.looks_checkEntries _ _ rest).count_le h₄
      obtain ⟨ν, hv⟩ := hvalue h₁ (by omega) hs
      rw [hv.type?] at hty
      cases hty
  | some ty =>
      simp only [hty] at h
      obtain ⟨valueTy, s₂, h₂, h⟩ := run_step h
      obtain ⟨_, s₃, h₃, h⟩ := run_step h
      obtain ⟨⟨rest', _, _⟩, s₄, h₄, h⟩ := run_step h
      cases h
      have l₂ := (namesKept.looks_unify _ _ _ _).count_le h₂
      have l₃ := (namesKept.keeps_escape _).count_le h₃
      have l₄ := (namesKept.looks_checkEntries _ _ rest).count_le h₄
      obtain ⟨ν, hv⟩ := hvalue h₁ (by omega) hs
      obtain rfl := hv.unique hty
      obtain ⟨u, rfl, happ, helem⟩ := unify_silent h₂ (by omega)
      have hs₃ := (namesKept.keeps_escape _).views h₃ ((namesKept.looks_unify _ _ _ _).views h₂ hs₁)
      have hentries := hrest h₄ (by omega) hs₃
      exact (hentries.cons hk hscalar hkey hv happ).of_value helem

theorem sound_literal {n : Note} {v : Literal} :
    Sound c Γ (.literal n v) := by
  intro expected s s' e' h hsilent hs
  rw [checkExpr] at h
  obtain ⟨n', _, h₁, h⟩ := run_step h
  cases h
  obtain ⟨τ, htype, hv⟩ := noteLiteral_silent h₁ hsilent
  exact ⟨τ, .literal htype hv⟩

theorem sound_ident {n : Note} {x : String} :
    Sound c Γ (.ident n x) := by
  intro expected s s' e' h hsilent hs
  rw [checkExpr] at h
  obtain ⟨n', _, h₁, h⟩ := run_step h
  cases h
  exact noteName_silent h₁ hsilent hs

theorem sound_self {n : Note} :
    Sound c Γ (.self n) := by
  intro expected s s' e' h hsilent hs
  rw [checkExpr] at h
  obtain ⟨n', _, h₁, h⟩ := run_step h
  cases h
  exact noteSelf_silent h₁ hsilent

theorem sound_unary {n : Note} {op : UnaryOp} {e : Expr}
    (he : Sound c Γ e) : Sound c Γ (.unary n op e) := by
  intro expected s s' e' h hsilent hs
  rw [checkExpr] at h
  obtain ⟨e₁, s₁, h₁, h⟩ := run_step h
  obtain ⟨n', s₂, h₂, h⟩ := run_step h
  cases h
  have l₁ := (inspects_checkExpr _ e).count_le h₁
  have l₂ := (namesKept.looks_noteUnary _ _ _).count_le h₂
  obtain ⟨τ, he⟩ := he h₁ (by omega) hs
  rw [he.type?] at h₂
  obtain ⟨happ, htype⟩ := noteUnary_silent h₂ (by omega)
  exact ⟨τ, .unary htype he happ⟩

theorem sound_binary {n : Note} {op : BinaryOp} {l r : Expr}
    (hl : Sound c Γ l) (hr : Sound c Γ r) : Sound c Γ (.binary n op l r) := by
  intro expected s s' e' h hsilent hs
  rw [checkExpr] at h
  split at h
  case isTrue =>
    obtain ⟨r', s₁, h₁, h⟩ := run_step h
    obtain ⟨l', s₂, h₂, h⟩ := run_step h
    obtain ⟨n', s₃, h₃, h⟩ := run_step h
    cases h
    have l₁ := (inspects_checkExpr _ r).count_le h₁
    have l₂ := (inspects_checkExpr _ l).count_le h₂
    have l₃ := (namesKept.looks_noteBinary _ _ _ _).count_le h₃
    obtain ⟨right, hr⟩ := hr h₁ (by omega) hs
    obtain ⟨left, hl⟩ := hl h₂ (by omega) ((inspects_checkExpr _ r).views h₁ hs)
    exact noteBinary_silent hl hr h₃ (by omega)
  case isFalse =>
    obtain ⟨l', s₁, h₁, h⟩ := run_step h
    obtain ⟨r', s₂, h₂, h⟩ := run_step h
    obtain ⟨n', s₃, h₃, h⟩ := run_step h
    cases h
    have l₁ := (inspects_checkExpr _ l).count_le h₁
    have l₂ := (inspects_checkExpr _ r).count_le h₂
    have l₃ := (namesKept.looks_noteBinary _ _ _ _).count_le h₃
    obtain ⟨left, hl⟩ := hl h₁ (by omega) hs
    obtain ⟨right, hr⟩ := hr h₂ (by omega) ((inspects_checkExpr _ l).views h₁ hs)
    exact noteBinary_silent hl hr h₃ (by omega)

theorem sound_ternary {n : Note} {e a b : Expr}
    (he : Sound c Γ e) (ha : Sound c Γ a) (hb : Sound c Γ b) : Sound c Γ (.ternary n e a b) := by
  intro expected s s' e' h hsilent hs
  rw [checkExpr] at h
  obtain ⟨e₁, s₁, h₁, h⟩ := run_step h
  obtain ⟨_, s₂, h₂, h⟩ := run_step h
  obtain ⟨a', s₃, h₃, h⟩ := run_step h
  obtain ⟨b', s₄, h₄, h⟩ := run_step h
  obtain ⟨n', s₅, h₅, h⟩ := run_step h
  cases h
  have l₁ := (inspects_checkExpr _ e).count_le h₁
  have l₂ := (namesKept.looks_expectCondition _).count_le h₂
  have l₃ := (inspects_checkExpr _ a).count_le h₃
  have l₄ := (inspects_checkExpr _ b).count_le h₄
  have l₅ := (namesKept.looks_noteTernary _ _ _).count_le h₅
  have hs₂ := (namesKept.looks_expectCondition _).views h₂ ((inspects_checkExpr _ e).views h₁ hs)
  obtain ⟨τ, he⟩ := he h₁ (by omega) hs
  obtain ⟨α, ha⟩ := ha h₃ (by omega) hs₂
  obtain ⟨β, hb⟩ := hb h₄ (by omega) ((inspects_checkExpr _ a).views h₃ hs₂)
  exact noteTernary_silent (expectCondition_silent he h₂ (by omega)) ha hb h₅ (by omega)

theorem sound_call {n : Note} {name : String} {args : List Expr}
    (hargs : SoundArgs c Γ args) : Sound c Γ (.call n name args) := by
  intro expected s s' e' h hsilent hs
  rw [checkExpr] at h
  obtain ⟨b, s₁, h₁, h⟩ := run_step h
  have l₁ := (namesKept.looks_isNotCallable _).count_le h₁
  have hs₁ := (namesKept.looks_isNotCallable _).views h₁ hs
  split at h
  case isTrue =>
    obtain ⟨_, s₂, h₂, h⟩ := run_step h
    obtain ⟨args', s₃, h₃, h⟩ := run_step h
    cases h
    have l₂ := count_lt_of_report h₂
    have l₃ := (namesKept.looks_checkArgs _ args).count_le h₃
    omega
  case isFalse =>
    split at h
    case isTrue hprint =>
      obtain ⟨_, s₂, h₂, h⟩ := run_step h
      obtain ⟨args', s₃, h₃, h⟩ := run_step h
      obtain ⟨_, s₄, h₄, h⟩ := run_step h
      cases h
      have l₂ := (namesKept.keeps_expect _ _ _).count_le h₂
      have l₃ := (namesKept.looks_checkArgs _ args).count_le h₃
      have l₄ := (namesKept.looks_expectPrintable _).count_le h₄
      obtain rfl : name = Builtin.print := beq_iff_eq.1 hprint
      obtain ⟨hcount, rfl⟩ := expect_silent h₂ (by omega)
      obtain ⟨a, rfl⟩ := List.length_eq_one_iff.1 (beq_iff_eq.1 hcount)
      obtain ⟨types, hargs, _⟩ := hargs h₃ (by omega) hs₁
      have hlength : args'.length = 1 := length_of_checkArgs h₃
      obtain ⟨a', rfl⟩ := List.length_eq_one_iff.1 hlength
      obtain _ | ⟨ha, _⟩ := hargs
      rename_i τ _
      refine ⟨.void, .print rfl rfl ha ?_⟩
      unfold expectPrintable at h₄
      simp only [ha.type?] at h₄
      exact (expect_silent h₄ (by omega)).1
    case isFalse =>
      obtain ⟨k?, s₂, h₂, h⟩ := run_step h
      obtain ⟨params, s₃, h₃, h⟩ := run_step h
      obtain ⟨args', s₄, h₄, h⟩ := run_step h
      cases h
      have l₂ := (namesKept.looks_functionCallee? _ _).count_le h₂
      have l₃ := (namesKept.looks_expectedArgs _ _ _).count_le h₃
      have l₄ := (namesKept.looks_checkArgs _ args).count_le h₄
      obtain ⟨k, rfl, hk⟩ := functionCallee?_silent h₂ (by omega)
      obtain ⟨rfl, hcount⟩ := expectedArgs_silent h₃ (by omega)
      have hs₃ := (namesKept.looks_expectedArgs _ _ _).views h₃ ((namesKept.looks_functionCallee? _ _).views h₂ hs₁)
      obtain ⟨types, hargs, hfit⟩ := hargs h₄ (by omega) hs₃
      exact ⟨k.ret, .call rfl rfl hk hargs (hfit hcount)⟩

theorem sound_methodCall {n : Note} {e : Expr} {method : String} {args : List Expr}
    (he : Sound c Γ e) (hargs : SoundArgs c Γ args) : Sound c Γ (.methodCall n e method args) := by
  intro expected s s' e' h hsilent hs
  rw [checkExpr] at h
  obtain ⟨r, s₁, h₁, hrest⟩ := run_step h
  clear h
  obtain ⟨rfl, hr⟩ := receiver?_eq h₁
  split at hrest
  case h_1 module =>
    obtain ⟨n', x, rfl, hx, hmodule⟩ := hr _ rfl
    obtain ⟨k?, s₂, h₂, h⟩ := run_step hrest
    obtain ⟨params, s₃, h₃, h⟩ := run_step h
    obtain ⟨args', s₄, h₄, h⟩ := run_step h
    cases h
    have l₂ := (namesKept.looks_moduleCallee? _ _ _).count_le h₂
    have l₃ := (namesKept.looks_expectedArgs _ _ _).count_le h₃
    have l₄ := (namesKept.looks_checkArgs _ args).count_le h₄
    obtain ⟨f, hf, rfl⟩ := moduleCallee?_silent h₂ (by omega)
    obtain ⟨rfl, hcount⟩ := expectedArgs_silent h₃ (by omega)
    have hs₃ := (namesKept.looks_expectedArgs _ _ _).views h₃ ((namesKept.looks_moduleCallee? _ _ _).views h₂ hs)
    obtain ⟨types, hargs, hfit⟩ := hargs h₄ (by omega) hs₃
    exact ⟨f.ret, .moduleCall rfl rfl rfl (hs.find?_eq_none hx) hmodule hf hargs (hfit hcount)⟩
  case h_2 proto =>
    obtain ⟨n', x, rfl, hx, rfl, hproto⟩ := hr _ rfl
    obtain ⟨_, s₂, h₂, h⟩ := run_step hrest
    obtain ⟨e₁, s₃, h₃, h⟩ := run_step h
    cases h
    have l₂ := (namesKept.keeps_expect _ _ _).count_le h₂
    have l₃ := (inspects_checkExpr none _).count_le h₃
    obtain ⟨hempty, rfl⟩ := expect_silent h₂ (by omega)
    obtain rfl := List.isEmpty_iff.1 hempty
    have hx' := hs.find?_eq_none hx
    rw [checkExpr_prototype hx hproto] at h₃
    cases h₃
    exact ⟨_, .newInstance rfl rfl hx' (.global rfl hx' rfl (.prototype hproto))⟩
  case h_3 =>
    obtain ⟨_, s₂, h₂, h⟩ := run_step hrest
    cases h
    have l₂ := count_lt_of_reportName h₂
    omega
  case h_4 =>
    obtain ⟨e₁, s₂, h₂, h⟩ := run_step hrest
    have l₂ := (inspects_checkExpr none e).count_le h₂
    have hs₂ := (inspects_checkExpr none e).views h₂ hs
    cases hty : e₁.type? with
    | none =>
        simp only [hty] at h
        obtain ⟨args', s₃, h₃, h⟩ := run_step h
        cases h
        have l₃ := (namesKept.looks_checkArgs _ args).count_le h₃
        obtain ⟨τ, he⟩ := he h₂ (by omega) hs
        rw [he.type?] at hty
        cases hty
    | some ty =>
        simp only [hty] at h
        obtain ⟨k?, s₃, h₃, h⟩ := run_step h
        obtain ⟨params, s₄, h₄, h⟩ := run_step h
        obtain ⟨args', s₅, h₅, h⟩ := run_step h
        obtain ⟨_, s₆, h₆, h⟩ := run_step h
        cases h
        have l₃ := (namesKept.looks_methodCallee? _ _ _).count_le h₃
        have l₄ := (namesKept.looks_expectedArgs _ _ _).count_le h₄
        have l₅ := (namesKept.looks_checkArgs _ args).count_le h₅
        have l₆ := (namesKept.looks_trackLength _ _ _).count_le h₆
        obtain ⟨τ, he⟩ := he h₂ (by omega) hs
        obtain rfl := he.unique hty
        obtain ⟨k, rfl, hk⟩ := methodCallee?_silent h₃ (by omega)
        obtain ⟨rfl, hcount⟩ := expectedArgs_silent h₄ (by omega)
        have hs₄ := (namesKept.looks_expectedArgs _ _ _).views h₄ ((namesKept.looks_methodCallee? _ _ _).views h₃ hs₂)
        obtain ⟨types, hargs, hfit⟩ := hargs h₅ (by omega) hs₄
        exact ⟨k.ret, .methodCall rfl rfl he hk hargs (hfit hcount)⟩

theorem sound_member {n : Note} {e : Expr} {name : String}
    (he : Sound c Γ e) : Sound c Γ (.member n e name) := by
  intro expected s s' e' h hsilent hs
  rw [checkExpr] at h
  obtain ⟨o, s₁, h₁, hrest⟩ := run_step h
  clear h
  obtain ⟨rfl, ho⟩ := owner?_eq h₁
  split at hrest
  case h_1 g =>
    obtain ⟨n', x, rfl, hx, hg⟩ := ho _ rfl
    obtain ⟨n₁, s₂, h₂, h⟩ := run_step hrest
    cases h
    have hgroup : c.groups.contains x := by
      unfold GroupTable.contains
      rw [hg]
      rfl
    obtain ⟨v, τ, hvalue, htype, hv⟩ :=
      noteGroupMember_silent h₂ hsilent (List.mem_of_find?_eq_some hg)
    exact ⟨τ, .constant htype (hs.find?_eq_none hx) (.inl hgroup) hvalue hv⟩
  case h_2 module =>
    obtain ⟨n', x, rfl, hx, hm⟩ := ho _ rfl
    obtain ⟨n₁, s₂, h₂, h⟩ := run_step hrest
    cases h
    obtain ⟨v, τ, hvalue, htype, hv⟩ := noteModuleMember_silent h₂ hsilent
    exact ⟨τ, .constant htype (hs.find?_eq_none hx) (.inr (Option.isSome_of_eq_some hm)) hvalue hv⟩
  case h_3 =>
    obtain ⟨e₁, s₂, h₂, h⟩ := run_step hrest
    have l₂ := (inspects_checkExpr none e).count_le h₂
    cases hty : e₁.type? with
    | none =>
        simp only [hty] at h
        cases h
        obtain ⟨τ, he⟩ := he h₂ hsilent hs
        rw [he.type?] at hty
        cases hty
    | some ty =>
        simp only [hty] at h
        obtain ⟨n₁, s₃, h₃, h⟩ := run_step h
        cases h
        have l₃ := (namesKept.looks_noteMember _ _ _).count_le h₃
        obtain ⟨τ, he⟩ := he h₂ (by omega) hs
        obtain rfl := he.unique hty
        obtain ⟨proto, f, rfl, hf, htype, hvalue⟩ := noteMember_silent h₃ (by omega)
        exact ⟨f.ty, .field htype hvalue he hf⟩

theorem sound_index {n : Note} {e i : Expr}
    (he : Sound c Γ e) (hi : Sound c Γ i) : Sound c Γ (.index n e i) := by
  intro expected s s' e' h hsilent hs
  rw [checkExpr] at h
  obtain ⟨e₁, s₁, h₁, h⟩ := run_step h
  have l₁ := (inspects_checkExpr none e).count_le h₁
  have hs₁ := (inspects_checkExpr none e).views h₁ hs
  cases hty : e₁.type? with
  | none =>
      simp only [hty] at h
      obtain ⟨i₁, s₂, h₂, h⟩ := run_step h
      cases h
      have l₂ := (inspects_checkExpr none i).count_le h₂
      obtain ⟨τ, he⟩ := he h₁ (by omega) hs
      rw [he.type?] at hty
      cases hty
  | some ty =>
      simp only [hty] at h
      obtain ⟨i₁, s₂, h₂, h⟩ := run_step h
      obtain ⟨r, s₃, h₃, h⟩ := run_step h
      cases h
      have l₂ := (inspects_checkExpr _ i).count_le h₂
      have l₃ := (namesKept.looks_elementAt? _ _ _).count_le h₃
      obtain ⟨object, he⟩ := he h₁ (by omega) hs
      obtain rfl := he.unique hty
      obtain ⟨position, hi⟩ := hi h₂ (by omega) hs₁
      obtain ⟨τ, rfl, hτ⟩ := elementAt?_silent hi h₃ (by omega)
      exact ⟨τ, .index rfl he hi hτ⟩

theorem sound_cast {n : Note} {e : Expr} {target : Ty}
    (he : Sound c Γ e) : Sound c Γ (.cast n e target) := by
  intro expected s s' e' h hsilent hs
  rw [checkExpr] at h
  obtain ⟨e₁, s₁, h₁, h⟩ := run_step h
  obtain ⟨n', s₂, h₂, h⟩ := run_step h
  cases h
  have l₁ := (inspects_checkExpr none e).count_le h₁
  have l₂ := (namesKept.looks_noteCast _ _ _).count_le h₂
  obtain ⟨τ, he⟩ := he h₁ (by omega) hs
  exact ⟨target, noteCast_silent he h₂ (by omega)⟩

theorem sound_list {n : Note} {items : List Expr}
    (hitems : SoundItems c Γ items) : Sound c Γ (.list n items) := by
  intro expected s s' e' h hsilent hs
  rw [checkExpr] at h
  obtain ⟨⟨items', elem⟩, s₁, h₁, h⟩ := run_step h
  cases h
  obtain ⟨types, hitems, hfit, _⟩ := hitems h₁ hsilent hs
  exact list_typed hitems hfit

theorem sound_map {n : Note} {entries : List (Expr × Expr)}
    (hentries : SoundEntries c Γ entries) : Sound c Γ (.map n entries) := by
  intro expected s s' e' h hsilent hs
  rw [checkExpr] at h
  obtain ⟨⟨entries', key, value⟩, s₁, h₁, h⟩ := run_step h
  cases h
  obtain ⟨⟨keys, hkeys, hscalar, hkey⟩, ⟨values, hvalues, hvalue⟩, _⟩ :=
    hentries h₁ hsilent hs
  exact map_typed hkeys hvalues hscalar hkey hvalue

theorem sound_args_nil : SoundArgs c Γ [] := by
  intro params s s' args' h hsilent hs
  rw [checkArgs] at h
  cases h
  refine ⟨[], .nil, fun hlength => ?_⟩
  rw [List.length_eq_zero_iff.1 hlength]
  exact .nil

theorem sound_args_cons {e : Expr} {rest : List Expr} (he : Sound c Γ e)
    (hrest : SoundArgs c Γ rest) : SoundArgs c Γ (e :: rest) := by
  intro params s s' args' h hsilent hs
  cases params with
  | nil =>
      rw [checkArgs] at h
      obtain ⟨e₁, s₁, h₁, h⟩ := run_step h
      obtain ⟨rest', s₂, h₂, h⟩ := run_step h
      cases h
      have l₁ := (inspects_checkExpr none e).count_le h₁
      have l₂ := (namesKept.looks_checkArgs [] rest).count_le h₂
      obtain ⟨τ, he⟩ := he h₁ (by omega) hs
      obtain ⟨types, hrest, _⟩ :=
        hrest h₂ (by omega) ((inspects_checkExpr none e).views h₁ hs)
      exact ⟨τ :: types, .cons he hrest, nofun⟩
  | cons ty params =>
      rw [checkArgs] at h
      obtain ⟨e₁, s₁, h₁, h⟩ := run_step h
      obtain ⟨_, s₂, h₂, h⟩ := run_step h
      obtain ⟨_, s₃, h₃, h⟩ := run_step h
      obtain ⟨rest', s₄, h₄, h⟩ := run_step h
      cases h
      have l₁ := (inspects_checkExpr _ e).count_le h₁
      have l₂ := (namesKept.looks_expectAssignable _ _).count_le h₂
      have l₃ := (namesKept.keeps_escape _).count_le h₃
      have l₄ := (namesKept.looks_checkArgs params rest).count_le h₄
      have hs₂ := (namesKept.looks_expectAssignable _ _).views h₂ ((inspects_checkExpr _ e).views h₁ hs)
      obtain ⟨τ, he⟩ := he h₁ (by omega) hs
      have happ := expectAssignable_silent he h₂ (by omega)
      obtain ⟨types, hrest, hfit⟩ :=
        hrest h₄ (by omega) ((namesKept.keeps_escape _).views h₃ hs₂)
      exact ⟨τ :: types, .cons he hrest, fun hlength => .cons happ (hfit (Nat.succ.inj hlength))⟩

theorem sound_items_nil : SoundItems c Γ [] := by
  intro elem shared s s' items' h hsilent hs
  rw [checkItems] at h
  cases h
  exact ⟨[], .nil, nofun, fun t ht => ht⟩

theorem sound_items_cons {e : Expr} {rest : List Expr} (he : Sound c Γ e)
    (hrest : SoundItems c Γ rest) : SoundItems c Γ (e :: rest) := by
  intro elem shared s s' items' h hsilent hs
  rw [checkItems] at h
  obtain ⟨e₁, s₁, h₁, h⟩ := run_step h
  have l₁ := (inspects_checkExpr elem e).count_le h₁
  have hs₁ := (inspects_checkExpr elem e).views h₁ hs
  cases hty : e₁.type? with
  | none =>
      simp only [hty] at h
      obtain ⟨_, s₂, h₂, h⟩ := run_step h
      cases h₂
      obtain ⟨⟨rest', _⟩, s₃, h₃, h⟩ := run_step h
      cases h
      have l₃ := (namesKept.looks_checkItems _ rest).count_le h₃
      obtain ⟨τ, he⟩ := he h₁ (by omega) hs
      rw [he.type?] at hty
      cases hty
  | some ty =>
      simp only [hty] at h
      obtain ⟨first, s₄, h₄, h⟩ := run_step h
      obtain ⟨_, s₅, h₅, h⟩ := run_step h
      obtain ⟨_, _, h₂, h⟩ := run_step h
      cases h₂
      obtain ⟨⟨rest', _⟩, s₃, h₃, h⟩ := run_step h
      cases h
      have l₃ := (namesKept.looks_checkItems _ rest).count_le h₃
      have l₄ := (namesKept.looks_unify _ _ _ _).count_le h₄
      have l₅ := (namesKept.keeps_escape _).count_le h₅
      obtain ⟨τ, he⟩ := he h₁ (by omega) hs
      obtain rfl := he.unique hty
      obtain ⟨t, rfl, happ, helem⟩ := unify_silent h₄ (by omega)
      have hs₅ := (namesKept.keeps_escape _).views h₅ ((namesKept.looks_unify _ _ _ _).views h₄ hs₁)
      obtain ⟨types, hrest, hfit, hshared⟩ := hrest h₃ (by omega) hs₅
      have ht := hshared t rfl
      refine ⟨τ :: types, .cons he hrest, ?_, fun t' ht' => ?_⟩
      · intro σ hσ
        rcases List.mem_cons.1 hσ with rfl | hσ
        · exact ⟨t, ht, happ⟩
        · exact hfit σ hσ
      · rw [← helem t' ht']
        exact ht

theorem sound_entries_nil : SoundEntries c Γ [] := by
  intro key value key' value' s s' entries' h hsilent hs
  rw [checkEntries] at h
  cases h
  exact ⟨⟨[], .nil, nofun, nofun⟩, ⟨[], .nil, nofun⟩, fun t ht => ht, fun t ht => ht⟩

theorem sound_entries_cons {k v : Expr} {rest : List (Expr × Expr)} (hk : Sound c Γ k)
    (hv : Sound c Γ v) (hrest : SoundEntries c Γ rest) : SoundEntries c Γ ((k, v) :: rest) := by
  intro key value key' value' s s' entries' h hsilent hs
  rw [checkEntries] at h
  obtain ⟨k₁, s₁, h₁, h⟩ := run_step h
  have l₁ := (inspects_checkExpr key k).count_le h₁
  have hs₁ := (inspects_checkExpr key k).views h₁ hs
  cases hty : k₁.type? with
  | none =>
      simp only [hty] at h
      obtain ⟨_, s₂, h₂, h⟩ := run_step h
      cases h₂
      have l₂ := (inspects_checkEntryFrom k₁ v key value rest).count_le h
      obtain ⟨κ, hk⟩ := hk h₁ (by omega) hs
      rw [hk.type?] at hty
      cases hty
  | some ty =>
      simp only [hty] at h
      obtain ⟨_, s₂, h₂, h⟩ := run_step h
      obtain ⟨keyTy, s₃, h₃, h⟩ := run_step h
      have l₂ := (namesKept.keeps_expect _ _ _).count_le h₂
      have l₃ := (namesKept.looks_unify _ _ _ _).count_le h₃
      have l₄ := (inspects_checkEntryFrom k₁ v keyTy value rest).count_le h
      have hs₃ := (namesKept.looks_unify _ _ _ _).views h₃ ((namesKept.keeps_expect _ _ _).views h₂ hs₁)
      obtain ⟨κ, hk⟩ := hk h₁ (by omega) hs
      obtain rfl := hk.unique hty
      obtain ⟨t, rfl, happ, helem⟩ := unify_silent h₃ (by omega)
      have hentries := checkEntryFrom_typed hv hrest h (by omega) hs₃ hk
        (expect_silent h₂ (by omega)).1 happ
      exact hentries.of_key helem

/-! ## All expressions -/

mutual

/-- An expression that is checked silently comes out with a type. -/
theorem sound_expr : (e : Expr) → Sound c Γ e
  | .literal _ _ => sound_literal
  | .ident _ _ => sound_ident
  | .self _ => sound_self
  | .unary _ _ e => sound_unary (sound_expr e)
  | .binary _ _ l r => sound_binary (sound_expr l) (sound_expr r)
  | .ternary _ e a b => sound_ternary (sound_expr e) (sound_expr a) (sound_expr b)
  | .call _ _ args => sound_call (sound_args args)
  | .methodCall _ e _ args => sound_methodCall (sound_expr e) (sound_args args)
  | .member _ e _ => sound_member (sound_expr e)
  | .index _ e i => sound_index (sound_expr e) (sound_expr i)
  | .cast _ e _ => sound_cast (sound_expr e)
  | .list _ items => sound_list (sound_items items)
  | .map _ entries => sound_map (sound_entries entries)
termination_by structural x => x

theorem sound_args : (args : List Expr) → SoundArgs c Γ args
  | [] => sound_args_nil
  | e :: rest => sound_args_cons (sound_expr e) (sound_args rest)
termination_by structural x => x

theorem sound_items : (items : List Expr) → SoundItems c Γ items
  | [] => sound_items_nil
  | e :: rest => sound_items_cons (sound_expr e) (sound_items rest)
termination_by structural x => x

theorem sound_entries : (entries : List (Expr × Expr)) → SoundEntries c Γ entries
  | [] => sound_entries_nil
  | (k, v) :: rest => sound_entries_cons (sound_expr k) (sound_expr v) (sound_entries rest)
termination_by structural x => x

end

/-- Where an expression is left without a type a diagnostic has been added, whatever was expected and
whatever had been found before. -/
theorem count_lt_of_untyped {expected : Option Ty} {e e' : Expr} {s s' : State}
    (h : checkExpr expected e c s = (e', s')) (htype : e'.type? = none) : s.count < s'.count := by
  by_contra hsilent
  obtain ⟨τ, he⟩ := sound_expr e h (Nat.not_lt.1 hsilent) (Views.self s.scopes)
  rw [he.type?] at htype
  cases htype

end ProtoScript.Analysis
