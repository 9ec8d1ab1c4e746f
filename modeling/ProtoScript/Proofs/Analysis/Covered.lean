import ProtoScript.Proofs.Analysis.TypedProgram

set_option autoImplicit false

/-!
# What checking leaves on the nodes

Later phases read from the nodes of a checked program what they are: the type of an expression, what a
call calls, what a name or member stands for. `Analysis.covered` says that all of this is there;
it is computed from the checked program alone. It holds of every program without problems, since
the checker never drops a node silently (`reports_or_covers`).
-/

namespace ProtoScript

/-! ## Covered programs -/

/-- The expression is the name of a group or module, where no variable hides it. -/
def Expr.isNamespace (ns : String → Bool) (locals : List String) : Expr → Bool
  | .ident _ x => !locals.contains x && ns x
  | _ => false

mutual

/-- Every node has a type, every call a target, and every member and every name that is no variable stands
for something. Names of groups and modules in front of a member or method have nothing. -/
def Expr.covered (ns : String → Bool) (locals : List String) : Expr → Bool
  | .literal n _ => n.type?.isSome
  | .ident n x => n.type?.isSome && (locals.contains x || n.value?.isSome)
  | .self n => n.type?.isSome
  | .unary n _ e => n.type?.isSome && e.covered ns locals
  | .binary n _ l r => n.type?.isSome && l.covered ns locals && r.covered ns locals
  | .ternary n e a b =>
    n.type?.isSome && e.covered ns locals && a.covered ns locals && b.covered ns locals
  | .call n _ args => n.type?.isSome && n.call?.isSome && exprsCovered ns locals args
  | .methodCall n e _ args =>
    n.type?.isSome && n.call?.isSome && (e.isNamespace ns locals || e.covered ns locals) &&
      exprsCovered ns locals args
  | .member n e _ =>
    n.type?.isSome && n.value?.isSome && (e.isNamespace ns locals || e.covered ns locals)
  | .index n e i => n.type?.isSome && e.covered ns locals && i.covered ns locals
  | .cast n e _ => n.type?.isSome && e.covered ns locals
  | .list n items => n.type?.isSome && exprsCovered ns locals items
  | .map n entries => n.type?.isSome && entriesCovered ns locals entries

def exprsCovered (ns : String → Bool) (locals : List String) : List Expr → Bool
  | [] => true
  | e :: rest => e.covered ns locals && exprsCovered ns locals rest

def entriesCovered (ns : String → Bool) (locals : List String) : List (Expr × Expr) → Bool
  | [] => true
  | (key, value) :: rest =>
    key.covered ns locals && value.covered ns locals && entriesCovered ns locals rest

end

/-- A name that is assigned is that of a variable. -/
def Expr.targetCovered (ns : String → Bool) (locals : List String) : Expr → Bool
  | .ident n x => n.type?.isSome && locals.contains x
  | e => e.covered ns locals

/-- The names in scope behind a statement. -/
def Stmt.namesBehind (locals : List String) : Stmt → List String
  | .varDecl _ x _ _ _ => x :: locals
  | _ => locals

/-- The names in scope behind a statement that may be missing. -/
def namesBehind? (locals : List String) (s : Option Stmt) : List String :=
  (s.map (Stmt.namesBehind locals)).getD locals

mutual

/-- All expressions of the statement are covered. -/
def Stmt.covered (ns : String → Bool) (locals : List String) : Stmt → Bool
  | .varDecl _ _ _ _ init => init.all (Expr.covered ns locals)
  | .assign _ target _ e => target.targetCovered ns locals && e.covered ns locals
  | .expr _ e => e.covered ns locals
  | .ifThen _ e body => e.covered ns locals && stmtsCovered ns locals body
  | .ifElse _ e a b =>
    e.covered ns locals && stmtsCovered ns locals a && stmtsCovered ns locals b
  | .while _ e body => e.covered ns locals && stmtsCovered ns locals body
  | .doWhile _ body e => stmtsCovered ns locals body && e.covered ns locals
  | .for _ init e update body =>
    let inner := namesBehind? locals init
    stmtCovered? ns locals init && e.all (Expr.covered ns inner) && stmtsCovered ns inner body &&
      -- The step is checked behind the body, with the names that are declared there.
      stmtCovered? ns (body.foldl Stmt.namesBehind inner) update
  | .forEach _ _ _ x e body => e.covered ns locals && stmtsCovered ns (x :: locals) body
  | .switch _ e arms => e.covered ns locals && armsCovered ns locals arms
  | .break _ | .continue _ => true
  | .ret _ e => e.all (Expr.covered ns locals)
  | .throw _ e => e.covered ns locals
  | .try _ body clauses => stmtsCovered ns locals body && clausesCovered ns locals clauses
  | .block _ body => stmtsCovered ns locals body

def stmtsCovered (ns : String → Bool) (locals : List String) : List Stmt → Bool
  | [] => true
  | s :: rest => s.covered ns locals && stmtsCovered ns (s.namesBehind locals) rest

def stmtCovered? (ns : String → Bool) (locals : List String) : Option Stmt → Bool
  | none => true
  | some s => s.covered ns locals

def armsCovered (ns : String → Bool) (locals : List String) : List SwitchArm → Bool
  | [] => true
  | .mk _ test body _ :: rest =>
    test.all (Expr.covered ns locals) && stmtsCovered ns locals body && armsCovered ns locals rest

def clausesCovered (ns : String → Bool) (locals : List String) : List CatchClause → Bool
  | [] => true
  | .mk _ _ binding body :: rest =>
    stmtsCovered ns (binding :: locals) body && clausesCovered ns locals rest

end

/-- The body of the function is covered, with its parameters as the only variables. -/
def FunctionDecl.covered (ns : String → Bool) (f : FunctionDecl) : Bool :=
  stmtsCovered ns (f.params.map Param.name) f.body

/-- All bodies and initial values of the declaration are covered. -/
def Decl.covered (ns : String → Bool) : Decl → Bool
  | .function f => f.covered ns
  | .prototype d =>
    d.fields.all (fun f => f.init.all (Expr.covered ns [])) &&
      d.methods.all fun m => m.function.covered ns
  | .group _ => true

namespace Analysis

/-- The name is that of a group or of an imported module. -/
def isNamespace (a : Analysis) (x : String) : Bool :=
  a.groups.contains x || (a.imports.namespace? x).isSome

/-- Everything in the checked program is covered. -/
def covered (a : Analysis) : Bool := a.program.decls.all (Decl.covered a.isNamespace)

end Analysis

/-! ## What obeys the rules is covered -/

open Analysis

/-- The variables in scope have the given names. -/
def Knows (Γ : TyEnv) (locals : List String) : Prop :=
  ∀ x, Frames.find? Γ x = none ↔ x ∉ locals

namespace Knows

variable {Γ : TyEnv} {locals : List String}

theorem enter (h : Knows Γ locals) : Knows ([] :: Γ) locals := h

/-- A new scope with one name. -/
theorem enterWith (h : Knows Γ locals) (x : String) (τ : Ty) :
    Knows ([(x, τ)] :: Γ) (x :: locals) := by
  intro y
  rw [Frames.find?_cons, List.lookup_cons, List.mem_cons, not_or]
  by_cases hy : y = x
  · subst hy
    simp
  · simpa [hy, beq_eq_false_iff_ne.2 hy] using h y

theorem declare {frame : List (String × Ty)} (h : Knows (frame :: Γ) locals) (x : String) (τ : Ty) :
    Knows (Frames.declare x τ (frame :: Γ)) (x :: locals) := by
  intro y
  have hy := h y
  rw [Frames.find?_cons] at hy
  rw [Frames.declare, Frames.find?_cons, List.lookup_cons, List.mem_cons, not_or, ← hy]
  by_cases hyx : y = x
  · subst hyx
    simp
  · simp [hyx, beq_eq_false_iff_ne.2 hyx]

/-- Names can be declared where there is a scope for them. -/
theorem after (h : Knows Γ locals) (hscope : Γ ≠ []) (s : Stmt) :
    Knows (Γ.after s) (s.namesBehind locals) := by
  cases s with
  | varDecl _ x ty _ _ =>
      cases Γ with
      | nil => exact absurd rfl hscope
      | cons frame Γ => exact h.declare x ty
  | _ => exact h

theorem params (params : List Param) : Knows [paramTypes params] (params.map Param.name) := by
  intro x
  rw [Frames.find?_cons, ← map_fst_paramTypes]
  simp only [Frames.find?, List.findSome?_nil, Option.or_none, List.lookup_eq_none_iff, List.mem_map,
    bne_iff_ne]
  exact ⟨fun h ⟨p, hp, hx⟩ => h p hp hx.symm, fun h p hp hx => h ⟨p, hp, hx.symm⟩⟩

end Knows

theorem after_ne_nil {Γ : TyEnv} (h : Γ ≠ []) (s : Stmt) : Γ.after s ≠ [] := by
  cases s with
  | varDecl _ x ty _ _ =>
      cases Γ with
      | nil => exact absurd rfl h
      | cons frame Γ => exact List.cons_ne_nil _ _
  | _ => exact h

section

variable {c : Context} {ns : String → Bool} {Γ : TyEnv} {locals : List String}

theorem isNamespace_of_isNamespace (hns : ∀ x, c.isNamespace x → ns x) (h : Knows Γ locals) {n : Note}
    {x : String} (hx : Frames.find? Γ x = none) (howner : c.isNamespace x) :
    (Expr.ident n x).isNamespace ns locals := by
  simp only [Expr.isNamespace, Bool.and_eq_true, Bool.not_eq_true', List.contains_eq_mem,
    decide_eq_false_iff_not]
  exact ⟨(h x).1 hx, hns x howner⟩

mutual

/-- An expression that obeys the rules is covered. -/
theorem covered_of_typed (hns : ∀ x, c.isNamespace x → ns x) : (e : Expr) → {τ : Ty} →
    e.Typed c Γ τ → Knows Γ locals → e.covered ns locals
  | .literal n v, _, h, _ => by
      cases h with
      | literal hn _ =>
          rw [Expr.covered, hn]
          rfl
  | .ident n x, _, h, hΓ => by
      cases h with
      | bound hn hx =>
          have hlocal : x ∈ locals := by
            by_contra hlocal
            rw [(hΓ x).2 hlocal] at hx
            cases hx
          simp [Expr.covered, hn, hlocal]
      | global hn _ hvalue _ =>
          rw [Expr.covered, hn, hvalue, Option.isSome_some, Option.isSome_some, Bool.or_true]
          rfl
  | .self n, _, h, _ => by
      cases h with
      | self hn _ =>
          rw [Expr.covered, hn]
          rfl
  | .unary n op e, _, h, hΓ => by
      cases h with
      | unary hn he _ =>
          rw [Expr.covered, hn, covered_of_typed hns e he hΓ]
          rfl
  | .binary n op l r, _, h, hΓ => by
      cases h with
      | binary hn hl hr _ =>
          rw [Expr.covered, hn, covered_of_typed hns l hl hΓ, covered_of_typed hns r hr hΓ]
          rfl
  | .ternary n e a b, _, h, hΓ => by
      cases h with
      | ternary hn he ha hb _ =>
          rw [Expr.covered, hn, covered_of_typed hns e he hΓ, covered_of_typed hns a ha hΓ,
            covered_of_typed hns b hb hΓ]
          rfl
  | .call n name args, _, h, hΓ => by
      have hcovered : ∀ types, List.Forall₂ (Expr.Typed c Γ) args types →
          exprsCovered ns locals args := fun _ hargs => exprs_covered hns args hargs hΓ
      cases h with
      | print hn hcall ha _ =>
          rw [Expr.covered, hcovered _ (.cons ha .nil), hn, hcall]
          rfl
      | call hn hcall _ hargs _ =>
          rw [Expr.covered, hcovered _ hargs, hn, hcall]
          rfl
  | .methodCall n e method args, _, h, hΓ => by
      have hreceiver := fun τ he => covered_of_typed hns e (τ := τ) he hΓ
      cases h with
      | @moduleCall _ _ x _ _ _ _ _ hn _ hcall hx hmodule _ hargs _ =>
          have howner : c.isNamespace x := .inr (by rw [hmodule]; rfl)
          rw [Expr.covered, exprs_covered hns args hargs hΓ, hn, hcall,
            isNamespace_of_isNamespace hns hΓ hx howner]
          rfl
      | newInstance hn hcall _ he =>
          rw [Expr.covered, hn, hcall, hreceiver _ he, Bool.or_true, exprsCovered]
          rfl
      | methodCall hn hcall he _ hargs _ =>
          rw [Expr.covered, exprs_covered hns args hargs hΓ, hn, hcall, hreceiver _ he, Bool.or_true]
          rfl
  | .member n e name, _, h, hΓ => by
      cases h with
      | constant hn hx howner hvalue _ =>
          rw [Expr.covered, hn, hvalue, isNamespace_of_isNamespace hns hΓ hx howner]
          rfl
      | field hn hvalue he _ =>
          rw [Expr.covered, hn, hvalue, covered_of_typed hns e he hΓ, Bool.or_true]
          rfl
  | .index n e i, _, h, hΓ => by
      cases h with
      | index hn he hi _ =>
          rw [Expr.covered, hn, covered_of_typed hns e he hΓ, covered_of_typed hns i hi hΓ]
          rfl
  | .cast n e target, _, h, hΓ => by
      cases h with
      | cast hn he _ _ =>
          rw [Expr.covered, hn, covered_of_typed hns e he hΓ]
          rfl
  | .list n items, _, h, hΓ => by
      cases h with
      | list hn hitems _ =>
          rw [Expr.covered, hn, exprs_covered hns items hitems hΓ]
          rfl
  | .map n entries, _, h, hΓ => by
      cases h with
      | map hn hkeys hvalues _ _ _ =>
          rw [Expr.covered, hn, entries_covered hns entries hkeys hvalues hΓ]
          rfl

theorem exprs_covered (hns : ∀ x, c.isNamespace x → ns x) : (es : List Expr) → {types : List Ty} →
    List.Forall₂ (Expr.Typed c Γ) es types → Knows Γ locals → exprsCovered ns locals es
  | [], _, _, _ => by rw [exprsCovered]
  | e :: rest, _, .cons he hrest, hΓ => by
      rw [exprsCovered, covered_of_typed hns e he hΓ, exprs_covered hns rest hrest hΓ]
      rfl

theorem entries_covered (hns : ∀ x, c.isNamespace x → ns x) : (entries : List (Expr × Expr)) →
    {keys values : List Ty} →
    List.Forall₂ (Expr.Typed c Γ) (entries.map Prod.fst) keys →
    List.Forall₂ (Expr.Typed c Γ) (entries.map Prod.snd) values → Knows Γ locals →
    entriesCovered ns locals entries
  | [], _, _, _, _, _ => by rw [entriesCovered]
  | (key, value) :: rest, _, _, .cons hkey hkeys, .cons hvalue hvalues, hΓ => by
      rw [entriesCovered, covered_of_typed hns key hkey hΓ, covered_of_typed hns value hvalue hΓ,
        entries_covered hns rest hkeys hvalues hΓ]
      rfl

end

theorem stored_covered (hns : ∀ x, c.isNamespace x → ns x) (hΓ : Knows Γ locals) {e : Expr} {τ : Ty}
    (h : e.Stored c Γ τ) : e.covered ns locals := by
  obtain ⟨_, he, _⟩ := h
  exact covered_of_typed hns e he hΓ

theorem target_covered (hns : ∀ x, c.isNamespace x → ns x) (hΓ : Knows Γ locals) {e : Expr} {τ : Ty}
    (h : e.Target c Γ τ) : e.targetCovered ns locals := by
  cases h with
  | @name _ x _ hn hx =>
      have hlocal : x ∈ locals := by
        by_contra hlocal
        rw [(hΓ x).2 hlocal] at hx
        cases hx
      simp [Expr.targetCovered, hn, hlocal]
  | field hn hvalue he hf => exact covered_of_typed hns _ (.field hn hvalue he hf) hΓ
  | element hn he hi hτ _ => exact covered_of_typed hns _ (.index hn he hi hτ) hΓ

theorem assigned_covered (hns : ∀ x, c.isNamespace x → ns x) (hΓ : Knows Γ locals) {e : Expr} {τ : Ty}
    {op : Option BinaryOp} (h : e.Assigned c Γ τ op) : e.covered ns locals := by
  cases op with
  | none => exact stored_covered hns hΓ h
  | some op =>
      obtain ⟨_, he, _⟩ := h
      exact covered_of_typed hns e he hΓ

theorem Knows.afterAll (h : Knows Γ locals) (hscope : Γ ≠ []) (body : List Stmt) :
    Knows (Γ.afterAll body) (body.foldl Stmt.namesBehind locals) := by
  induction body generalizing Γ locals with
  | nil => exact h
  | cons s rest ih => exact ih (h.after hscope s) (after_ne_nil hscope s)

theorem Knows.after? (h : Knows Γ locals) (hscope : Γ ≠ []) (s : Option Stmt) :
    Knows (Γ.after? s) (namesBehind? locals s) := by
  cases s with
  | none => exact h
  | some s => exact h.after hscope s

theorem afterAll_ne_nil (h : Γ ≠ []) (body : List Stmt) : Γ.afterAll body ≠ [] := by
  induction body generalizing Γ with
  | nil => exact h
  | cons s rest ih => exact ih (after_ne_nil h s)

end

section

variable {c : Context} {ns : String → Bool}

mutual

/-- What obeys the rules is covered. -/
theorem stmt_covered (hns : ∀ x, c.isNamespace x → ns x) : (s : Stmt) → {loop brk : Bool} →
    {Γ : TyEnv} → {locals : List String} → s.Typed c loop brk Γ → Knows Γ locals → Γ ≠ [] →
    s.covered ns locals
  | .varDecl _ _ _ _ init, _, _, _, _, h, hΓ, _ => by
      rw [Stmt.Typed] at h
      rw [Stmt.covered, Option.all_eq_true]
      exact fun e he => stored_covered hns hΓ (h.2.2.2 e he)
  | .assign _ target op e, _, _, _, _, h, hΓ, _ => by
      rw [Stmt.Typed] at h
      obtain ⟨τ, htarget, he⟩ := h
      rw [Stmt.covered, target_covered hns hΓ htarget, assigned_covered hns hΓ he]
      rfl
  | .expr _ e, _, _, _, _, h, hΓ, _ => by
      rw [Stmt.Typed] at h
      obtain ⟨τ, he⟩ := h
      rw [Stmt.covered]
      exact covered_of_typed hns e he hΓ
  | .ifThen _ e body, _, _, _, _, h, hΓ, _ => by
      rw [Stmt.Typed] at h
      rw [Stmt.covered, covered_of_typed hns e h.1 hΓ,
        stmts_covered hns body h.2 hΓ.enter (List.cons_ne_nil _ _)]
      rfl
  | .ifElse _ e a b, _, _, _, _, h, hΓ, _ => by
      rw [Stmt.Typed] at h
      rw [Stmt.covered, covered_of_typed hns e h.1 hΓ,
        stmts_covered hns a h.2.1 hΓ.enter (List.cons_ne_nil _ _),
        stmts_covered hns b h.2.2 hΓ.enter (List.cons_ne_nil _ _)]
      rfl
  | .while _ e body, _, _, _, _, h, hΓ, _ => by
      rw [Stmt.Typed] at h
      rw [Stmt.covered, covered_of_typed hns e h.1 hΓ,
        stmts_covered hns body h.2 hΓ.enter (List.cons_ne_nil _ _)]
      rfl
  | .doWhile _ body e, _, _, _, _, h, hΓ, _ => by
      rw [Stmt.Typed] at h
      rw [Stmt.covered, covered_of_typed hns e h.2 hΓ,
        stmts_covered hns body h.1 hΓ.enter (List.cons_ne_nil _ _)]
      rfl
  | .for _ init e update body, _, _, _, locals, h, hΓ, _ => by
      rw [Stmt.Typed] at h
      obtain ⟨hinit, he, hbody, hupdate⟩ := h
      have hinner := hΓ.enter.after? (List.cons_ne_nil _ _) init
      have hcondition : e.all (Expr.covered ns (namesBehind? locals init)) :=
        (Option.all_eq_true _ _).2 fun e' he' => covered_of_typed hns e' (he e' he') hinner
      rw [Stmt.covered, stmt?_covered hns init hinit hΓ.enter (List.cons_ne_nil _ _), hcondition,
        stmts_covered hns body hbody hinner.enter (List.cons_ne_nil _ _),
        stmt?_covered hns update hupdate (hinner.enter.afterAll (List.cons_ne_nil _ _) body)
          (afterAll_ne_nil (List.cons_ne_nil _ _) body)]
      rfl
  | .forEach _ _ _ x e body, _, _, _, _, h, hΓ, _ => by
      rw [Stmt.Typed] at h
      obtain ⟨τ, elem, he, _, _, hbody⟩ := h
      rw [Stmt.covered, covered_of_typed hns e he hΓ,
        stmts_covered hns body hbody (hΓ.enterWith x elem) (List.cons_ne_nil _ _)]
      rfl
  | .switch _ e arms, _, _, _, _, h, hΓ, _ => by
      rw [Stmt.Typed] at h
      obtain ⟨τ, he, _, harms⟩ := h
      rw [Stmt.covered, covered_of_typed hns e he hΓ, arms_covered hns arms harms hΓ]
      rfl
  | .break _, _, _, _, _, _, _, _ => by rw [Stmt.covered]
  | .continue _, _, _, _, _, _, _, _ => by rw [Stmt.covered]
  | .ret _ none, _, _, _, _, _, _, _ => by
      rw [Stmt.covered]
      rfl
  | .ret _ (some e), _, _, _, _, h, hΓ, _ => by
      rw [Stmt.Typed] at h
      rw [Stmt.covered]
      exact stored_covered hns hΓ h.2
  | .throw _ e, _, _, _, _, h, hΓ, _ => by
      rw [Stmt.Typed] at h
      obtain ⟨proto, he, _⟩ := h
      rw [Stmt.covered]
      exact covered_of_typed hns e he hΓ
  | .try _ body clauses, _, _, _, _, h, hΓ, _ => by
      rw [Stmt.Typed] at h
      rw [Stmt.covered, stmts_covered hns body h.1 hΓ.enter (List.cons_ne_nil _ _),
        clauses_covered hns clauses h.2 hΓ]
      rfl
  | .block _ body, _, _, _, _, h, hΓ, _ => by
      rw [Stmt.Typed] at h
      rw [Stmt.covered]
      exact stmts_covered hns body h hΓ.enter (List.cons_ne_nil _ _)

theorem stmts_covered (hns : ∀ x, c.isNamespace x → ns x) : (body : List Stmt) → {loop brk : Bool} →
    {Γ : TyEnv} → {locals : List String} → StmtsTyped c loop brk Γ body → Knows Γ locals → Γ ≠ [] →
    stmtsCovered ns locals body
  | [], _, _, _, _, _, _, _ => by rw [stmtsCovered]
  | s :: rest, _, _, _, _, h, hΓ, hscope => by
      rw [StmtsTyped] at h
      rw [stmtsCovered, stmt_covered hns s h.1 hΓ hscope,
        stmts_covered hns rest h.2 (hΓ.after hscope s) (after_ne_nil hscope s)]
      rfl

theorem stmt?_covered (hns : ∀ x, c.isNamespace x → ns x) : (s : Option Stmt) → {loop brk : Bool} →
    {Γ : TyEnv} → {locals : List String} → StmtTyped? c loop brk Γ s → Knows Γ locals → Γ ≠ [] →
    stmtCovered? ns locals s
  | none, _, _, _, _, _, _, _ => by rw [stmtCovered?]
  | some s, _, _, _, _, h, hΓ, hscope => by
      rw [StmtTyped?] at h
      rw [stmtCovered?]
      exact stmt_covered hns s h hΓ hscope

theorem arms_covered (hns : ∀ x, c.isNamespace x → ns x) : (arms : List SwitchArm) → {loop : Bool} →
    {τ : Ty} → {Γ : TyEnv} → {locals : List String} → ArmsTyped c loop τ Γ arms → Knows Γ locals →
    armsCovered ns locals arms
  | [], _, _, _, _, _, _ => by rw [armsCovered]
  | .mk _ test body _ :: rest, _, _, _, locals, h, hΓ => by
      rw [ArmsTyped] at h
      have htest : test.all (Expr.covered ns locals) :=
        (Option.all_eq_true _ _).2 fun e he => stored_covered hns hΓ (h.1 e he)
      rw [armsCovered, htest, stmts_covered hns body h.2.1 hΓ.enter (List.cons_ne_nil _ _),
        arms_covered hns rest h.2.2 hΓ]
      rfl

theorem clauses_covered (hns : ∀ x, c.isNamespace x → ns x) : (clauses : List CatchClause) →
    {loop brk : Bool} → {Γ : TyEnv} → {locals : List String} → ClausesTyped c loop brk Γ clauses →
    Knows Γ locals → clausesCovered ns locals clauses
  | [], _, _, _, _, _, _ => by rw [clausesCovered]
  | .mk _ proto x body :: rest, _, _, _, _, h, hΓ => by
      rw [ClausesTyped] at h
      rw [clausesCovered,
        stmts_covered hns body h.2.2.1 (hΓ.enterWith x (.named proto)) (List.cons_ne_nil _ _),
        clauses_covered hns rest h.2.2.2 hΓ]
      rfl

end

theorem function_covered (hns : ∀ x, c.isNamespace x → ns x) {proto? : Option String}
    {f : FunctionDecl} (h : f.Typed c proto?) : f.covered ns :=
  stmts_covered (c := { c with proto?, ret := f.ret }) hns f.body h.body (Knows.params f.params)
    (List.cons_ne_nil _ _)

theorem decl_covered (hns : ∀ x, c.isNamespace x → ns x) {d : Decl} (h : d.Typed c) : d.covered ns := by
  cases d with
  | function f => exact function_covered hns h
  | prototype d =>
      rw [Decl.covered, Bool.and_eq_true, List.all_eq_true, List.all_eq_true]
      refine ⟨fun f hf => (Option.all_eq_true _ _).2 fun e he => ?_, fun m hm =>
        function_covered hns (h.methods m hm)⟩
      exact stored_covered (c := { c with proto? := none }) (Γ := [[]]) hns (by simp [Knows, Frames.find?])
        ((h.fields f hf).init e he)
  | group g => rfl

end

/-! ## No silent failures -/

namespace Analysis

/-- An expression is left without a type only where a diagnostic is added, whatever had been found before;
and so everything is covered in a program without problems. -/
theorem reports_or_covers :
    (∀ (c : Context) (expected : Option Ty) (e : Expr) (s : State),
      (checkExpr expected e c s).1.type? = none →
        ∃ d more, (checkExpr expected e c s).2.found = s.found ++ d :: more) ∧
    ∀ (p : Program) (library : Library), (p.analyze library).isClean →
      (p.analyze library).covered := by
  refine ⟨fun c expected e s hnone => ?_, fun p library hclean => ?_⟩
  · obtain ⟨more, hmore⟩ := (inspects_checkExpr expected e c s).found
    have hlt := count_lt_of_untyped (Prod.eta (checkExpr expected e c s)).symm hnone
    unfold State.count at hlt
    cases more with
    | nil =>
        rw [← hmore, List.append_nil] at hlt
        exact absurd hlt (Nat.lt_irrefl _)
    | cons d more => exact ⟨d, more, hmore.symm⟩
  · rw [covered, List.all_eq_true]
    intro d hd
    refine decl_covered (fun x hx => ?_) (Program.typed_of_isClean hclean hd)
    rw [isNamespace, Bool.or_eq_true]
    exact hx

/-- A program with a group, a prototype whose field starts as a member of the group, and a function that
makes an instance, calls a method of it and assigns its field. -/
def lights : Program where
  file := "lights.ps"
  imports := []
  decls :=
    [.group { name := "Color", base := .int, members := [⟨"RED", .literal {} (.int 1), .origin⟩] },
      .prototype
        { name := "Light", parent := none, isSealed := false
          fields := [⟨"color", .int, false, some (.member {} (.ident {} "Color") "RED"), .everyone, .origin⟩]
          methods := [⟨.everyone,
            { name := "next", params := [], ret := .int
              body := [.ret .origin (some (.binary {} .add (.member {} (.self {}) "color")
                (.literal {} (.int 1))))] }⟩] },
      .function
        { name := "switched", params := [], ret := .int
          body :=
            [.varDecl .origin "light" (.named "Light") false
                (some (.methodCall {} (.ident {} "Light") "clone" [])),
              .assign .origin (.member {} (.ident {} "light") "color") none
                (.methodCall {} (.ident {} "light") "next" []),
              .ret .origin (some (.member {} (.ident {} "light") "color"))] }]

/-- All of `lights` is covered. Among its declarations a name that stands for nothing has no type, and is
reported. -/
theorem reports_or_covers_lights :
    (lights.analyze ⟨[]⟩).isClean ∧ (lights.analyze ⟨[]⟩).covered ∧
      (checkExpr none (.ident {} "lihgt") (lights.context ⟨[]⟩) {}).1.type? = none ∧
      ∃ d more, (checkExpr none (.ident {} "lihgt") (lights.context ⟨[]⟩) {}).2.found = [] ++ d :: more := by
  have hclean : (lights.analyze ⟨[]⟩).isClean := by decide +kernel
  have hnone : (checkExpr none (.ident {} "lihgt") (lights.context ⟨[]⟩) {}).1.type? = none := by
    decide +kernel
  exact ⟨hclean, reports_or_covers.2 lights ⟨[]⟩ hclean, hnone,
    reports_or_covers.1 (lights.context ⟨[]⟩) none (.ident {} "lihgt") {} hnone⟩

end Analysis

end ProtoScript
