import ProtoScript.Proofs.Analysis.Rules
import ProtoScript.Proofs.Lowering.Scopes

set_option autoImplicit false

/-!
# Where lowering comes to an expression

While an expression is lowered, so are its parts, each behind the code of what comes before it
(`Enters`). Parts of an expression see the names that the expression sees (`Visits.sameScopes`), and
are typed like it, apart from the names of groups and modules, which are no values (`Visits.known`).
-/

namespace ProtoScript

namespace Lowering

/-- A call of the target on a receiver needs the value of the receiver. -/
def needsReceiver (receiver : Expr) : CallTarget → Bool
  | .newInstance _ | .function _ | .print => false
  | .foreign .. => receiver.type?.isSome
  | _ => true

/-- A call of the target needs the values of its arguments. -/
def needsArgs : CallTarget → Bool
  | .newInstance _ | .copyInstance _ => false
  | _ => true

/-- Lowering comes from an expression to one of its parts. What it writes in between is stated as it is
written. -/
inductive Enters (k : Context) (ni : String → Lower Ir.Temp) : Expr → Builder → Expr → Builder → Prop where
  | unary {n : Note} {op : UnaryOp} {e : Expr} {b : Builder} : Enters k ni (.unary n op e) b e b
  | left {n : Note} {op : BinaryOp} {l r : Expr} {b : Builder} : Enters k ni (.binary n op l r) b l b
  | right {n : Note} {op : BinaryOp} {l r : Expr} {b b₁ : Builder} {t : Ir.Temp}
    (hl : Runs k (lowerExpr ni l) b t b₁)
    (hop : op.isLogical = false ∨ Runs k (isTrivial r) b₁ true b₁) :
    Enters k ni (.binary n op l r) b r b₁
  | rightOnly {n : Note} {op : BinaryOp} {l r : Expr} {b b₁ b₂ b₃ : Builder} {t : Ir.Temp}
    {joined rhs done : String} (hl : Runs k (lowerExpr ni l) b t b₁) (hop : op.isLogical = true)
    (hr : Runs k (isTrivial r) b₁ false b₁)
    (hstart : Runs k (startLogical op t) b₁ (joined, rhs, done) b₂)
    (hblock : Runs k (startBlock rhs) b₂ () b₃) : Enters k ni (.binary n op l r) b r b₃
  | condition {n : Note} {e x y : Expr} {b : Builder} : Enters k ni (.ternary n e x y) b e b
  | first {n : Note} {e x y : Expr} {b b₁ : Builder} {r : String × String × String}
    (h : Runs k (openTernary ni n e x y) b r b₁) : Enters k ni (.ternary n e x y) b x b₁
  | second {n : Note} {e x y : Expr} {b b₁ : Builder} {r : String × String}
    (h : Runs k (openTernaryElse ni n e x y) b r b₁) : Enters k ni (.ternary n e x y) b y b₁
  | arg {n : Note} {name : String} {before after : List Expr} {e : Expr} {b b₁ : Builder}
    {ts : List Ir.Temp} (h : Runs k (lowerExprs ni before) b ts b₁) :
    Enters k ni (.call n name (before ++ e :: after)) b e b₁
  | receiver {n : Note} {e : Expr} {method : String} {args : List Expr} {b : Builder}
    {target : CallTarget} (hcall : n.call? = some target) (hneeds : needsReceiver e target) :
    Enters k ni (.methodCall n e method args) b e b
  | methodArg {n : Note} {o e : Expr} {method : String} {before after : List Expr} {b b₁ b₂ : Builder}
    {target : CallTarget} {ts : List Ir.Temp} (hcall : n.call? = some target) (hargs : needsArgs target)
    (ho : if needsReceiver o target then ∃ t, Runs k (lowerExpr ni o) b t b₁ else b₁ = b)
    (h : Runs k (lowerExprs ni before) b₁ ts b₂) :
    Enters k ni (.methodCall n o method (before ++ e :: after)) b e b₂
  | object {n : Note} {e : Expr} {name proto field : String} {b : Builder}
    (hvalue : n.value? = some (.field proto field)) : Enters k ni (.member n e name) b e b
  | indexed {n : Note} {e i : Expr} {b : Builder} : Enters k ni (.index n e i) b e b
  | index {n : Note} {e i : Expr} {b b₁ : Builder} {t : Ir.Temp} (he : Runs k (lowerExpr ni e) b t b₁) :
    Enters k ni (.index n e i) b i b₁
  | cast {n : Note} {e : Expr} {target : Ty} {b : Builder} : Enters k ni (.cast n e target) b e b
  | item {n : Note} {before after : List Expr} {e : Expr} {b b₁ : Builder} {ts : List Ir.Temp}
    (h : Runs k (lowerExprs ni before) b ts b₁) : Enters k ni (.list n (before ++ e :: after)) b e b₁
  | key {n : Note} {before after : List (Expr × Expr)} {e v : Expr} {b b₁ : Builder}
    {ts : List (Ir.Temp × Ir.Temp)} (h : Runs k (lowerEntries ni before) b ts b₁) :
    Enters k ni (.map n (before ++ (e, v) :: after)) b e b₁
  | value {n : Note} {before after : List (Expr × Expr)} {e v : Expr} {b b₁ b₂ : Builder}
    {ts : List (Ir.Temp × Ir.Temp)} {t : Ir.Temp} (h : Runs k (lowerEntries ni before) b ts b₁)
    (he : Runs k (lowerExpr ni e) b₁ t b₂) : Enters k ni (.map n (before ++ (e, v) :: after)) b v b₂

/-- While the first expression is lowered, the second is: it is the first, or a part of it. -/
inductive Visits (k : Context) (ni : String → Lower Ir.Temp) : Expr → Builder → Expr → Builder → Prop where
  | here {e : Expr} {b : Builder} : Visits k ni e b e b
  | into {e e₁ e₂ : Expr} {b b₁ b₂ : Builder} (h : Enters k ni e b e₁ b₁)
    (hrest : Visits k ni e₁ b₁ e₂ b₂) : Visits k ni e b e₂ b₂

/-- Writes tests that others come behind. -/
def lowerTestsBefore (ni : String → Lower Ir.Temp) (value : Ir.Temp) (tests : List (String × Expr)) :
    Lower Unit := tests.forM fun test => lowerTest ni value test.1 test.2

/-- Lowering comes from a statement to an expression of it, which is no part of another one in it. The
condition of a `for` loop is left out: it sees other names than the loop. -/
inductive Carries (k : Context) (ni : String → Lower Ir.Temp) : Stmt → Builder → Expr → Builder → Prop where
  | init {sp : Span} {x : String} {ty : Ty} {isConst : Bool} {e : Expr} {b : Builder} :
    Carries k ni (.varDecl sp x ty isConst (some e)) b e b
  | assigned {sp : Span} {n : Note} {x v : String} {op : Option BinaryOp} {e : Expr} {b b₁ : Builder}
    {old : Option Ir.Temp} (hx : Runs k (varOf? x) b (some v) b)
    (hold : Runs k (lowerCurrent op (emitValue (.loadVar · v))) b old b₁) :
    Carries k ni (.assign sp (.ident n x) op e) b e b₁
  | owner {sp : Span} {n : Note} {o : Expr} {name : String} {op : Option BinaryOp} {e : Expr}
    {b : Builder} : Carries k ni (.assign sp (.member n o name) op e) b o b
  | assignedMember {sp : Span} {n : Note} {o : Expr} {name proto field : String} {op : Option BinaryOp}
    {e : Expr} {b b₁ b₂ : Builder} {a : Ir.Temp} {old : Option Ir.Temp}
    (hfield : n.value? = some (.field proto field)) (ho : Runs k (lowerExpr ni o) b a b₁)
    (hold : Runs k (lowerCurrent op (emitValue (.fieldGet · a proto name))) b₁ old b₂) :
    Carries k ni (.assign sp (.member n o name) op e) b e b₂
  | container {sp : Span} {n : Note} {o i : Expr} {op : Option BinaryOp} {e : Expr} {b : Builder} :
    Carries k ni (.assign sp (.index n o i) op e) b o b
  | position {sp : Span} {n : Note} {o i : Expr} {op : Option BinaryOp} {e : Expr} {b b₁ : Builder}
    {a : Ir.Temp} (ho : Runs k (lowerExpr ni o) b a b₁) :
    Carries k ni (.assign sp (.index n o i) op e) b i b₁
  | assignedElement {sp : Span} {n : Note} {o i : Expr} {op : Option BinaryOp} {e : Expr} {ty : Ty}
    {b b₁ b₂ : Builder} {a j : Ir.Temp} {old : Option Ir.Temp} (hty : Runs k (typeOf o) b ty b)
    (ho : Runs k (openElement ni ty o i) b (a, j) b₁)
    (hold : Runs k (lowerCurrent op (lowerElement ty a j)) b₁ old b₂) :
    Carries k ni (.assign sp (.index n o i) op e) b e b₂
  | expr {sp : Span} {e : Expr} {b : Builder} : Carries k ni (.expr sp e) b e b
  | thenCond {sp : Span} {e : Expr} {body : List Stmt} {b : Builder} :
    Carries k ni (.ifThen sp e body) b e b
  | elseCond {sp : Span} {e : Expr} {x y : List Stmt} {b : Builder} :
    Carries k ni (.ifElse sp e x y) b e b
  | whileCond {sp : Span} {e : Expr} {body : List Stmt} {b b₁ : Builder}
    {labels : String × String × String} (h : Runs k openWhile b labels b₁) :
    Carries k ni (.while sp e body) b e b₁
  | doCond {sp : Span} {e : Expr} {body : List Stmt} {b b₁ : Builder} {labels : String × String}
    (h : Runs k (openDoTest ni body) b labels b₁) : Carries k ni (.doWhile sp body e) b e b₁
  | iterable {sp : Span} {kind : IterKind} {ty : Option Ty} {x : String} {e : Expr} {body : List Stmt}
    {b : Builder} : Carries k ni (.forEach sp kind ty x e body) b e b
  | switched {sp : Span} {e : Expr} {arms : List SwitchArm} {b : Builder} :
    Carries k ni (.switch sp e arms) b e b
  | tested {sp : Span} {e test : Expr} {arms : List SwitchArm} {b b₁ b₂ : Builder} {value : Ir.Temp}
    {done label : String} {labels : List String} {before after : List (String × Expr)}
    (h : Runs k (openSwitch ni e arms.length) b (value, done, labels) b₁)
    (htests : armTests arms labels = before ++ (label, test) :: after)
    (hbefore : Runs k (lowerTestsBefore ni value before) b₁ () b₂) :
    Carries k ni (.switch sp e arms) b test b₂
  | ret {sp : Span} {e : Expr} {b : Builder} : Carries k ni (.ret sp (some e)) b e b
  | throw {sp : Span} {e : Expr} {b : Builder} : Carries k ni (.throw sp e) b e b

/-! ## Names -/

section

variable {k : Context} {ni : String → Lower Ir.Temp} (hni : ∀ proto, Steady (ni proto))

include hni

/-- What is written before a part of an expression changes no name. -/
theorem Enters.sameScopes {e e₁ : Expr} {b b₁ : Builder} (h : Enters k ni e b e₁ b₁) :
    b.SameScopes b₁ := by
  have hexpr : ∀ {e : Expr} {b b' : Builder} {t : Ir.Temp}, Runs k (lowerExpr ni e) b t b' →
      b.SameScopes b' := fun {e b b' t} h => steady_lowerExpr hni e k b t b' h
  cases h with
  | unary | left | condition | receiver | object | indexed | cast => exact .refl b
  | right hl => exact hexpr hl
  | rightOnly hl hop hr hstart hblock =>
      exact ((hexpr hl).trans (steady_startLogical _ _ k _ _ _ hstart)).trans
        (steady_startBlock _ k _ _ _ hblock)
  | first h => exact steady_openTernary (steady_lowerExpr hni _) k _ _ _ h
  | second h => exact steady_openTernaryElse (steady_lowerExpr hni _) (steady_lowerExpr hni _) k _ _ _ h
  | arg h => exact steady_lowerExprs hni _ k _ _ _ h
  | methodArg hcall hargs ho h =>
      have hrest := steady_lowerExprs hni _ k _ _ _ h
      split at ho
      · obtain ⟨t, ho⟩ := ho
        exact (hexpr ho).trans hrest
      · subst ho
        exact hrest
  | index he => exact hexpr he
  | item h => exact steady_lowerExprs hni _ k _ _ _ h
  | key h => exact steady_lowerEntries hni _ k _ _ _ h
  | value h he => exact (steady_lowerEntries hni _ k _ _ _ h).trans (hexpr he)

theorem steady_lowerTestsBefore (value : Ir.Temp) (tests : List (String × Expr)) :
    Steady (lowerTestsBefore ni value tests) := by
  induction tests with
  | nil => exact steady_pure _
  | cons test rest ih => exact (steady_lowerTest hni value _ _).bind fun _ => ih

/-- The expressions of a statement see the names that the statement sees. -/
theorem Carries.sameScopes {stmt : Stmt} {e : Expr} {b b₁ : Builder} (h : Carries k ni stmt b e b₁) :
    b.SameScopes b₁ := by
  have hexpr : ∀ {e : Expr} {b b' : Builder} {t : Ir.Temp}, Runs k (lowerExpr ni e) b t b' →
      b.SameScopes b' := fun {e b b' t} h => steady_lowerExpr hni e k b t b' h
  cases h with
  | init | owner | container | expr | thenCond | elseCond | iterable | switched | ret | throw =>
      exact .refl b
  | assigned hx hold => exact steady_lowerCurrent _ (steady_emitValue _) k _ _ _ hold
  | assignedMember hfield ho hold =>
      exact (hexpr ho).trans (steady_lowerCurrent _ (steady_emitValue _) k _ _ _ hold)
  | position ho => exact hexpr ho
  | assignedElement hty ho hold =>
      exact (steady_openElement hni _ _ _ k _ _ _ ho).trans
        (steady_lowerCurrent _ (steady_lowerElement _ _ _) k _ _ _ hold)
  | whileCond h => exact steady_openWhile k _ _ _ h
  | doCond h => exact steady_openDoTest (scoped_lowerStmts hni _) k _ _ _ h
  | tested h htests hbefore =>
      exact (steady_openSwitch hni _ _ k _ _ _ h).trans
        (steady_lowerTestsBefore hni _ _ k _ _ _ hbefore)

/-- All parts of an expression see the names that the expression sees. -/
theorem Visits.sameScopes {e e₁ : Expr} {b b₁ : Builder} (h : Visits k ni e b e₁ b₁) :
    b.SameScopes b₁ := by
  induction h with
  | here => exact .refl _
  | into h _ ih => exact (h.sameScopes hni).trans ih

end

end Lowering

/-! ## Types -/

open Analysis Lowering

variable {c : Analysis.Context} {Γ : TyEnv}

/-- The expression has a type, or is a name that is no variable. -/
def Expr.Known (c : Analysis.Context) (Γ : TyEnv) (e : Expr) : Prop :=
  (∃ τ, e.Typed c Γ τ) ∨ ∃ n x, e = .ident n x ∧ Frames.find? Γ x = none

theorem Expr.Typed.known {e : Expr} {τ : Ty} (h : e.Typed c Γ τ) : e.Known c Γ := .inl ⟨τ, h⟩

theorem Expr.known_of_mem {es : List Expr} {types : List Ty}
    (h : List.Forall₂ (Expr.Typed c Γ) es types) {e : Expr} (he : e ∈ es) : e.Known c Γ := by
  obtain ⟨i, hi, rfl⟩ := List.getElem_of_mem he
  exact (h.get hi (h.length_eq ▸ hi)).known

theorem Expr.Typed.known_arg {n : Note} {name : String} {args : List Expr} {τ : Ty}
    (h : (Expr.call n name args).Typed c Γ τ) {e : Expr} (he : e ∈ args) : e.Known c Γ := by
  cases h with
  | print _ _ ha _ =>
      obtain rfl := List.mem_singleton.1 he
      exact ha.known
  | call _ _ _ hargs _ => exact known_of_mem hargs he

theorem Expr.Typed.known_methodArg {n : Note} {o : Expr} {method : String} {args : List Expr} {τ : Ty}
    (h : (Expr.methodCall n o method args).Typed c Γ τ) {e : Expr} (he : e ∈ args) : e.Known c Γ := by
  cases h with
  | moduleCall _ _ _ _ _ _ hargs _ => exact known_of_mem hargs he
  | newInstance => cases he
  | methodCall _ _ _ _ hargs _ => exact known_of_mem hargs he

theorem Expr.Typed.known_receiver {n : Note} {o : Expr} {method : String} {args : List Expr} {τ : Ty}
    (h : (Expr.methodCall n o method args).Typed c Γ τ) : o.Known c Γ := by
  cases h with
  | moduleCall _ _ _ hx => exact .inr ⟨_, _, rfl, hx⟩
  | newInstance _ _ _ he => exact he.known
  | methodCall _ _ he => exact he.known

theorem Expr.Typed.known_object {n : Note} {o : Expr} {name : String} {τ : Ty}
    (h : (Expr.member n o name).Typed c Γ τ) : o.Known c Γ := by
  cases h with
  | constant _ hx => exact .inr ⟨_, _, rfl, hx⟩
  | field _ _ he => exact he.known

section

variable {k : Lowering.Context} {ni : String → Lower Ir.Temp}

/-- The parts of an expression that are lowered have types, or are names of no variable. -/
theorem Lowering.Enters.known {e e₁ : Expr} {b b₁ : Builder} (h : Enters k ni e b e₁ b₁)
    (he : e.Known c Γ) : e₁.Known c Γ := by
  rcases he with ⟨τ, he⟩ | ⟨n, x, rfl, _⟩
  swap
  · cases h
  cases h with
  | unary =>
      cases he with
      | unary _ he => exact he.known
  | left =>
      cases he with
      | binary _ hl => exact hl.known
  | right | rightOnly =>
      cases he with
      | binary _ _ hr => exact hr.known
  | condition =>
      cases he with
      | ternary _ he => exact he.known
  | first =>
      cases he with
      | ternary _ _ ha => exact ha.known
  | second =>
      cases he with
      | ternary _ _ _ hb => exact hb.known
  | arg => exact he.known_arg (List.mem_append_right _ List.mem_cons_self)
  | receiver => exact he.known_receiver
  | methodArg => exact he.known_methodArg (List.mem_append_right _ List.mem_cons_self)
  | object => exact he.known_object
  | indexed =>
      cases he with
      | index _ he => exact he.known
  | index =>
      cases he with
      | index _ _ hi => exact hi.known
  | cast =>
      cases he with
      | cast _ he => exact he.known
  | item =>
      cases he with
      | list _ hitems => exact Expr.known_of_mem hitems (List.mem_append_right _ List.mem_cons_self)
  | key =>
      cases he with
      | map _ hkeys =>
          exact Expr.known_of_mem hkeys
            (List.mem_map_of_mem (List.mem_append_right _ List.mem_cons_self))
  | value =>
      cases he with
      | map _ _ hvalues =>
          exact Expr.known_of_mem hvalues
            (List.mem_map_of_mem (List.mem_append_right _ List.mem_cons_self))

theorem Lowering.Visits.known {e e₁ : Expr} {b b₁ : Builder} (h : Visits k ni e b e₁ b₁)
    (he : e.Known c Γ) : e₁.Known c Γ := by
  induction h with
  | here => exact he
  | into h _ ih => exact ih (h.known he)

end

theorem Expr.Stored.known {e : Expr} {target : Ty} (h : e.Stored c Γ target) : e.Known c Γ := by
  obtain ⟨τ, he, _⟩ := h
  exact he.known

theorem Expr.Assigned.known {e : Expr} {target : Ty} {op : Option BinaryOp}
    (h : e.Assigned c Γ target op) : e.Known c Γ := by
  cases op with
  | none => exact Expr.Stored.known h
  | some op =>
      obtain ⟨τ, he, _⟩ := h
      exact he.known

theorem ArmsTyped.known_test {loop : Bool} {τ : Ty} {arms : List SwitchArm}
    (h : ArmsTyped c loop τ Γ arms) {labels : List String} {label : String} {e : Expr}
    (he : (label, e) ∈ armTests arms labels) : e.Known c Γ := by
  induction arms generalizing labels with
  | nil =>
      unfold armTests at he
      rw [List.zip_nil_right] at he
      cases he
  | cons arm rest ih =>
      obtain ⟨sp, test, body, falls⟩ := arm
      rw [ArmsTyped] at h
      cases labels with
      | nil => cases he
      | cons l labels =>
          unfold armTests at he
          rw [List.zip_cons_cons, List.filterMap_cons] at he
          cases test with
          | none => exact ih h.2.2 he
          | some e' =>
              rcases List.mem_cons.1 he with heq | he
              · cases heq
                exact (h.1 _ rfl).known
              · exact ih h.2.2 he

/-- The expressions of a statement that obeys the rules have types, or are names of no variable. -/
theorem Lowering.Carries.known {k : Lowering.Context} {ni : String → Lower Ir.Temp} {stmt : Stmt} {e : Expr}
    {b b₁ : Builder} (h : Carries k ni stmt b e b₁) {loop brk : Bool} (hstmt : stmt.Typed c loop brk Γ) :
    e.Known c Γ := by
  cases h with
  | init =>
      rw [Stmt.Typed] at hstmt
      exact (hstmt.2.2.2 _ rfl).known
  | assigned | assignedMember | assignedElement =>
      rw [Stmt.Typed] at hstmt
      obtain ⟨τ, _, he⟩ := hstmt
      exact he.known
  | owner =>
      rw [Stmt.Typed] at hstmt
      obtain ⟨τ, htarget, _⟩ := hstmt
      cases htarget with
      | field _ _ ho => exact ho.known
  | container =>
      rw [Stmt.Typed] at hstmt
      obtain ⟨τ, htarget, _⟩ := hstmt
      cases htarget with
      | element _ ho => exact ho.known
  | position =>
      rw [Stmt.Typed] at hstmt
      obtain ⟨τ, htarget, _⟩ := hstmt
      cases htarget with
      | element _ _ hi => exact hi.known
  | expr =>
      rw [Stmt.Typed] at hstmt
      obtain ⟨τ, he⟩ := hstmt
      exact he.known
  | thenCond | elseCond | whileCond =>
      rw [Stmt.Typed] at hstmt
      exact hstmt.1.known
  | doCond =>
      rw [Stmt.Typed] at hstmt
      exact hstmt.2.known
  | iterable =>
      rw [Stmt.Typed] at hstmt
      obtain ⟨τ, elem, he, _⟩ := hstmt
      exact he.known
  | switched =>
      rw [Stmt.Typed] at hstmt
      obtain ⟨τ, he, _⟩ := hstmt
      exact he.known
  | @tested _ _ _ arms _ _ _ _ _ label labels before after _ htests =>
      rw [Stmt.Typed] at hstmt
      obtain ⟨τ, _, _, harms⟩ := hstmt
      have hmem : (label, e) ∈ armTests arms labels := by
        rw [htests]
        exact List.mem_append_right before List.mem_cons_self
      exact harms.known_test hmem
  | ret =>
      rw [Stmt.Typed] at hstmt
      exact hstmt.2.known
  | throw =>
      rw [Stmt.Typed] at hstmt
      obtain ⟨proto, he, _⟩ := hstmt
      exact he.known

/-- A variable has been noted to have the type of its declaration. -/
theorem Expr.Known.type_of_find? {n : Note} {x : String} (h : (Expr.ident n x).Known c Γ) {τ : Ty}
    (hx : Frames.find? Γ x = some τ) : n.type? = some τ := by
  rcases h with ⟨σ, h⟩ | ⟨_, _, heq, hnone⟩
  · cases h with
    | bound hn hσ =>
        rw [hx] at hσ
        rw [hn, hσ]
    | global _ hnone =>
        rw [hx] at hnone
        cases hnone
  · cases heq
    rw [hx] at hnone
    cases hnone

end ProtoScript
