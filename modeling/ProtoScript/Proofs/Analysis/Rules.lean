import ProtoScript.Analysis.Stmt
import ProtoScript.Proofs.Source.Typing

set_option autoImplicit false

/-!
# The rules of the language

What a checked function obeys, for the whole language: every node carries the type that the rules give it,
a name stands for the innermost variable of that name or else for a value from the top of the program, and
calls name what they call. The rules read the context of the checker (prototypes, functions, groups and
imports) and the types of the variables in scope, but nothing of how checking goes about it.

Only the types matter here. Whether a variable has a value, and how long a list is, is left out.
-/

namespace ProtoScript

namespace Analysis

/-! ## What names stand for -/

/-- A value can be given the type by the groups of the program or by a module that can be imported. -/
inductive Context.Constant (c : Context) : ProtoScript.Constant → Ty → Prop where
  | member {g : Group} {name : String} {v : ProtoScript.Constant} (hg : g ∈ c.groups.groups)
    (hv : g.member? name = some v) : Constant c v g.base
  | library {module name : String} {k : LibraryConstant} {v : ProtoScript.Constant}
    (hk : c.library.constant? module name = some k) (hv : k.toConstant? = some v) :
    Constant c v k.ty

/-- A name that is no variable stands for a value of the type. -/
inductive Context.Global (c : Context) : ValueTarget → Ty → Prop where
  | prototype {name : String} (h : c.hierarchy.contains name) :
    Global c (.prototype name) (.named name)
  | constant {v : ProtoScript.Constant} {τ : Ty} (h : c.Constant v τ) : Global c (.constant v) τ

/-- A name that is no variable is that of a group or of an imported module. -/
def Context.isNamespace (c : Context) (name : String) : Prop :=
  c.groups.contains name ∨ (c.imports.namespace? name).isSome

/-- What the function of the given name is. -/
inductive Context.Function (c : Context) : String → Callee → Prop where
  | declared {name : String} {f : FunctionDecl} (h : c.function? name = some f) :
    Function c name ⟨name, f.params.map (·.ty), f.ret, .function name⟩
  | imported {name module member : String} {f : LibraryFunction}
    (h : c.imports.member? name = some (module, member))
    (hf : c.library.function? module member = some f) :
    Function c name ⟨member, f.params, f.ret, .foreign module member f.ret⟩

/-- What the method of the given name is, on a receiver of the type. -/
inductive Context.Method (c : Context) : Ty → String → Callee → Prop where
  | ofInstance {proto method : String} {info : MethodInfo}
    (h : c.hierarchy.method? proto method = some info) :
    Method c (.named proto) method ⟨method, info.params,
      (methodTarget c.hierarchy proto method info).2,
      (methodTarget c.hierarchy proto method info).1⟩
  | ofContainer {τ : Ty} {method : String} {s : ContainerSignature}
    (h : containerMethod? τ method = some s) :
    Method c τ method ⟨method, s.params, s.ret, .container s.method⟩

/-- A method of an instance is one that is carried out outside of the program, a copy, or a method that does
not belong to a sealed built-in prototype. -/
theorem methodTarget_cases (h : Hierarchy) (proto method : String) (info : MethodInfo) :
    methodTarget h proto method info = (.foreign info.owner method info.ret, info.ret) ∨
      methodTarget h proto method info = (.copyInstance proto, .named proto) ∨
      methodTarget h proto method info =
          (.method proto method (h.isOverriddenBelow proto method), info.ret) ∧
        ∀ q, h.get? info.owner = some q → q.isBuiltin → q.isSealed = false := by
  unfold methodTarget
  dsimp only
  split
  case isTrue => exact .inl rfl
  case isFalse hforeign =>
    split
    case isTrue => exact .inr (.inl rfl)
    case isFalse =>
      refine .inr (.inr ⟨rfl, fun q hq hbuiltin => ?_⟩)
      rw [hq, Option.any_some, Option.any_some, hbuiltin, Bool.true_and] at hforeign
      exact eq_false_of_ne_true hforeign

end Analysis

open Analysis

/-- A method of a container or string has the signature for the receiver's keys and elements. -/
theorem signature_of_containerMethod? {σ : Ty} {method : String} {s : ContainerSignature}
    (hs : containerMethod? σ method = some s) :
    ∃ key elem, σ.element? = some elem ∧ (s.params, s.ret) = s.method.signature key elem := by
  obtain ⟨_, _, hs⟩ := Option.bind_eq_some_iff.1 hs
  obtain ⟨elem, helem, hs⟩ := Option.bind_eq_some_iff.1 hs
  obtain ⟨key, _, hs⟩ := Option.bind_eq_some_iff.1 hs
  cases hs
  exact ⟨key, elem, helem, rfl⟩

/-! ## Expressions -/

/-- A literal can have its own type, and a whole number that fits can be a `byte`. -/
def Literal.CanBe (v : Literal) (τ : Ty) : Prop :=
  τ = v.ty ∨ τ = .byte ∧ ∃ k, v = .int k ∧ (Constant.fitByte? k.toInt).isSome

/-- The type of a binary operation on operands of given types: logical operators take truth values, others
operands of one type; instances of prototypes of which one inherits from the other can be compared. -/
def BinaryOp.Gives (h : Hierarchy) (op : BinaryOp) (left right result : Ty) : Prop :=
  if op.isLogical then left = .bool ∧ right = .bool ∧ result = .bool
  else
    left = right ∧ binaryApplies op left ∧ result = op.resultTy left ∨
      op.isEquality ∧ (h.isAssignable left right ∨ h.isAssignable right left) ∧ result = .bool

/-- An element of a value of type `object` has the type, and is reached by an `index`. -/
inductive Ty.Element (h : Hierarchy) : Ty → Ty → Ty → Prop where
  | ofMap {key elem index : Ty} (hindex : h.isAssignable index key) :
    Element h (.map key elem) index elem
  | ofSequence {object elem : Ty} (hkey : object.key? = some .int)
    (helem : object.element? = some elem) : Element h object .int elem

/-- All of the types can be stored as those they are compared with. -/
def Hierarchy.Accepts (h : Hierarchy) (sources targets : List Ty) : Prop :=
  List.Forall₂ (fun source target => h.isAssignable source target = true) sources targets

/-- The expression has the type, and has been noted to. -/
inductive Expr.Typed (c : Context) (Γ : TyEnv) : Expr → Ty → Prop where
  | literal {n : Note} {v : Literal} {τ : Ty} (hn : n.type? = some τ) (hv : v.CanBe τ) :
    Typed c Γ (.literal n v) τ
  | bound {n : Note} {x : String} {τ : Ty} (hn : n.type? = some τ)
    (hx : Frames.find? Γ x = some τ) : Typed c Γ (.ident n x) τ
  | global {n : Note} {x : String} {t : ValueTarget} {τ : Ty} (hn : n.type? = some τ)
    (hx : Frames.find? Γ x = none) (hvalue : n.value? = some t) (ht : c.Global t τ) :
    Typed c Γ (.ident n x) τ
  | self {n : Note} {proto : String} (hn : n.type? = some (.named proto))
    (hproto : c.proto? = some proto) : Typed c Γ (.self n) (.named proto)
  | unary {n : Note} {op : UnaryOp} {e : Expr} {τ : Ty} (hn : n.type? = some τ)
    (he : Typed c Γ e τ) (hop : unaryApplies op τ) : Typed c Γ (.unary n op e) τ
  | binary {n : Note} {op : BinaryOp} {l r : Expr} {left right τ : Ty} (hn : n.type? = some τ)
    (hl : Typed c Γ l left) (hr : Typed c Γ r right) (hop : op.Gives c.hierarchy left right τ) :
    Typed c Γ (.binary n op l r) τ
  | ternary {n : Note} {e a b : Expr} {α β τ : Ty} (hn : n.type? = some τ)
    (he : Typed c Γ e .bool) (ha : Typed c Γ a α) (hb : Typed c Γ b β)
    (hτ : c.hierarchy.isAssignable β α ∧ τ = α ∨ c.hierarchy.isAssignable α β ∧ τ = β) :
    Typed c Γ (.ternary n e a b) τ
  | print {n : Note} {a : Expr} {τ : Ty} (hn : n.type? = some .void)
    (hcall : n.call? = some .print) (ha : Typed c Γ a τ) (hτ : τ.isScalar) :
    Typed c Γ (.call n Builtin.print [a]) .void
  | call {n : Note} {name : String} {k : Callee} {args : List Expr} {types : List Ty}
    (hn : n.type? = some k.ret) (hcall : n.call? = some k.target) (hk : c.Function name k)
    (hargs : List.Forall₂ (Typed c Γ) args types) (hfit : c.hierarchy.Accepts types k.params) :
    Typed c Γ (.call n name args) k.ret
  | moduleCall {n n' : Note} {x module method : String} {f : LibraryFunction} {args : List Expr}
    {types : List Ty} (hn : n.type? = some f.ret) (hn' : n'.type? = none)
    (hcall : n.call? = some (.foreign module method f.ret)) (hx : Frames.find? Γ x = none)
    (hmodule : c.imports.namespace? x = some module)
    (hf : c.library.function? module method = some f)
    (hargs : List.Forall₂ (Typed c Γ) args types) (hfit : c.hierarchy.Accepts types f.params) :
    Typed c Γ (.methodCall n (.ident n' x) method args) f.ret
  | newInstance {n n' : Note} {proto method : String} (hn : n.type? = some (.named proto))
    (hcall : n.call? = some (.newInstance proto)) (hx : Frames.find? Γ proto = none)
    (he : Typed c Γ (.ident n' proto) (.named proto)) :
    Typed c Γ (.methodCall n (.ident n' proto) method []) (.named proto)
  | methodCall {n : Note} {e : Expr} {method : String} {k : Callee} {args : List Expr} {τ : Ty}
    {types : List Ty} (hn : n.type? = some k.ret) (hcall : n.call? = some k.target)
    (he : Typed c Γ e τ) (hk : c.Method τ method k)
    (hargs : List.Forall₂ (Typed c Γ) args types) (hfit : c.hierarchy.Accepts types k.params) :
    Typed c Γ (.methodCall n e method args) k.ret
  | constant {n n' : Note} {x name : String} {v : Constant} {τ : Ty} (hn : n.type? = some τ)
    (hx : Frames.find? Γ x = none) (howner : c.isNamespace x)
    (hvalue : n.value? = some (.constant v)) (hv : c.Constant v τ) :
    Typed c Γ (.member n (.ident n' x) name) τ
  | field {n : Note} {e : Expr} {proto name : String} {f : FieldInfo}
    (hn : n.type? = some f.ty) (hvalue : n.value? = some (.field proto name))
    (he : Typed c Γ e (.named proto)) (hf : c.hierarchy.field? proto name = some f) :
    Typed c Γ (.member n e name) f.ty
  | index {n : Note} {e i : Expr} {object position τ : Ty} (hn : n.type? = some τ)
    (he : Typed c Γ e object) (hi : Typed c Γ i position)
    (hτ : Ty.Element c.hierarchy object position τ) : Typed c Γ (.index n e i) τ
  | cast {n : Note} {e : Expr} {source target : Ty} (hn : n.type? = some target)
    (he : Typed c Γ e source) (hsource : source.isNumeric) (htarget : target.isNumeric) :
    Typed c Γ (.cast n e target) target
  | list {n : Note} {items : List Expr} {elem : Ty} {types : List Ty}
    (hn : n.type? = some (.list elem)) (hitems : List.Forall₂ (Typed c Γ) items types)
    (hfit : ∀ τ ∈ types, c.hierarchy.isAssignable τ elem) : Typed c Γ (.list n items) (.list elem)
  | map {n : Note} {entries : List (Expr × Expr)} {key value : Ty} {keys values : List Ty}
    (hn : n.type? = some (.map key value))
    (hkeys : List.Forall₂ (Typed c Γ) (entries.map Prod.fst) keys)
    (hvalues : List.Forall₂ (Typed c Γ) (entries.map Prod.snd) values)
    (hscalar : ∀ τ ∈ keys, τ.isScalar) (hkey : ∀ τ ∈ keys, c.hierarchy.isAssignable τ key)
    (hvalue : ∀ τ ∈ values, c.hierarchy.isAssignable τ value) :
    Typed c Γ (.map n entries) (.map key value)

variable {c : Context} {Γ : TyEnv}

theorem Expr.Typed.type? {e : Expr} {τ : Ty} (h : e.Typed c Γ τ) : e.type? = some τ := by
  cases h <;> assumption

/-- The expression has one type only. -/
theorem Expr.Typed.unique {e : Expr} {σ τ : Ty} (hσ : e.Typed c Γ σ) (hτ : e.type? = some τ) :
    σ = τ := by
  rw [hσ.type?] at hτ
  exact Option.some.inj hτ

/-- The value of the expression can be stored as one of the type. -/
def Expr.Stored (c : Context) (Γ : TyEnv) (e : Expr) (target : Ty) : Prop :=
  ∃ τ, e.Typed c Γ τ ∧ c.hierarchy.isAssignable τ target

/-- The value of the expression can be assigned to a target of the type, by an operator or as it is. -/
def Expr.Assigned (c : Context) (Γ : TyEnv) (e : Expr) (target : Ty) : Option BinaryOp → Prop
  | none => e.Stored c Γ target
  | some op => ∃ τ, e.Typed c Γ τ ∧ op.Gives c.hierarchy target τ target

/-- The expression can be assigned a value of the type: it is a variable, a field, or an element of
something that can be written into. -/
inductive Expr.Target (c : Context) (Γ : TyEnv) : Expr → Ty → Prop where
  | name {n : Note} {x : String} {τ : Ty} (hn : n.type? = some τ)
    (hx : Frames.find? Γ x = some τ) : Target c Γ (.ident n x) τ
  | field {n : Note} {e : Expr} {proto name : String} {f : FieldInfo}
    (hn : n.type? = some f.ty) (hvalue : n.value? = some (.field proto name))
    (he : e.Typed c Γ (.named proto)) (hf : c.hierarchy.field? proto name = some f) :
    Target c Γ (.member n e name) f.ty
  | element {n : Note} {e i : Expr} {object position τ : Ty} (hn : n.type? = some τ)
    (he : e.Typed c Γ object) (hi : i.Typed c Γ position)
    (hτ : Ty.Element c.hierarchy object position τ) (hwritable : isReadOnly object = false) :
    Target c Γ (.index n e i) τ

/-! ## Statements -/

/-- The name is declared in the innermost scope. -/
def TyEnv.declares (Γ : TyEnv) (x : String) : Bool := ((Γ.headD []).lookup x).isSome

/-- The variables in scope behind a statement that may be missing. -/
def TyEnv.after? (Γ : TyEnv) : Option Stmt → TyEnv
  | none => Γ
  | some s => Γ.after s

mutual

/-- The statement obeys the rules, inside a loop if `loop` says so, and inside a loop or switch if `brk`
does. -/
def Stmt.Typed (c : Context) (loop brk : Bool) (Γ : TyEnv) : Stmt → Prop
  | .varDecl _ x ty _ init =>
    ty.containsVoid = false ∧ unknownPrototype? c.hierarchy ty = none ∧ Γ.declares x = false ∧
      ∀ e, init = some e → e.Stored c Γ ty
  | .assign _ target op e => ∃ τ, target.Target c Γ τ ∧ e.Assigned c Γ τ op
  | .expr _ e => ∃ τ, e.Typed c Γ τ
  | .ifThen _ e body => e.Typed c Γ .bool ∧ StmtsTyped c loop brk ([] :: Γ) body
  | .ifElse _ e a b =>
    e.Typed c Γ .bool ∧ StmtsTyped c loop brk ([] :: Γ) a ∧ StmtsTyped c loop brk ([] :: Γ) b
  | .while _ e body => e.Typed c Γ .bool ∧ StmtsTyped c true true ([] :: Γ) body
  | .doWhile _ body e => StmtsTyped c true true ([] :: Γ) body ∧ e.Typed c Γ .bool
  | .for _ init e update body =>
    StmtTyped? c loop brk ([] :: Γ) init ∧
      (∀ e', e = some e' → e'.Typed c (TyEnv.after? ([] :: Γ) init) .bool) ∧
      StmtsTyped c true true ([] :: TyEnv.after? ([] :: Γ) init) body ∧
      -- The step is checked as the last statement of the body.
      StmtTyped? c true true (TyEnv.afterAll ([] :: TyEnv.after? ([] :: Γ) init) body) update
  | .forEach _ kind ty x e body => ∃ τ elem, e.Typed c Γ τ ∧ visited? kind τ = some elem ∧
      (∀ ty', ty = some ty' → ty' = elem) ∧ StmtsTyped c true true ([(x, elem)] :: Γ) body
  | .switch _ e arms => ∃ τ, e.Typed c Γ τ ∧ τ.isScalar ∧ ArmsTyped c loop τ Γ arms
  | .break _ => brk
  | .continue _ => loop
  | .ret _ none => c.ret = .void
  | .ret _ (some e) => c.ret ≠ .void ∧ e.Stored c Γ c.ret
  | .throw _ e => ∃ proto, e.Typed c Γ (.named proto) ∧ c.hierarchy.isException proto
  | .try _ body clauses => StmtsTyped c loop brk ([] :: Γ) body ∧ ClausesTyped c loop brk Γ clauses
  | .block _ body => StmtsTyped c loop brk ([] :: Γ) body

def StmtsTyped (c : Context) (loop brk : Bool) (Γ : TyEnv) : List Stmt → Prop
  | [] => True
  | s :: rest => s.Typed c loop brk Γ ∧ StmtsTyped c loop brk (Γ.after s) rest

/-- The statement obeys the rules if there is one. -/
def StmtTyped? (c : Context) (loop brk : Bool) (Γ : TyEnv) : Option Stmt → Prop
  | none => True
  | some s => s.Typed c loop brk Γ

/-- The arms of a switch over a value of type `τ` obey the rules. -/
def ArmsTyped (c : Context) (loop : Bool) (τ : Ty) (Γ : TyEnv) : List SwitchArm → Prop
  | [] => True
  | .mk _ test body _ :: rest =>
    (∀ e, test = some e → e.Stored c Γ τ) ∧ StmtsTyped c loop true ([] :: Γ) body ∧
      ArmsTyped c loop τ Γ rest

/-- The clauses catch instances of prototypes that can be thrown, under the name of the clause. -/
def ClausesTyped (c : Context) (loop brk : Bool) (Γ : TyEnv) : List CatchClause → Prop
  | [] => True
  | .mk _ proto binding body :: rest =>
    c.hierarchy.contains proto ∧ c.hierarchy.isException proto ∧
      StmtsTyped c loop brk ([(binding, .named proto)] :: Γ) body ∧ ClausesTyped c loop brk Γ rest

end

section

-- The equations of the rules are made here, before proofs that are checked side by side all ask for them.
attribute [local simp] Stmt.Typed StmtsTyped StmtTyped? ArmsTyped ClausesTyped

end

/-- A function that is a method of `proto?` obeys the rules: its parameters have different names, and its
body obeys them with the parameters as the only variables. -/
structure FunctionDecl.Typed (c : Context) (proto? : Option String) (f : FunctionDecl) : Prop where
  nodup : (f.params.map Param.name).Nodup
  params : ∀ p ∈ f.params, unknownPrototype? c.hierarchy p.ty = none
  ret : unknownPrototype? c.hierarchy f.ret = none
  body : StmtsTyped { c with proto?, ret := f.ret } false false [paramTypes f.params] f.body

/-- The initial value of a field obeys the rules outside of every method, without variables. -/
structure FieldDecl.Typed (c : Context) (f : FieldDecl) : Prop where
  ty : unknownPrototype? c.hierarchy f.ty = none
  init : ∀ e, f.init = some e → e.Stored { c with proto? := none } [[]] f.ty

/-- All members of the prototype obey the rules. -/
structure PrototypeDecl.Typed (c : Context) (d : PrototypeDecl) : Prop where
  fields : ∀ f ∈ d.fields, f.Typed c
  methods : ∀ m ∈ d.methods, m.function.Typed c (some d.name)

/-- The declaration obeys the rules. -/
def Decl.Typed (c : Context) : Decl → Prop
  | .function f => f.Typed c none
  | .prototype d => d.Typed c
  | .group _ => True

end ProtoScript
