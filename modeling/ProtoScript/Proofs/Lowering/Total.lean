import ProtoScript.Proofs.Analysis.Knowledge
import ProtoScript.Proofs.Analysis.Rules
import ProtoScript.Proofs.Lowering.Instances

set_option autoImplicit false

/-!
# Expressions that can be lowered

Lowering gives up where an operand has no value, where a name or a call was not resolved, and where new
instances do not come to an end. An expression that obeys the rules has everything resolved, so it is lowered
without fail if its operands have values (`Expr.isValued`) and the new instances that it asks for can be made
(`succeeds_lowerExpr?`). The value of the expression itself may be missing only if it is a call without a
result.

The proof is an induction over the expression. What is written between the operands cannot fail at all
(`Sure`); what is written for an operand succeeds where names stand for variables as they did when the
expression was checked (`Builder.At`).
-/

namespace ProtoScript

/-! ## Operands with values -/

/-- The expression is a call that gives no value. -/
def Expr.isAction : Expr → Bool
  | .call n _ _ | .methodCall n _ _ _ => n.type? == some .void
  | _ => false

mutual

/-- All operands in the expression have values. -/
def Expr.isValued : Expr → Bool
  | .literal .. | .ident .. | .self _ => true
  | .unary _ _ e | .cast _ e _ | .member _ e _ => !e.isAction && e.isValued
  | .binary _ _ a b | .index _ a b => (!a.isAction && a.isValued) && (!b.isAction && b.isValued)
  | .ternary _ e a b =>
    (!e.isAction && e.isValued) && ((!a.isAction && a.isValued) && (!b.isAction && b.isValued))
  | .call _ _ args => allValued args
  | .methodCall _ e _ args => (!e.isAction && e.isValued) && allValued args
  | .list _ items => allValued items
  | .map _ entries => entriesValued entries

/-- All of the expressions, and the operands in them, have values. -/
def allValued : List Expr → Bool
  | [] => true
  | e :: rest => (!e.isAction && e.isValued) && allValued rest

/-- All keys and values of the entries have values, and the operands in them. -/
def entriesValued : List (Expr × Expr) → Bool
  | [] => true
  | (k, v) :: rest => (!k.isAction && k.isValued) && ((!v.isAction && v.isValued) && entriesValued rest)

end

/-- The expression has a value, and so do all operands in it. -/
def Expr.hasValue (e : Expr) : Bool := !e.isAction && e.isValued

theorem Expr.hasValue_iff {e : Expr} : e.hasValue ↔ e.isAction = false ∧ e.isValued := by
  rw [Expr.hasValue, Bool.and_eq_true, Bool.not_eq_true']

namespace Lowering

variable {α β : Type}

/-! ## Steps that cannot fail -/

/-- The step always succeeds with a result as told, and leaves names and the targets of jumps. -/
structure Sure (k : Context) (m : Lower α) (q : α → Prop) : Prop where
  runs : ∀ b, ∃ a b', Runs k m b a b' ∧ q a
  steady : Steady m

/-- Nothing is told of the result. -/
abbrev Sure.Any (k : Context) (m : Lower α) : Prop := Sure k m fun _ => True

section

variable {k : Context}

section

variable {m : Lower α} {f : α → Lower β} {q : α → Prop} {r : β → Prop}

theorem Sure.of_runs (hm : ∀ b, ∃ a b', Runs k m b a b') (hs : Steady m) : Sure.Any k m :=
  ⟨fun b => let ⟨a, b', h⟩ := hm b; ⟨a, b', h, trivial⟩, hs⟩

theorem sure_pure {a : α} (h : q a) : Sure k (pure a : Lower α) q :=
  ⟨fun b => ⟨a, b, rfl, h⟩, steady_pure a⟩

theorem Sure.bind (hm : Sure.Any k m) (hf : ∀ a, Sure k (f a) r) : Sure k (m >>= f) r where
  runs b := by
    obtain ⟨a, b₁, h₁, _⟩ := hm.runs b
    obtain ⟨d, b₂, h₂, hr⟩ := (hf a).runs b₁
    exact ⟨d, b₂, h₁.bind h₂, hr⟩
  steady := hm.steady.bind fun a => (hf a).steady

/-- Whatever the step gives is a value. -/
theorem Sure.wrapped {m : Lower Ir.Temp} (hm : Sure.Any k m) :
    Sure k (do return some (← m)) fun t => t.isSome :=
  hm.bind fun _ => sure_pure rfl

end

theorem sure_emit (i : Ir.Instr) : Sure.Any k (emit i) := .of_runs (fun _ => ⟨_, _, rfl⟩) (steady_emit i)

theorem sure_emitValue (make : Ir.Temp → Ir.Instr) : Sure.Any k (emitValue make) :=
  .of_runs (fun _ => ⟨_, _, rfl⟩) (steady_emitValue make)

theorem sure_freshLabel (stem : String) : Sure.Any k (freshLabel stem) :=
  .of_runs (fun _ => ⟨_, _, rfl⟩) (steady_freshLabel stem)

theorem sure_endWith (t : Ir.Terminator) : Sure.Any k (endWith t) :=
  .of_runs (fun _ => ⟨_, _, rfl⟩) (steady_endWith t)

theorem sure_jump (label : String) : Sure.Any k (jump label) := sure_endWith _

theorem sure_startBlock (label : String) : Sure.Any k (startBlock label) :=
  .of_runs (fun _ => ⟨_, _, rfl⟩) (steady_startBlock label)

theorem sure_declareJoin (ty : Ty) : Sure.Any k (declareJoin ty) :=
  .of_runs (fun _ => ⟨_, _, rfl⟩) (steady_declareJoin ty)

theorem sure_isTrivial (e : Expr) : Sure.Any k (isTrivial e) := by
  refine .of_runs (fun b => ?_) (steady_isTrivial e)
  cases e <;> exact ⟨_, _, rfl⟩

theorem sure_startLogical (op : BinaryOp) (left : Ir.Temp) : Sure.Any k (startLogical op left) :=
  .of_runs (fun _ => ⟨_, _, rfl⟩) (steady_startLogical op left)

theorem sure_emitUnary (op : UnaryOp) (t : Ir.Temp) (ty : Ty) : Sure.Any k (emitUnary op t ty) := by
  unfold emitUnary
  dsimp only
  split
  · exact (sure_emit _).bind fun _ => sure_emitValue _
  · exact sure_emitValue _

theorem sure_emitBinary (op : BinaryOp) (l r : Ir.Temp) (ty : Ty) :
    Sure.Any k (emitBinary op l r ty) := by
  unfold emitBinary
  cases checkFor? op l r ty with
  | none => exact sure_emitValue _
  | some check => exact (sure_emit _).bind fun _ => sure_emitValue _

/-- A call that has a result gives a value. -/
theorem sure_emitResult (ret : Ty) (make : Option Ir.Temp → Ir.Instr) :
    Sure k (emitResult (!ret.isVoid) make) fun t => ret ≠ .void → t.isSome := by
  cases hret : ret.isVoid with
  | false => exact (sure_emitValue _).bind fun _ => sure_pure fun _ => rfl
  | true => exact (sure_emit _).bind fun _ => sure_pure fun h => absurd (of_decide_eq_true hret) h

theorem sure_prints (args : List Ir.Temp) : Sure.Any k (args.forM fun value => emit (.print value)) := by
  induction args with
  | nil => exact sure_pure trivial
  | cons t rest ih => exact (sure_emit _).bind fun _ => ih

/-- What the checker takes for a function is called. -/
theorem sure_emitPlainCall {c : Analysis.Context} {n : Note} {name : String} {callee : Analysis.Callee}
    (hcallee : c.Function name callee) (args : List Ir.Temp) :
    Sure k (emitPlainCall n callee.target (!callee.ret.isVoid) args) fun t =>
      callee.ret ≠ .void → t.isSome := by
  cases hcallee with
  | @declared f _ => exact sure_emitResult f.ret (.callStatic · name args)
  | @imported module member f _ _ => exact sure_emitResult f.ret (.callForeign · module member args f.ret)

/-- A method of a container can be called with as many arguments as it has parameters. -/
theorem sure_emitContainerCall {n : Note} {key elem : Ty} {method : ContainerMethod}
    (hn : n.type? = some (method.signature key elem).2) (object : Ir.Temp) {args : List Ir.Temp}
    (hargs : args.length = (method.signature key elem).1.length) :
    Sure k (emitContainerCall n method object args) fun t =>
      (method.signature key elem).2 ≠ .void → t.isSome := by
  cases method with
  | push | remove =>
      obtain ⟨value, rfl⟩ := List.length_eq_one_iff.1 hargs
      exact (sure_emit _).bind fun _ => sure_pure fun h => absurd rfl h
  | pop | length => exact (sure_emitValue _).bind fun _ => sure_pure fun _ => rfl
  | view | slice =>
      obtain ⟨start, stop, rfl⟩ := List.length_eq_two.1 hargs
      unfold emitContainerCall
      dsimp only
      rw [hn]
      exact (sure_emitValue _).bind fun _ => sure_pure fun _ => rfl
  | clear => exact (sure_emit _).bind fun _ => sure_pure fun h => absurd rfl h
  | has =>
      obtain ⟨value, rfl⟩ := List.length_eq_one_iff.1 hargs
      exact (sure_emitValue _).bind fun _ => sure_pure fun _ => rfl

end

/-! ## Builders with the names of an environment -/

/-- Exactly the variables of the environment have names at the builder, and jumps have targets where the
flags say so: `continue` inside of a loop, and `break` inside of a loop or switch. -/
structure Builder.At (loop brk : Bool) (Γ : TyEnv) (b : Builder) : Prop where
  names : ∀ x, (Frames.find? b.scopes x).isSome = (Frames.find? Γ x).isSome
  nonempty : Γ ≠ []
  inner : b.scopes ≠ []
  continues : loop → ∃ t ∈ b.jumps, t.continueLabel.isSome
  breaks : brk → b.jumps ≠ []

section

variable {Γ : TyEnv} {loop brk : Bool} {b b' : Builder}

theorem Builder.At.same (h : b.At loop brk Γ) (hb : b.SameScopes b') : b'.At loop brk Γ where
  names x := by rw [hb.scopes, h.names]
  nonempty := h.nonempty
  inner := hb.scopes ▸ h.inner
  continues := hb.jumps ▸ h.continues
  breaks := hb.jumps ▸ h.breaks

/-- A scope without names is opened on both sides. -/
theorem Builder.At.enter (h : b.At loop brk Γ) :
    (b.withScopes ([] :: b.scopes)).At loop brk ([] :: Γ) where
  names x := by rw [Frames.find?_cons]; exact h.names x
  nonempty := nofun
  inner := nofun
  continues := h.continues
  breaks := h.breaks

/-- A scope without names is opened where the environment has none. -/
theorem Builder.At.push (h : b.At loop brk Γ) : (b.withScopes ([] :: b.scopes)).At loop brk Γ :=
  ⟨h.names, h.nonempty, nofun, h.continues, h.breaks⟩

/-- A name is declared on both sides. -/
theorem Builder.At.declare (h : b.At loop brk Γ) {x v : String} (ty : Ty)
    (hscopes : b'.scopes = Frames.declare x v b.scopes) (hjumps : b'.jumps = b.jumps) :
    b'.At loop brk (Frames.declare x ty Γ) := by
  obtain ⟨top, outer, rfl⟩ := List.exists_cons_of_ne_nil h.nonempty
  obtain ⟨inner, rest, hb⟩ := List.exists_cons_of_ne_nil h.inner
  have hnames := h.names
  rw [hb] at hscopes hnames
  refine ⟨fun y => ?_, nofun, by rw [hscopes]; nofun, hjumps ▸ h.continues, hjumps ▸ h.breaks⟩
  rw [hscopes, Frames.find?_declare, Frames.find?_declare]
  split
  · rfl
  · exact hnames y

end

/-! ## Steps that succeed -/

/-- From every builder as told the step succeeds, and then its result and the builder are as told. -/
def Succeeds (k : Context) (P : Builder → Prop) (m : Lower α) (Q : α → Builder → Prop) : Prop :=
  ∀ b, P b → ∃ a b', Runs k m b a b' ∧ Q a b'

section

variable {k : Context} {P : Builder → Prop} {m : Lower α} {f : α → Lower β} {Q : α → Builder → Prop}
  {R : β → Builder → Prop} {q : α → Prop} {Γ : TyEnv} {loop brk : Bool}

theorem Succeeds.bind (hm : Succeeds k P m Q) (hf : ∀ a, Succeeds k (Q a) (f a) R) :
    Succeeds k P (m >>= f) R := by
  intro b hb
  obtain ⟨a, b₁, h₁, hQ⟩ := hm b hb
  obtain ⟨d, b₂, h₂, hR⟩ := hf a b₁ hQ
  exact ⟨d, b₂, h₁.bind h₂, hR⟩

theorem Succeeds.mono {Q' : α → Builder → Prop} (hm : Succeeds k P m Q) (h : ∀ a b, Q a b → Q' a b) :
    Succeeds k P m Q' := by
  intro b hb
  obtain ⟨a, b', hrun, hQ⟩ := hm b hb
  exact ⟨a, b', hrun, h a b' hQ⟩

theorem succeeds_pure {a : α} (h : ∀ b, P b → Q a b) : Succeeds k P (pure a) Q :=
  fun b hb => ⟨a, b, rfl, h b hb⟩

/-- A step whose result is known to have a property. -/
theorem Succeeds.bind_of (hm : Succeeds k P m fun a b => q a ∧ P b)
    (hf : ∀ a, q a → Succeeds k P (f a) R) : Succeeds k P (m >>= f) R :=
  hm.bind fun a b ⟨hq, hb⟩ => hf a hq b hb

theorem Sure.succeeds (h : Sure k m q) : Succeeds k (·.At loop brk Γ) m fun a b => q a ∧ b.At loop brk Γ := by
  intro b hb
  obtain ⟨a, b', hrun, hq⟩ := h.runs b
  exact ⟨a, b', hrun, hq, hb.same (h.steady k b a b' hrun)⟩

/-- A step that cannot fail stands before one that succeeds. -/
theorem Sure.before (h : Sure.Any k m) (hf : ∀ a, Succeeds k (·.At loop brk Γ) (f a) R) :
    Succeeds k (·.At loop brk Γ) (m >>= f) R :=
  h.succeeds.bind_of fun a _ => hf a

/-- A step that cannot fail is the last. -/
theorem Sure.last (h : Sure.Any k m) : Succeeds k (·.At loop brk Γ) m fun _ b => b.At loop brk Γ :=
  h.succeeds.mono fun _ _ hb => hb.2

theorem typeOf_eq {e : Expr} {ty : Ty} (h : e.type? = some ty) : typeOf e = pure ty := by
  rw [typeOf, h]

theorem callOf_eq {n : Note} {target : CallTarget} {ty : Ty} (hcall : n.call? = some target)
    (hn : n.type? = some ty) : callOf n = pure (target, !ty.isVoid) := by
  rw [callOf, hcall, hn]

/-- The expression is lowered without fail, and to a value unless it is a call without a result. -/
def Lowerable (k : Context) (ni : String → Lower Ir.Temp) (loop brk : Bool) (Γ : TyEnv) (e : Expr) :
    Prop :=
  Succeeds k (·.At loop brk Γ) (lowerExpr? ni e) fun r b => (e.isAction = false → r.isSome) ∧ b.At loop brk Γ

section

variable {ni : String → Lower Ir.Temp} {e : Expr}

/-- An operand that has a value is lowered before one goes on. -/
theorem Lowerable.value (he : Lowerable k ni loop brk Γ e) (hvalue : e.isAction = false)
    {f : Ir.Temp → Lower β} (hf : ∀ t, Succeeds k (·.At loop brk Γ) (f t) R) :
    Succeeds k (·.At loop brk Γ) (do let t ← valueOf e (← lowerExpr? ni e); f t) R := by
  refine he.bind_of fun r hr => ?_
  obtain ⟨t, rfl⟩ := Option.isSome_iff_exists.1 (hr hvalue)
  exact hf t

/-- The last step of an expression leaves its value. -/
theorem Sure.lowered {m : Lower (Option Ir.Temp)} {r : Option Ir.Temp → Prop} (h : Sure k m r)
    (hr : ∀ t, r t → e.isAction = false → t.isSome) :
    Succeeds k (·.At loop brk Γ) m fun t b => (e.isAction = false → t.isSome) ∧ b.At loop brk Γ :=
  h.succeeds.mono fun t _ ht => ⟨hr t ht.1, ht.2⟩

theorem Sure.gives {m : Lower Ir.Temp} (h : Sure.Any k m) :
    Succeeds k (·.At loop brk Γ) (do return some (← m))
      fun t b => (e.isAction = false → t.isSome) ∧ b.At loop brk Γ :=
  h.wrapped.lowered fun _ ht _ => ht

end

end

/-! ## Expressions -/

/-- New instances of the given prototypes can be made anywhere. -/
def Makes (k : Context) (ni : String → Lower Ir.Temp) (protos : List String) : Prop :=
  ∀ proto ∈ protos, Sure.Any k (ni proto)

section

variable {k : Context} {ni : String → Lower Ir.Temp} {ps qs : List String}

theorem Makes.left (h : Makes k ni (ps ++ qs)) : Makes k ni ps :=
  fun proto hproto => h proto (List.mem_append_left _ hproto)

theorem Makes.right (h : Makes k ni (ps ++ qs)) : Makes k ni qs :=
  fun proto hproto => h proto (List.mem_append_right _ hproto)

variable {c : Analysis.Context} {Γ : TyEnv} {loop brk : Bool}

/-- What is no variable is a constant or a new instance. -/
theorem sure_emitTarget {x : String} {target : ValueTarget} {τ : Ty} (h : c.Global target τ)
    (hmakes : Makes k ni target.instances) : Sure.Any k (emitTarget ni x (some target)) := by
  cases h with
  | prototype _ => exact hmakes _ (List.mem_singleton_self _)
  | constant _ => exact sure_emitValue _

theorem lowerable_ident {n : Note} {x : String} {τ : Ty} (he : (Expr.ident n x).Typed c Γ τ)
    (hmakes : Makes k ni (Expr.ident n x).instances) : Lowerable k ni loop brk Γ (.ident n x) := by
  unfold Lowerable
  rw [lowerExpr?]
  have hvar : Succeeds k (·.At loop brk Γ) (varOf? x)
      fun v b => v = Frames.find? b.scopes x ∧ b.At loop brk Γ :=
    fun b hb => ⟨_, b, runs_varOf? x, rfl, hb⟩
  refine hvar.bind fun v b ⟨hv, hb⟩ => ?_
  cases v with
  | some var => exact (sure_emitValue _).gives b hb
  | none =>
      have hx := hb.names x
      rw [← hv] at hx
      cases he with
      | bound _ hτ =>
          rw [hτ] at hx
          cases hx
      | global _ _ hvalue hglobal =>
          rw [Expr.instances, hvalue] at hmakes
          rw [hvalue]
          exact (sure_emitTarget hglobal hmakes).gives b hb

theorem lowerable_unary {n : Note} {op : UnaryOp} {e : Expr} {τ : Ty} (hτ : e.Typed c Γ τ)
    (hvalue : e.isAction = false) (he : Lowerable k ni loop brk Γ e) :
    Lowerable k ni loop brk Γ (.unary n op e) := by
  unfold Lowerable
  rw [lowerExpr?, typeOf_eq hτ.type?, pure_bind]
  exact he.value hvalue fun _ => (sure_emitUnary _ _ _).gives

/-- The value of a logical operator whose right operand may not be computed is that of a variable. -/
theorem lowerable_binary {n : Note} {op : BinaryOp} {l r : Expr} {τ : Ty} (hτ : l.Typed c Γ τ)
    (hleft : l.isAction = false) (hl : Lowerable k ni loop brk Γ l) (hright : r.isAction = false)
    (hr : Lowerable k ni loop brk Γ r) : Lowerable k ni loop brk Γ (.binary n op l r) := by
  unfold Lowerable
  rw [lowerExpr?]
  split
  · refine hl.value hleft fun a => (sure_isTrivial r).before fun trivial => ?_
    cases trivial with
    | true => exact hr.value hright fun _ => (sure_emitValue _).gives
    | false =>
        exact (sure_startLogical op a).before fun _ => (sure_startBlock _).before fun _ =>
          hr.value hright fun _ => (sure_emit _).before fun _ => (sure_jump _).before fun _ =>
          (sure_startBlock _).before fun _ => (sure_emitValue _).gives
  · rw [typeOf_eq hτ.type?, pure_bind]
    exact hl.value hleft fun _ => hr.value hright fun _ => (sure_emitBinary _ _ _ _).gives

theorem lowerable_ternary {n : Note} {e x y : Expr} {τ : Ty} (hn : n.type? = some τ)
    (hcond : e.isAction = false) (he : Lowerable k ni loop brk Γ e) (hthen : x.isAction = false)
    (hx : Lowerable k ni loop brk Γ x) (helse : y.isAction = false) (hy : Lowerable k ni loop brk Γ y) :
    Lowerable k ni loop brk Γ (.ternary n e x y) := by
  unfold Lowerable
  rw [lowerExpr?, typeOf_eq (e := .ternary n e x y) hn, pure_bind]
  exact he.value hcond fun _ => (sure_declareJoin _).before fun _ =>
    (sure_freshLabel _).before fun _ => (sure_freshLabel _).before fun _ =>
    (sure_freshLabel _).before fun _ => (sure_endWith _).before fun _ =>
    (sure_startBlock _).before fun _ => hx.value hthen fun _ => (sure_emit _).before fun _ =>
    (sure_jump _).before fun _ => (sure_startBlock _).before fun _ => hy.value helse fun _ =>
    (sure_emit _).before fun _ => (sure_jump _).before fun _ => (sure_startBlock _).before fun _ =>
    (sure_emitValue _).gives

theorem lowerable_member {n : Note} {e : Expr} {name : String} {τ : Ty}
    (hτ : (Expr.member n e name).Typed c Γ τ) (hvalue : e.isAction = false)
    (hmakes : Makes k ni (Expr.member n e name).instances)
    (he : ∀ {σ}, e.Typed c Γ σ → Makes k ni e.instances → Lowerable k ni loop brk Γ e) :
    Lowerable k ni loop brk Γ (.member n e name) := by
  unfold Lowerable
  rw [lowerExpr?]
  rw [Expr.instances] at hmakes
  cases hτ with
  | constant _ _ _ hconst _ =>
      rw [hconst]
      exact (sure_emitValue _).gives
  | field _ hfield htyped _ =>
      rw [hfield] at hmakes ⊢
      exact (he htyped hmakes).value hvalue fun _ => (sure_emitValue _).gives

theorem lowerable_index {n : Note} {e i : Expr} {τ : Ty} (hτ : e.Typed c Γ τ)
    (hobject : e.isAction = false) (he : Lowerable k ni loop brk Γ e) (hposition : i.isAction = false)
    (hi : Lowerable k ni loop brk Γ i) : Lowerable k ni loop brk Γ (.index n e i) := by
  unfold Lowerable
  rw [lowerExpr?, typeOf_eq hτ.type?, pure_bind]
  exact he.value hobject fun _ => hi.value hposition fun _ => (sure_emit _).before fun _ =>
    (sure_emitValue _).gives

/-! ### Calls -/

/-- The expressions are lowered without fail, each to a value. -/
def AllLowerable (k : Context) (ni : String → Lower Ir.Temp) (loop brk : Bool) (Γ : TyEnv)
    (es : List Expr) : Prop :=
  Succeeds k (·.At loop brk Γ) (lowerExprs ni es) fun ts b => ts.length = es.length ∧ b.At loop brk Γ

/-- A call that is to give a value gives one. -/
theorem lowered_of_ret {e : Expr} {ret : Ty} {m : Lower (Option Ir.Temp)}
    (h : Sure k m fun t => ret ≠ .void → t.isSome) (he : e.isAction = (some ret == some .void)) :
    Succeeds k (·.At loop brk Γ) m fun t b => (e.isAction = false → t.isSome) ∧ b.At loop brk Γ :=
  h.lowered fun _ ht hvalue => ht (by simpa using he.symm.trans hvalue)

theorem lowerable_call {n : Note} {name : String} {args : List Expr} {τ : Ty}
    (hτ : (Expr.call n name args).Typed c Γ τ) (hmakes : Makes k ni (Expr.call n name args).instances)
    (hargs : ∀ {types}, List.Forall₂ (Expr.Typed c Γ) args types → Makes k ni (instancesOf args) →
      AllLowerable k ni loop brk Γ args) : Lowerable k ni loop brk Γ (.call n name args) := by
  have haction : (Expr.call n name args).isAction = (n.type? == some .void) := rfl
  unfold Lowerable
  rw [lowerExpr?]
  rw [Expr.instances] at hmakes
  cases hτ with
  | print hn hcall ha _ =>
      rw [callOf_eq hcall hn, pure_bind]
      rw [hcall] at hmakes
      rw [hn] at haction
      exact (hargs (.cons ha .nil) hmakes).bind_of fun ts _ => lowered_of_ret
        ((sure_prints ts).bind fun _ => sure_pure fun h => absurd rfl h) haction
  | @call _ _ callee _ _ hn hcall hcallee htypes _ =>
      rw [callOf_eq hcall hn, pure_bind]
      rw [hcall] at hmakes
      rw [hn] at haction
      have hplain : ∀ ts, Sure k (emitPlainCall n callee.target (!callee.ret.isVoid) ts) _ := fun ts =>
        sure_emitPlainCall hcallee ts
      cases hcallee <;> exact (hargs htypes hmakes).bind_of fun ts _ => lowered_of_ret (hplain ts) haction

section

variable {n : Note} {e : Expr} {method : String} {args : List Expr} (hvalue : e.isAction = false)
  (hmakes : Makes k ni (Expr.methodCall n e method args).instances)
  (he : ∀ {σ}, e.Typed c Γ σ → Makes k ni e.instances → Lowerable k ni loop brk Γ e)
  (hargs : ∀ {types}, List.Forall₂ (Expr.Typed c Γ) args types → Makes k ni (instancesOf args) →
    AllLowerable k ni loop brk Γ args)

include hvalue hmakes he hargs

/-- A method of an instance is called, or makes a copy. -/
theorem lowerable_ofInstance {proto : String} {info : MethodInfo} {types : List Ty}
    (hn : n.type? = some (Analysis.methodTarget c.hierarchy proto method info).2)
    (hcall : n.call? = some (Analysis.methodTarget c.hierarchy proto method info).1) {σ : Ty}
    (htyped : e.Typed c Γ σ) (htypes : List.Forall₂ (Expr.Typed c Γ) args types) :
    Lowerable k ni loop brk Γ (.methodCall n e method args) := by
  have haction : (Expr.methodCall n e method args).isAction = (n.type? == some .void) := rfl
  have hsome : e.type?.isSome := by rw [htyped.type?, Option.isSome_some]
  unfold Lowerable
  rw [lowerExpr?, callOf_eq hcall hn, pure_bind]
  rw [Expr.instances, hcall] at hmakes
  rw [hn] at haction
  rcases Analysis.methodTarget_cases c.hierarchy proto method info with hm | hm | ⟨hm, _⟩
  all_goals
    rw [hm] at haction hmakes ⊢
    dsimp only at haction hmakes ⊢
  · rw [needsReceiver, if_pos hsome] at hmakes
    rw [if_pos hsome]
    exact (he htyped hmakes.left).value hvalue fun _ => (hargs htypes hmakes.right).bind_of fun ts _ =>
      lowered_of_ret (sure_emitResult info.ret (.callForeign · info.owner method _ info.ret)) haction
  · exact (he htyped hmakes.left).value hvalue fun t => (sure_emitValue (.cloneObject · t proto)).gives
  · exact (he htyped hmakes.left).value hvalue fun t => (hargs htypes hmakes.right).bind_of fun ts _ =>
      lowered_of_ret (sure_emitResult info.ret (.callMethod · t proto method ts)) haction

/-- A method of a container or string has the arguments that it needs. -/
theorem lowerable_ofContainer {σ : Ty} {signature : ContainerSignature} {types : List Ty}
    (hn : n.type? = some signature.ret) (hcall : n.call? = some (.container signature.method))
    (hmethod : containerMethod? σ method = some signature) (htyped : e.Typed c Γ σ)
    (htypes : List.Forall₂ (Expr.Typed c Γ) args types) (hfit : c.hierarchy.Accepts types signature.params) :
    Lowerable k ni loop brk Γ (.methodCall n e method args) := by
  have haction : (Expr.methodCall n e method args).isAction = (n.type? == some .void) := rfl
  obtain ⟨key, elem, _, hsignature⟩ := signature_of_containerMethod? hmethod
  have hparams : signature.params = _ := congrArg Prod.fst hsignature
  have hret : signature.ret = _ := congrArg Prod.snd hsignature
  unfold Lowerable
  rw [lowerExpr?, callOf_eq hcall hn, pure_bind]
  rw [Expr.instances, hcall] at hmakes
  rw [hret] at hn
  refine (he htyped hmakes.left).value hvalue fun t => (hargs htypes hmakes.right).bind_of fun ts hts => ?_
  exact lowered_of_ret (sure_emitContainerCall hn t (by
    rw [hts, htypes.length_eq, hfit.length_eq, hparams])) (by rw [haction, hn])

theorem lowerable_methodCall {τ : Ty} (hτ : (Expr.methodCall n e method args).Typed c Γ τ) :
    Lowerable k ni loop brk Γ (.methodCall n e method args) := by
  have haction : (Expr.methodCall n e method args).isAction = (n.type? == some .void) := rfl
  cases hτ with
  | @moduleCall _ n' x module _ f _ _ hn hn' hcall _ _ _ htypes _ =>
      have hnone : ¬ (Expr.ident n' x).type?.isSome := by
        rw [show (Expr.ident n' x).type? = none from hn']
        exact Bool.false_ne_true
      unfold Lowerable
      rw [lowerExpr?, callOf_eq hcall hn, pure_bind]
      rw [Expr.instances, hcall] at hmakes
      rw [hn] at haction
      dsimp only
      rw [if_neg hnone]
      exact (hargs htypes hmakes.right).bind_of fun ts _ => lowered_of_ret
        (sure_emitResult f.ret (.callForeign · module method ts f.ret)) haction
  | @newInstance _ _ proto _ hn hcall _ _ =>
      unfold Lowerable
      rw [lowerExpr?, callOf_eq hcall hn, pure_bind]
      rw [Expr.instances, hcall] at hmakes
      exact (hmakes proto (List.mem_singleton_self _)).gives
  | methodCall hn hcall htyped hcallee htypes hfit =>
      cases hcallee with
      | ofContainer hs => exact lowerable_ofContainer hvalue hmakes he hargs hn hcall hs htyped htypes hfit
      | ofInstance _ => exact lowerable_ofInstance hvalue hmakes he hargs hn hcall htyped htypes

end

/-! ### Expressions as a whole -/

mutual

/-- An expression that obeys the rules is lowered without fail, if its operands have values and the new
instances it asks for can be made. -/
theorem lowerable_expr : (e : Expr) → {τ : Ty} → e.Typed c Γ τ → e.isValued →
    Makes k ni e.instances → Lowerable k ni loop brk Γ e
  | .literal n v, _, _, _, _ => by
      unfold Lowerable
      rw [lowerExpr?]
      exact (sure_emitValue _).gives
  | .ident n x, _, hτ, _, hmakes => lowerable_ident hτ hmakes
  | .self n, _, _, _, _ => by
      unfold Lowerable
      rw [lowerExpr?]
      exact (sure_emitValue _).gives
  | .unary n op e, _, hτ, hvalued, hmakes => by
      simp only [Expr.isValued, Bool.and_eq_true, Bool.not_eq_true'] at hvalued
      rw [Expr.instances] at hmakes
      cases hτ with
      | unary _ he _ => exact lowerable_unary he hvalued.1 (lowerable_expr e he hvalued.2 hmakes)
  | .binary n op l r, _, hτ, hvalued, hmakes => by
      simp only [Expr.isValued, Bool.and_eq_true, Bool.not_eq_true'] at hvalued
      rw [Expr.instances] at hmakes
      obtain ⟨hleft, hright⟩ := hvalued
      cases hτ with
      | binary _ hl hr _ =>
          exact lowerable_binary hl hleft.1 (lowerable_expr l hl hleft.2 hmakes.left) hright.1
            (lowerable_expr r hr hright.2 hmakes.right)
  | .ternary n e x y, _, hτ, hvalued, hmakes => by
      simp only [Expr.isValued, Bool.and_eq_true, Bool.not_eq_true'] at hvalued
      rw [Expr.instances] at hmakes
      obtain ⟨hcond, hthen, helse⟩ := hvalued
      cases hτ with
      | ternary hn he hx hy _ =>
          exact lowerable_ternary hn hcond.1 (lowerable_expr e he hcond.2 hmakes.left) hthen.1
            (lowerable_expr x hx hthen.2 hmakes.right.left) helse.1
            (lowerable_expr y hy helse.2 hmakes.right.right)
  | .call n name args, _, hτ, hvalued, hmakes => by
      rw [Expr.isValued] at hvalued
      exact lowerable_call hτ hmakes fun htypes => lowerable_exprs args htypes hvalued
  | .methodCall n e method args, _, hτ, hvalued, hmakes => by
      simp only [Expr.isValued, Bool.and_eq_true, Bool.not_eq_true'] at hvalued
      exact lowerable_methodCall hvalued.1.1 hmakes
        (fun htyped hmakes => lowerable_expr e htyped hvalued.1.2 hmakes)
        (fun htypes hmakes => lowerable_exprs args htypes hvalued.2 hmakes) hτ
  | .member n e name, _, hτ, hvalued, hmakes => by
      simp only [Expr.isValued, Bool.and_eq_true, Bool.not_eq_true'] at hvalued
      exact lowerable_member hτ hvalued.1 hmakes fun htyped hmakes =>
        lowerable_expr e htyped hvalued.2 hmakes
  | .index n e i, _, hτ, hvalued, hmakes => by
      simp only [Expr.isValued, Bool.and_eq_true, Bool.not_eq_true'] at hvalued
      rw [Expr.instances] at hmakes
      obtain ⟨hobject, hposition⟩ := hvalued
      cases hτ with
      | index _ he hi _ =>
          exact lowerable_index he hobject.1 (lowerable_expr e he hobject.2 hmakes.left) hposition.1
            (lowerable_expr i hi hposition.2 hmakes.right)
  | .cast n e ty, _, hτ, hvalued, hmakes => by
      simp only [Expr.isValued, Bool.and_eq_true, Bool.not_eq_true'] at hvalued
      rw [Expr.instances] at hmakes
      cases hτ with
      | cast _ he _ _ =>
          unfold Lowerable
          rw [lowerExpr?]
          exact (lowerable_expr e he hvalued.2 hmakes).value hvalued.1 fun _ => (sure_emitValue _).gives
  | .list n items, _, hτ, hvalued, hmakes => by
      rw [Expr.isValued] at hvalued
      rw [Expr.instances] at hmakes
      have hn := hτ.type?
      cases hτ with
      | list _ hitems _ =>
          unfold Lowerable
          rw [lowerExpr?, typeOf_eq hn, pure_bind]
          exact (lowerable_exprs items hitems hvalued hmakes).bind_of fun _ _ => (sure_emitValue _).gives
  | .map n entries, _, hτ, hvalued, hmakes => by
      rw [Expr.isValued] at hvalued
      rw [Expr.instances] at hmakes
      have hn := hτ.type?
      cases hτ with
      | map _ hkeys hvalues _ _ _ =>
          unfold Lowerable
          rw [lowerExpr?, typeOf_eq hn, pure_bind]
          exact (lowerable_entries entries hkeys hvalues hvalued hmakes).bind fun _ =>
            (sure_emitValue _).gives

theorem lowerable_exprs : (es : List Expr) → {types : List Ty} →
    List.Forall₂ (Expr.Typed c Γ) es types → allValued es → Makes k ni (instancesOf es) →
    AllLowerable k ni loop brk Γ es
  | [], _, _, _, _ => by
      unfold AllLowerable
      rw [lowerExprs]
      exact succeeds_pure fun b hb => ⟨rfl, hb⟩
  | e :: rest, _, .cons he hrest, hvalued, hmakes => by
      simp only [allValued, Bool.and_eq_true, Bool.not_eq_true'] at hvalued
      rw [instancesOf] at hmakes
      unfold AllLowerable
      rw [lowerExprs]
      exact (lowerable_expr e he hvalued.1.2 hmakes.left).value hvalued.1.1 fun t =>
        (lowerable_exprs rest hrest hvalued.2 hmakes.right).bind_of fun ts hts =>
        succeeds_pure fun b hb => ⟨by rw [List.length_cons, hts, List.length_cons], hb⟩

theorem lowerable_entries : (entries : List (Expr × Expr)) →
    {keys values : List Ty} → List.Forall₂ (Expr.Typed c Γ) (entries.map Prod.fst) keys →
    List.Forall₂ (Expr.Typed c Γ) (entries.map Prod.snd) values → entriesValued entries →
    Makes k ni (instancesOfEntries entries) →
    Succeeds k (·.At loop brk Γ) (lowerEntries ni entries) fun _ b => b.At loop brk Γ
  | [], _, _, _, _, _, _ => by
      rw [lowerEntries]
      exact succeeds_pure fun b hb => hb
  | (key, value) :: rest, _, _, .cons hk hkeys, .cons hv hvalues, hvalued, hmakes => by
      simp only [entriesValued, Bool.and_eq_true, Bool.not_eq_true'] at hvalued
      rw [instancesOfEntries] at hmakes
      obtain ⟨hkey, hvalue, hrest⟩ := hvalued
      rw [lowerEntries]
      exact (lowerable_expr key hk hkey.2 hmakes.left).value hkey.1 fun a =>
        (lowerable_expr value hv hvalue.2 hmakes.right.left).value hvalue.1 fun b =>
        (lowerable_entries rest hkeys hvalues hrest hmakes.right.right).bind fun _ =>
        succeeds_pure fun b hb => hb

end

end

end Lowering

end ProtoScript
