import ProtoScript.Proofs.Analysis.Rules
import ProtoScript.Proofs.C.Inferred
import ProtoScript.Proofs.Lowering.Relates

set_option autoImplicit false

/-!
# The type of a value

An expression is given a type twice: when it is checked, from what is around it and from its parts, and when
C is generated, from the instruction that defines its value. Both are the same type (`reaches_expr`), if the
module has what was known when the expression was checked (`Knows`), the types of instructions and variables
have been found (`Infers`), and names stand for variables of the types they had (`Named`).

The proof is an induction over the expression, with one lemma for each form. What an instruction defines has
the type of the instruction, so a lemma only has to say which instruction the value comes from, and for an
operator or an element that the type of the operand is known.
-/

namespace ProtoScript

theorem BinaryOp.isComparison_of_isEquality {op : BinaryOp} (h : op.isEquality) : op.isComparison := by
  cases op <;> first | rfl | cases h

namespace C

open Ir Lowering

/-- Types were found for a function: each temporary has the type of its instruction, and each variable the one
it is declared with. -/
structure Infers (m : Module) (F : Function) (T : FunctionTypes) : Prop where
  temp : ∀ {i t}, i ∈ F.instrs → i.dest? = some t →
    (∀ iterable kind elem, i ≠ .iterBegin t iterable kind elem) →
    ∃ ty, T.temp? t = some ty ∧ resultType? m F.name T i = .ok (some ty)
  var : ∀ {name ty}, F.Declares name ty → T.var? name = some ty

/-- The module has what the checker has found at the top of the program. -/
structure Knows (c : Analysis.Context) (m : Module) : Prop where
  function : ∀ {name f}, c.function? name = some f → ∃ g, function? m name = some g ∧ g.ret = f.ret
  field : ∀ {proto name f}, c.hierarchy.field? proto name = some f → fieldType m proto name = .ok f.ty
  method : ∀ {proto name info}, c.hierarchy.method? proto name = some info →
    (∀ q, c.hierarchy.get? info.owner = some q → q.isBuiltin → q.isSealed = false) →
    ∃ body, methodBody m proto name = .ok body ∧ body.ret = info.ret
  constant : ∀ {v τ}, c.Constant v τ → v.ty = τ

/-- A name stands for a variable of the function exactly if it has a type, and the variable has the type. -/
def Named (F : Function) (Γ : TyEnv) (scopes : Frames String) : Prop :=
  ∀ x, Option.Rel (fun τ y => F.Declares y τ) (Frames.find? Γ x) (Frames.find? scopes x)

section

variable {m : Module} {F : Function} {T : FunctionTypes} (hT : Infers m F T) {k : Lowering.Context}
  {b b' : Builder} {t : Temp}

include hT

/-! ## Single operations -/

/-- What an instruction defines has the type of the instruction. -/
theorem Infers.value {make : Temp → Instr} (hdest : ∀ t, (make t).dest? = some t)
    (hloop : ∀ t iterable kind elem, make t ≠ .iterBegin t iterable kind elem)
    (h : Runs k (emitValue make) b t b') (hF : b'.instrs ⊆ F.instrs) {ty? : Option Ty}
    (hty : resultType? m F.name T (make t) = .ok ty?) : T.temp? t = ty? := by
  cases h
  obtain ⟨ty, htemp, hresult⟩ := hT.temp (hF (Builder.mem_instrs_emit _ _)) (hdest _) (hloop _)
  rw [htemp]
  exact Except.ok.inj (hresult.symm.trans hty)

theorem Infers.load {name : String} {τ : Ty} (h : Runs k (emitValue (.loadVar · name)) b t b')
    (hF : b'.instrs ⊆ F.instrs) (hdeclares : F.Declares name τ) : T.temp? t = some τ := by
  refine hT.value (fun _ => rfl) (by nofun) h hF ?_
  rw [resultType?, hT.var hdeclares]

/-- What a call defines has the type of the call. -/
theorem Infers.result {make : Option Temp → Instr} (hdest : ∀ t, (make (some t)).dest? = some t)
    (hloop : ∀ t iterable kind elem, make (some t) ≠ .iterBegin t iterable kind elem) {hasResult : Bool}
    (h : Runs k (emitResult hasResult make) b (some t) b') (hF : b'.instrs ⊆ F.instrs) {ty? : Option Ty}
    (hty : resultType? m F.name T (make (some t)) = .ok ty?) : T.temp? t = ty? := by
  unfold emitResult at h
  cases hasResult with
  | true => exact hT.value hdest hloop h.of_some hF hty
  | false =>
      obtain ⟨_, _, _, h⟩ := h.of_bind
      cases h

omit hT in
/-- The variable in which values meet has the type it is declared with. -/
theorem declares_of_declareJoin {ty : Ty} {joined : String} (h : Runs k (declareJoin ty) b joined b')
    (hF : b'.instrs ⊆ F.instrs) : F.Declares joined ty := by
  cases h
  exact .inr (hF (Builder.mem_instrs_emit _ _))

theorem Infers.new {depth : Nat} {proto : String} (h : Runs k (newInstance depth proto) b t b')
    (hF : b'.instrs ⊆ F.instrs) : T.temp? t = some (.named proto) := by
  cases depth with
  | zero => cases h
  | succ depth =>
      rw [Lowering.newInstance] at h
      obtain ⟨t', b₁, hnew, h⟩ := h.of_bind
      obtain ⟨_, b₂, hread, h⟩ := h.of_bind
      cases hread
      dsimp only at h
      obtain ⟨_, b₃, hinit, h⟩ := h.of_bind
      cases h
      have hcontinues := relates_initFields writing_continues (relates_newInstance writing_continues depth)
        _ _ _ _ _ _ _ hinit
      exact hT.value (fun _ => rfl) (by nofun) hnew (List.Subset.trans hcontinues.instrs hF) rfl

theorem Infers.unary {op : UnaryOp} {operand : Temp} {ty : Ty} (h : Runs k (emitUnary op operand ty) b t b')
    (hF : b'.instrs ⊆ F.instrs) : T.temp? t = T.temp? operand := by
  have hvalue : ∀ {b₁}, Runs k (emitValue (.unary · op operand)) b₁ t b' →
      T.temp? t = T.temp? operand := fun h => hT.value (fun _ => rfl) (by nofun) h hF rfl
  unfold emitUnary at h
  dsimp only at h
  split at h
  · obtain ⟨_, _, _, h⟩ := h.of_bind
    exact hvalue h
  · exact hvalue h

theorem Infers.binary {op : BinaryOp} {left right : Temp} {ty : Ty}
    (h : Runs k (emitBinary op left right ty) b t b') (hF : b'.instrs ⊆ F.instrs) :
    T.temp? t = if op.isComparison || op.isLogical then some .bool else T.temp? left := by
  have hvalue : ∀ {b₁}, Runs k (emitValue (.binary · op left right)) b₁ t b' →
      T.temp? t = if op.isComparison || op.isLogical then some .bool else T.temp? left := by
    intro b₁ h
    refine hT.value (fun _ => rfl) (by nofun) h hF ?_
    unfold resultType?
    dsimp only
    split <;> rfl
  unfold emitBinary at h
  dsimp only at h
  split at h
  · obtain ⟨_, _, _, h⟩ := h.of_bind
    exact hvalue h
  · exact hvalue h

/-- Behind branches that meet, the value is that of the variable in which they meet. -/
theorem Infers.join {joined done : String} {last : Temp} (h : Runs k (do
      emit (.storeVar joined last)
      jump done
      startBlock done
      return some (← emitValue (.loadVar · joined))) b (some t) b') (hF : b'.instrs ⊆ F.instrs) :
    b.Continues b' ∧ ∀ τ, F.Declares joined τ → T.temp? t = some τ := by
  have hW := writing_continues
  have hcontinues := ((relates_emit hW _).bind hW fun _ => (relates_jump hW _).bind hW fun _ =>
    (relates_startBlock hW _).bind hW fun _ => (relates_emitValue hW _).bind hW fun _ =>
    relates_pure hW _) _ _ _ _ h
  obtain ⟨_, b₁, _, h⟩ := h.of_bind
  obtain ⟨_, b₂, _, h⟩ := h.of_bind
  obtain ⟨_, b₃, _, h⟩ := h.of_bind
  exact ⟨hcontinues, fun τ hdeclares => hT.load h.of_some hF hdeclares⟩

omit hT in
theorem declares_of_startLogical {op : BinaryOp} {left : Temp} {r : String × String × String}
    (h : Runs k (startLogical op left) b r b') (hF : b'.instrs ⊆ F.instrs) : F.Declares r.1 .bool := by
  have hW := writing_continues
  obtain ⟨joined, b₁, hjoin, h⟩ := h.of_bind
  have hcontinues := ((relates_emit hW _).bind hW fun _ => (relates_freshLabel hW _).bind hW fun _ =>
    (relates_freshLabel hW _).bind hW fun _ => (relates_endWith hW _).bind hW fun _ =>
    relates_pure hW _) _ _ _ _ h
  have hjoined := declares_of_declareJoin hjoin (List.Subset.trans hcontinues.instrs hF)
  obtain ⟨_, _, _, h⟩ := h.of_bind
  obtain ⟨_, _, _, h⟩ := h.of_bind
  obtain ⟨_, _, _, h⟩ := h.of_bind
  obtain ⟨_, _, _, h⟩ := h.of_bind
  cases h
  exact hjoined

omit hT in
theorem declares_of_openTernaryElse {depth : Nat} {n : Note} {e x y : Expr} {r : String × String} {τ : Ty}
    (hn : n.type? = some τ) (h : Runs k (openTernaryElse (newInstance depth) n e x y) b r b')
    (hF : b'.instrs ⊆ F.instrs) : F.Declares r.1 τ := by
  have hW := writing_continues
  have hexpr := relates_lowerExpr hW (relates_newInstance hW depth)
  obtain ⟨⟨joined, elseLabel, done⟩, b₁, hopen, h⟩ := h.of_bind
  have hclose := ((hexpr x).bind hW fun _ => (relates_emit hW _).bind hW fun _ =>
    (relates_jump hW _).bind hW fun _ => (relates_startBlock hW _).bind hW fun _ =>
    relates_pure hW _) _ _ _ _ h
  obtain ⟨ty, hty, hopen⟩ := hopen.of_typeOf
  cases hn.symm.trans hty
  obtain ⟨_, b₂, _, hopen⟩ := hopen.of_bind
  obtain ⟨joined', b₃, hjoin, hopen⟩ := hopen.of_bind
  have hstart := ((relates_freshLabel hW _).bind hW fun _ => (relates_freshLabel hW _).bind hW fun _ =>
    (relates_freshLabel hW _).bind hW fun _ => (relates_endWith hW _).bind hW fun _ =>
    (relates_startBlock hW _).bind hW fun _ => relates_pure hW _) _ _ _ _ hopen
  have hjoined := declares_of_declareJoin hjoin
    (List.Subset.trans (hstart.trans hclose).instrs hF)
  obtain ⟨_, _, _, hopen⟩ := hopen.of_bind
  obtain ⟨_, _, _, hopen⟩ := hopen.of_bind
  obtain ⟨_, _, _, hopen⟩ := hopen.of_bind
  obtain ⟨_, _, _, hopen⟩ := hopen.of_bind
  obtain ⟨_, _, _, hopen⟩ := hopen.of_bind
  cases hopen
  obtain ⟨_, _, _, h⟩ := h.of_bind
  obtain ⟨_, _, _, h⟩ := h.of_bind
  obtain ⟨_, _, _, h⟩ := h.of_bind
  obtain ⟨_, _, _, h⟩ := h.of_bind
  cases h
  exact hjoined

end

/-! ## Expressions -/

/-- Wherever the expression is lowered in the function, the type noted for it is that of its value. -/
def Reaches (c : Analysis.Context) (Γ : TyEnv) (F : Function) (T : FunctionTypes) (k : Lowering.Context)
    (depth : Nat) (e : Expr) : Prop :=
  ∀ {τ : Ty} {b b' : Builder} {t : Temp}, e.Typed c Γ τ →
    Runs k (lowerExpr? (newInstance depth) e) b (some t) b' → b'.instrs ⊆ F.instrs → Named F Γ b.scopes →
    T.temp? t = some τ

section

variable {c : Analysis.Context} {Γ : TyEnv} {m : Module} {F : Function} {T : FunctionTypes}
  {k : Lowering.Context} {depth : Nat}

theorem continues_lowerExpr? {e : Expr} {r : Option Temp} {b b' : Builder}
    (h : Runs k (lowerExpr? (newInstance depth) e) b r b') : b.Continues b' :=
  relates_lowerExpr? writing_continues (relates_newInstance writing_continues depth) e k b r b' h

theorem continues_lowerExprs {es : List Expr} {ts : List Temp} {b b' : Builder}
    (h : Runs k (lowerExprs (newInstance depth) es) b ts b') : b.Continues b' :=
  relates_lowerExprs writing_continues (relates_newInstance writing_continues depth) es k b ts b' h

theorem Named.continues {b b' : Builder} (h : Named F Γ b.scopes) (hb : b.Continues b') :
    Named F Γ b'.scopes := by
  rw [hb.scopes]
  exact h

theorem ty_literalConstant {v : Literal} {τ : Ty} (h : v.CanBe τ) : (literalConstant (some τ) v).ty = τ := by
  rcases h with rfl | ⟨rfl, i, rfl, _⟩
  · cases v <;> rfl
  · rfl

variable (hT : Infers m F T)

include hT

theorem reaches_literal {n : Note} {v : Literal} : Reaches c Γ F T k depth (.literal n v) := by
  intro τ b b' t he h hF _
  cases he with
  | literal hn hv =>
      rw [lowerExpr?, hn] at h
      refine hT.value (fun _ => rfl) (by nofun) h.of_some hF ?_
      rw [resultType?, ty_literalConstant hv]

theorem reaches_unary {n : Note} {op : UnaryOp} {e : Expr} (he : Reaches c Γ F T k depth e) :
    Reaches c Γ F T k depth (.unary n op e) := by
  intro τ b b' t htyped h hF hnames
  cases htyped with
  | unary _ htyped _ =>
      rw [lowerExpr?] at h
      obtain ⟨ty, _, h⟩ := h.of_typeOf
      obtain ⟨t₁, b₁, h₁, h⟩ := h.of_value
      have hcontinues := relates_emitUnary writing_continues _ _ _ _ _ _ _ h.of_some
      rw [hT.unary h.of_some hF]
      exact he htyped h₁ (List.Subset.trans hcontinues.instrs hF) hnames

/-- The value of a logical operator is one of the operands, where the right one can be computed in any case,
or that of a variable. -/
theorem reaches_binary {n : Note} {op : BinaryOp} {l r : Expr} (hl : Reaches c Γ F T k depth l)
    (hr : Reaches c Γ F T k depth r) : Reaches c Γ F T k depth (.binary n op l r) := by
  intro τ b b' t htyped h hF hnames
  cases htyped with
  | binary _ hleft hright hop =>
      rw [lowerExpr?] at h
      split at h
      case isTrue hlogical =>
        rw [BinaryOp.Gives, if_pos hlogical] at hop
        obtain ⟨rfl, rfl, rfl⟩ := hop
        obtain ⟨t₁, b₁, h₁, h⟩ := h.of_value
        obtain ⟨trivial, b₂, htrivial, h⟩ := h.of_bind
        have hb₂ := relates_isTrivial writing_continues _ _ _ _ _ htrivial
        cases trivial with
        | true =>
            obtain ⟨t₂, b₃, h₂, h⟩ := h.of_value
            have hvalue := h.of_some
            have hb' := relates_emitValue writing_continues _ _ _ _ _ hvalue
            have hF₃ := List.Subset.trans hb'.instrs hF
            have hb₃ := hb₂.trans (continues_lowerExpr? h₂)
            have hleft := hl hleft h₁ (List.Subset.trans hb₃.instrs hF₃) hnames
            have hright := hr hright h₂ hF₃
              ((hnames.continues (continues_lowerExpr? h₁)).continues hb₂)
            by_cases hand : op = .and
            · simp only [if_pos hand] at hvalue
              exact (hT.value (fun _ => rfl) (by nofun) hvalue hF rfl).trans hright
            · simp only [if_neg hand] at hvalue
              exact (hT.value (fun _ => rfl) (by nofun) hvalue hF rfl).trans hleft
        | false =>
            obtain ⟨r, b₃, hstart, h⟩ := h.of_bind
            obtain ⟨_, b₄, hblock, h⟩ := h.of_bind
            obtain ⟨t₂, b₅, h₂, h⟩ := h.of_value
            obtain ⟨hjoin, htemp⟩ := hT.join h hF
            have hb₃ := (relates_startBlock writing_continues _ _ _ _ _ hblock).trans
              ((continues_lowerExpr? h₂).trans hjoin)
            exact htemp _ (declares_of_startLogical hstart (List.Subset.trans hb₃.instrs hF))
      case isFalse hlogical =>
        obtain ⟨ty, _, h⟩ := h.of_typeOf
        obtain ⟨t₁, b₁, h₁, h⟩ := h.of_value
        obtain ⟨t₂, b₂, h₂, h⟩ := h.of_value
        have hvalue := h.of_some
        rw [BinaryOp.Gives, if_neg hlogical] at hop
        rw [hT.binary hvalue hF]
        have hb' := (continues_lowerExpr? h₂).trans
          (relates_emitBinary writing_continues _ _ _ _ _ _ _ _ hvalue)
        have htemp := hl hleft h₁ (List.Subset.trans hb'.instrs hF) hnames
        rcases hop with ⟨_, _, rfl⟩ | ⟨hequality, _, rfl⟩
        · rw [htemp, eq_false_of_ne_true hlogical, Bool.or_false, BinaryOp.resultTy]
          split <;> rfl
        · rw [op.isComparison_of_isEquality hequality, Bool.true_or, if_pos rfl]

theorem reaches_ternary {n : Note} {e x y : Expr} : Reaches c Γ F T k depth (.ternary n e x y) := by
  intro τ b b' t htyped h hF _
  have hn := htyped.type?
  rw [lowerExpr?_ternary] at h
  obtain ⟨r, b₁, hopen, h⟩ := h.of_bind
  obtain ⟨t₂, b₂, h₂, h⟩ := h.of_bind
  obtain ⟨hjoin, htemp⟩ := hT.join h hF
  have hy := relates_lowerExpr writing_continues (relates_newInstance writing_continues depth) y _ _ _ _ h₂
  exact htemp _ (declares_of_openTernaryElse hn hopen (List.Subset.trans (hy.trans hjoin).instrs hF))

theorem reaches_cast {n : Note} {e : Expr} {target : Ty} : Reaches c Γ F T k depth (.cast n e target) := by
  intro τ b b' t htyped h hF _
  cases htyped with
  | cast _ _ _ _ =>
      rw [lowerExpr?] at h
      obtain ⟨t₁, b₁, _, h⟩ := h.of_value
      exact hT.value (fun _ => rfl) (by nofun) h.of_some hF rfl

theorem reaches_list {n : Note} {items : List Expr} : Reaches c Γ F T k depth (.list n items) := by
  intro τ b b' t htyped h hF _
  have hn := htyped.type?
  cases htyped with
  | list _ _ _ =>
      rw [lowerExpr?] at h
      obtain ⟨ty, hty, h⟩ := h.of_typeOf
      obtain ⟨ts, b₁, _, h⟩ := h.of_bind
      cases hn.symm.trans hty
      exact hT.value (fun _ => rfl) (by nofun) h.of_some hF rfl

theorem reaches_map {n : Note} {entries : List (Expr × Expr)} :
    Reaches c Γ F T k depth (.map n entries) := by
  intro τ b b' t htyped h hF _
  have hn := htyped.type?
  cases htyped with
  | map _ _ _ _ _ _ =>
      rw [lowerExpr?] at h
      obtain ⟨ty, hty, h⟩ := h.of_typeOf
      obtain ⟨ts, b₁, _, h⟩ := h.of_bind
      cases hn.symm.trans hty
      exact hT.value (fun _ => rfl) (by nofun) h.of_some hF rfl

theorem reaches_index {n : Note} {e i : Expr} (he : Reaches c Γ F T k depth e) :
    Reaches c Γ F T k depth (.index n e i) := by
  intro τ b b' t htyped h hF hnames
  cases htyped with
  | index _ hobject _ helement =>
      rw [lowerExpr?] at h
      obtain ⟨ty, _, h⟩ := h.of_typeOf
      obtain ⟨t₁, b₁, h₁, h⟩ := h.of_value
      obtain ⟨t₂, b₂, h₂, h⟩ := h.of_value
      obtain ⟨_, b₃, hcheck, h⟩ := h.of_bind
      have hb' := (continues_lowerExpr? h₂).trans ((relates_emit writing_continues _ _ _ _ _ hcheck).trans
        (relates_emitValue writing_continues _ _ _ _ _ h.of_some))
      have htemp := he hobject h₁ (List.Subset.trans hb'.instrs hF) hnames
      refine (hT.value (fun _ => rfl) (by nofun) h.of_some hF rfl).trans ?_
      rw [htemp]
      cases helement with
      | ofMap => rfl
      | ofSequence _ helem => exact helem

variable (hK : Knows c m) (hself : ∀ proto, c.proto? = some proto → F.Declares "self" (.named proto))

include hself in
theorem reaches_self {n : Note} : Reaches c Γ F T k depth (.self n) := by
  intro τ b b' t htyped h hF _
  cases htyped with
  | self _ hproto =>
      rw [lowerExpr?] at h
      exact hT.load h.of_some hF (hself _ hproto)

include hK

/-- What is no variable is a constant or a new instance. -/
theorem Infers.target {name : String} {target : ValueTarget} {τ : Ty} {b b' : Builder} {t : Temp}
    (h : Runs k (emitTarget (newInstance depth) name (some target)) b t b') (hF : b'.instrs ⊆ F.instrs)
    (htarget : c.Global target τ) : T.temp? t = some τ := by
  cases htarget with
  | prototype _ => exact hT.new h hF
  | constant hv =>
      refine hT.value (fun _ => rfl) (by nofun) h hF ?_
      rw [resultType?, hK.constant hv]

theorem reaches_ident {n : Note} {x : String} : Reaches c Γ F T k depth (.ident n x) := by
  intro τ b b' t htyped h hF hnames
  rw [lowerExpr?] at h
  obtain ⟨y?, b₁, hy, h⟩ := h.of_bind
  have heq := (runs_varOf? x).symm.trans hy
  cases heq
  have hx := hnames x
  cases htyped with
  | bound _ hτ =>
      rw [hτ] at hx
      cases hfind : Frames.find? b.scopes x with
      | none =>
          rw [hfind] at hx
          cases hx
      | some y =>
          rw [hfind] at hx h
          cases hx with
          | some hdeclares => exact hT.load h.of_some hF hdeclares
  | global _ hnone hvalue hglobal =>
      rw [hnone] at hx
      cases hfind : Frames.find? b.scopes x with
      | some y =>
          rw [hfind] at hx
          cases hx
      | none =>
          rw [hfind, hvalue] at h
          exact hT.target hK h.of_some hF hglobal

theorem reaches_member {n : Note} {e : Expr} {name : String} :
    Reaches c Γ F T k depth (.member n e name) := by
  intro τ b b' t htyped h hF _
  rw [lowerExpr?] at h
  cases htyped with
  | constant _ _ _ hvalue hv =>
      rw [hvalue] at h
      refine hT.value (fun _ => rfl) (by rintro _ _ _ _ ⟨⟩) h.of_some hF ?_
      rw [resultType?, hK.constant hv]
  | field _ hvalue _ hf =>
      rw [hvalue] at h
      obtain ⟨t₁, b₁, _, h⟩ := h.of_value
      refine hT.value (fun _ => rfl) (by rintro _ _ _ _ ⟨⟩) h.of_some hF ?_
      rw [resultType?, hK.field hf]
      rfl

/-! ## Calls -/

omit hK in
theorem Infers.foreign {n : Note} {module name : String} {ret : Ty} {hasResult : Bool} {args : List Temp}
    {b b' : Builder} {t : Temp}
    (h : Runs k (emitPlainCall n (.foreign module name ret) hasResult args) b (some t) b')
    (hF : b'.instrs ⊆ F.instrs) : T.temp? t = some ret := by
  have h : Runs k (emitResult (!ret.isVoid) (.callForeign · module name args ret)) b (some t) b' := h
  exact hT.result (fun _ => rfl) (by nofun) h hF rfl

/-- The value of a call that takes no receiver is of the type that the checker has found for it. -/
theorem Infers.plainCall {n : Note} {name : String} {callee : Analysis.Callee} {hasResult : Bool}
    {args : List Temp} {b b' : Builder} {t : Temp}
    (h : Runs k (emitPlainCall n callee.target hasResult args) b (some t) b')
    (hF : b'.instrs ⊆ F.instrs) (hcallee : c.Function name callee) : T.temp? t = some callee.ret := by
  cases hcallee with
  | declared hf =>
      have h : Runs k (emitResult hasResult (.callStatic · name args)) b (some t) b' := h
      obtain ⟨g, hg, hret⟩ := hK.function hf
      refine hT.result (fun _ => rfl) (by nofun) h hF ?_
      rw [resultType?, hg, ← hret]
  | imported _ _ => exact hT.foreign h hF

theorem reaches_call {n : Note} {name : String} {args : List Expr} :
    Reaches c Γ F T k depth (.call n name args) := by
  intro τ b b' t htyped h hF _
  rw [lowerExpr?] at h
  obtain ⟨target, ty, hcall, _, h⟩ := h.of_callOf
  cases htyped with
  | print _ hprint _ _ =>
      cases hcall.symm.trans hprint
      obtain ⟨ts, b₁, _, h⟩ := h.of_bind
      obtain ⟨_, b₂, _, h⟩ := h.of_bind
      cases h
  | @call _ _ callee _ _ _ hcall' hcallee _ _ =>
      cases hcall.symm.trans hcall'
      have hplain : ∃ b₁ ts, Runs k (emitPlainCall n callee.target (!ty.isVoid) ts) b₁ (some t) b' := by
        cases hcallee <;> obtain ⟨ts, b₁, _, h⟩ := h.of_bind <;> exact ⟨b₁, ts, h⟩
      obtain ⟨b₁, ts, hplain⟩ := hplain
      exact hT.plainCall hK hplain hF hcallee

omit hK in
/-- The value of a method of a container or string is of the type in its signature. -/
theorem Infers.containerCall {n : Note} {σ : Ty} {method : String} {s : ContainerSignature}
    (hn : n.type? = some s.ret) (hs : containerMethod? σ method = some s) {object : Temp} {args : List Temp}
    {b b' : Builder} {t : Temp} (h : Runs k (emitContainerCall n s.method object args) b (some t) b')
    (hF : b'.instrs ⊆ F.instrs) (hobject : T.temp? object = some σ) : T.temp? t = some s.ret := by
  obtain ⟨key, elem, helem, hsignature⟩ := signature_of_containerMethod? hs
  have hret : s.ret = (s.method.signature key elem).2 := congrArg Prod.snd hsignature
  rw [hret] at hn ⊢
  generalize s.method = method at h hn ⊢
  unfold emitContainerCall at h
  split at h
  case h_2 =>
    refine (hT.value (fun _ => rfl) (by nofun) h.of_some hF rfl).trans ?_
    rw [hobject]
    exact helem
  case h_3 => exact hT.value (fun _ => rfl) (by nofun) h.of_some hF rfl
  case h_4 =>
    rw [hn] at h
    exact hT.value (fun _ => rfl) (by nofun) h.of_some hF rfl
  case h_5 =>
    rw [hn] at h
    exact hT.value (fun _ => rfl) (by nofun) h.of_some hF rfl
  case h_7 => exact hT.value (fun _ => rfl) (by nofun) h.of_some hF rfl
  case h_9 => cases h
  -- The other methods have no result.
  all_goals
    obtain ⟨_, _, _, h⟩ := h.of_bind
    cases h

/-- A method of an instance that is carried out by a call has the body that the module has for it. -/
theorem Infers.methodCall {n : Note} {proto method : String} {info : MethodInfo} {replaced hasResult : Bool}
    (hinfo : c.hierarchy.method? proto method = some info)
    (hopen : ∀ q, c.hierarchy.get? info.owner = some q → q.isBuiltin → q.isSealed = false)
    {receiver : Temp} {args : List Temp} {b b' : Builder} {t : Temp}
    (h : Runs k (Lowering.emitMethodCall n (.method proto method replaced) hasResult receiver args) b (some t)
      b') (hF : b'.instrs ⊆ F.instrs) : T.temp? t = some info.ret := by
  obtain ⟨body, hbody, hret⟩ := hK.method hinfo hopen
  have h : Runs k (emitResult hasResult (.callMethod · receiver proto method args)) b (some t) b' := h
  refine hT.result (fun _ => rfl) (by nofun) h hF ?_
  rw [resultType?, hbody, ← hret]
  rfl

theorem reaches_methodCall {n : Note} {e : Expr} {method : String} {args : List Expr}
    (he : Reaches c Γ F T k depth e) : Reaches c Γ F T k depth (.methodCall n e method args) := by
  intro τ b b' t htyped h hF hnames
  rw [lowerExpr?] at h
  obtain ⟨target, ty, hcall, hty, h⟩ := h.of_callOf
  cases htyped with
  | @moduleCall _ n' x _ _ _ _ _ _ hnone hcall' _ _ _ _ _ =>
      cases hcall.symm.trans hcall'
      have hnone : ¬ (Expr.ident n' x).type?.isSome := by
        rw [show (Expr.ident n' x).type? = none from hnone]
        exact Bool.false_ne_true
      dsimp only at h
      rw [if_neg hnone] at h
      obtain ⟨ts, b₁, _, h⟩ := h.of_bind
      exact hT.foreign h hF
  | newInstance _ hcall' _ _ =>
      cases hcall.symm.trans hcall'
      exact hT.new h.of_some hF
  | methodCall hn hcall' hreceiver hcallee _ _ =>
      have htarget := hcall.symm.trans hcall'
      cases hcallee with
      | ofContainer hs =>
          cases htarget
          obtain ⟨t₁, b₁, h₁, h⟩ := h.of_value
          obtain ⟨ts, b₂, hargs, h⟩ := h.of_bind
          have hb' := (continues_lowerExprs hargs).trans
            (relates_emitContainerCall writing_continues _ _ _ _ _ _ _ _ h)
          exact hT.containerCall hn hs h hF
            (he hreceiver h₁ (List.Subset.trans hb'.instrs hF) hnames)
      | @ofInstance proto _ info hinfo =>
          rcases Analysis.methodTarget_cases c.hierarchy proto method info with hm | hm | ⟨hm, hopen⟩
          all_goals
            rw [hm] at htarget ⊢
            cases htarget
          · have hsome : e.type?.isSome := Option.isSome_of_eq_some hreceiver.type?
            dsimp only at h
            rw [if_pos hsome] at h
            obtain ⟨t₁, b₁, _, h⟩ := h.of_value
            obtain ⟨ts, b₂, _, h⟩ := h.of_bind
            exact hT.foreign h hF
          · obtain ⟨t₁, b₁, _, h⟩ := h.of_value
            have h := Runs.of_some (m := emitValue (.cloneObject · t₁ proto)) h
            exact hT.value (fun _ => rfl) (by nofun) h hF rfl
          · obtain ⟨t₁, b₁, _, h⟩ := h.of_value
            obtain ⟨ts, b₂, _, h⟩ := h.of_bind
            exact hT.methodCall hK hinfo hopen h hF

include hself

/-- The type noted for an expression is that of its value, wherever the expression is lowered. -/
theorem reaches_expr : (e : Expr) → Reaches c Γ F T k depth e
  | .self _ => reaches_self hT hself
  | .literal _ _ => reaches_literal hT
  | .ident _ _ => reaches_ident hT hK
  | .unary _ _ e => reaches_unary hT (reaches_expr e)
  | .binary _ _ l r => reaches_binary hT (reaches_expr l) (reaches_expr r)
  | .ternary _ _ _ _ => reaches_ternary hT
  | .call _ _ _ => reaches_call hT hK
  | .methodCall _ e _ _ => reaches_methodCall hT hK (reaches_expr e)
  | .member _ _ _ => reaches_member hT hK
  | .index _ e _ => reaches_index hT (reaches_expr e)
  | .cast _ _ _ => reaches_cast hT
  | .list _ _ => reaches_list hT
  | .map _ _ => reaches_map hT

end

end C

end ProtoScript
