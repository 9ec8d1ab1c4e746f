import ProtoScript.Proofs.Lowering.Moves
import ProtoScript.Proofs.Lowering.Steps

set_option autoImplicit false

/-!
# Relations along expressions

An expression is written in small steps: an instruction, a new temporary or label, a block ended or started.
A relation between builders that each of these steps stays within (`Writing`) holds between the builders
before and behind every expression (`relates_lowerExpr`), whatever the expression is. One such relation is
that all that was written stays, and names mean what they meant (`Builder.Continues`).
-/

namespace ProtoScript.Lowering

/-! ## Steps that have succeeded -/

section

variable {α β : Type} {k : Context} {b b' : Builder}

theorem Runs.of_some {m : Lower Ir.Temp} {t : Ir.Temp} (h : Runs k (do return some (← m)) b (some t) b') :
    Runs k m b t b' := by
  obtain ⟨_, _, hm, h⟩ := h.of_bind
  cases h
  exact hm

theorem Runs.of_value {e : Expr} {m : Lower (Option Ir.Temp)} {f : Ir.Temp → Lower β} {d : β}
    (h : Runs k (do let t ← Lowering.valueOf e (← m); f t) b d b') :
    ∃ t b₁, Runs k m b (some t) b₁ ∧ Runs k (f t) b₁ d b' := by
  obtain ⟨t?, b₁, hm, h⟩ := h.of_bind
  obtain ⟨t, _, hvalue, h⟩ := h.of_bind
  cases t? with
  | none => cases hvalue
  | some t =>
      cases hvalue
      exact ⟨t, b₁, hm, h⟩

theorem Runs.of_typeOf {e : Expr} {f : Ty → Lower β} {d : β} (h : Runs k (typeOf e >>= f) b d b') :
    ∃ ty, e.type? = some ty ∧ Runs k (f ty) b d b' := by
  unfold typeOf at h
  cases hty : e.type? with
  | none =>
      rw [hty] at h
      cases h
  | some ty =>
      rw [hty] at h
      exact ⟨ty, rfl, h⟩

theorem Runs.of_callOf {n : Note} {f : CallTarget × Bool → Lower β} {d : β}
    (h : Runs k (callOf n >>= f) b d b') :
    ∃ target ty, n.call? = some target ∧ n.type? = some ty ∧ Runs k (f (target, !ty.isVoid)) b d b' := by
  unfold callOf at h
  split at h
  · cases h
  · cases h
  · rename_i hcall hty
    exact ⟨_, _, hcall, hty, h⟩

end

/-! ## Relations -/

/-- Whatever writes one more piece of an expression stays within the relation. The initial values of fields
are written without local names, which are put back behind them. -/
structure Writing (R : Builder → Builder → Prop) : Prop where
  refl (b : Builder) : R b b
  trans {b b' b'' : Builder} : R b b' → R b' b'' → R b b''
  emit (b : Builder) (i : Ir.Instr) : R b (b.emit i)
  takeTemp (b : Builder) : R b b.takeTemp
  takeLabel (b : Builder) : R b b.takeLabel
  close (b : Builder) (t : Ir.Terminator) : R b (b.close t)
  start (b : Builder) (label : String) : R b (b.start label)
  useName (b : Builder) (name : String) : R b (b.useName name)
  putBack {b b' : Builder} : R (b.withScopes [[]]) b' → R b (b'.withScopes b.scopes)

/-- Wherever the step succeeds, the builders before and behind it are related. -/
def Relates {α : Type} (R : Builder → Builder → Prop) (m : Lower α) : Prop :=
  ∀ c b a b', Runs c m b a b' → R b b'

section

variable {α β : Type} {R : Builder → Builder → Prop} (hR : Writing R) {m : Lower α} {f : α → Lower β}

include hR

/-! ## Composition -/

theorem Relates.bind (hm : Relates R m) (hf : ∀ a, Relates R (f a)) : Relates R (m >>= f) := by
  intro c b d b' h
  obtain ⟨a, b₁, h₁, h₂⟩ := h.of_bind
  exact hR.trans (hm c b a b₁ h₁) (hf a c b₁ d b' h₂)

theorem relates_pure (a : α) : Relates R (pure a : Lower α) := by
  intro c b a' b' h
  cases h
  exact hR.refl b

omit hR in
theorem relates_fail (cause : Cause) : Relates R (fail cause : Lower α) := by
  intro c b a b' h
  cases h

theorem relates_get : Relates R (get : Lower Builder) := by
  intro c b a b' h
  cases h
  exact hR.refl b

theorem relates_read : Relates R (read : Lower Context) := by
  intro c b a b' h
  cases h
  exact hR.refl b

/-- Names are put back behind a step that sees none. -/
theorem Relates.withoutLocals (h : Relates R m) : Relates R (withoutLocals m) := by
  intro c b a b' hrun
  obtain ⟨b₀, _, h₀, hrun⟩ := hrun.of_bind
  obtain ⟨_, b₁, h₁, hrun⟩ := hrun.of_bind
  obtain ⟨a', b₂, h₂, hrun⟩ := hrun.of_bind
  obtain ⟨_, b₃, h₃, hrun⟩ := hrun.of_bind
  cases h₀
  cases h₁
  cases h₃
  cases hrun
  exact hR.putBack (h c _ a b₂ h₂)

/-! ## What the builder offers -/

theorem relates_emit (i : Ir.Instr) : Relates R (emit i) := by
  intro c b a b' h
  cases h
  exact hR.emit b i

theorem relates_freshTemp : Relates R freshTemp := by
  intro c b a b' h
  cases h
  exact hR.takeTemp b

theorem relates_freshLabel (stem : String) : Relates R (freshLabel stem) := by
  intro c b a b' h
  cases h
  exact hR.takeLabel b

theorem relates_emitValue (make : Ir.Temp → Ir.Instr) : Relates R (emitValue make) :=
  (relates_freshTemp hR).bind hR fun _ => (relates_emit hR _).bind hR fun _ => relates_pure hR _

theorem relates_emitResult (hasResult : Bool) (make : Option Ir.Temp → Ir.Instr) :
    Relates R (emitResult hasResult make) := by
  cases hasResult with
  | true => exact (relates_emitValue hR _).bind hR fun _ => relates_pure hR _
  | false => exact (relates_emit hR _).bind hR fun _ => relates_pure hR _

theorem relates_endWith (t : Ir.Terminator) : Relates R (endWith t) := by
  intro c b a b' h
  cases h
  exact hR.close b t

theorem relates_jump (label : String) : Relates R (jump label) := relates_endWith hR _

theorem relates_startBlock (label : String) : Relates R (startBlock label) := by
  intro c b a b' h
  cases h
  exact hR.start b label

theorem relates_declare (base : String) (ty : Ty) : Relates R (declare base ty) := by
  intro c b a b' h
  cases h
  exact hR.trans (hR.useName b _) (hR.emit _ _)

theorem relates_declareJoin (ty : Ty) : Relates R (declareJoin ty) :=
  (relates_get hR).bind hR fun _ => relates_declare hR _ _

theorem relates_varOf? (x : String) : Relates R (varOf? x) :=
  (relates_get hR).bind hR fun _ => relates_pure hR _

theorem relates_typeOf (e : Expr) : Relates R (typeOf e) := by
  unfold typeOf
  cases e.type? with
  | none => exact relates_fail _
  | some τ => exact relates_pure hR τ

/-! ## Single operations -/

theorem relates_valueOf (e : Expr) (t : Option Ir.Temp) : Relates R (valueOf e t) := by
  cases t with
  | none => exact relates_fail _
  | some t => exact relates_pure hR t

/-- The value of an expression is used. -/
theorem Relates.value {e : Expr} {m : Lower (Option Ir.Temp)} {f : Ir.Temp → Lower β} (hm : Relates R m)
    (hf : ∀ t, Relates R (f t)) : Relates R (do let t ← valueOf e (← m); f t) :=
  hm.bind hR fun _ => (relates_valueOf hR _ _).bind hR hf

theorem relates_callOf (n : Note) : Relates R (callOf n) := by
  unfold callOf
  split
  · exact relates_fail _
  · exact relates_fail _
  · exact relates_pure hR _

theorem relates_emitBinary (op : BinaryOp) (left right : Ir.Temp) (ty : Ty) :
    Relates R (emitBinary op left right ty) := by
  unfold emitBinary
  split
  · exact (relates_emit hR _).bind hR fun _ => relates_emitValue hR _
  · exact relates_emitValue hR _

theorem relates_emitUnary (op : UnaryOp) (operand : Ir.Temp) (ty : Ty) :
    Relates R (emitUnary op operand ty) := by
  unfold emitUnary
  split
  · exact (relates_emit hR _).bind hR fun _ => relates_emitValue hR _
  · exact relates_emitValue hR _

theorem relates_emitContainerCall (n : Note) (method : ContainerMethod) (object : Ir.Temp)
    (args : List Ir.Temp) : Relates R (emitContainerCall n method object args) := by
  have hvalue : ∀ make : Ir.Temp → Ir.Instr, Relates R (do return some (← emitValue make)) :=
    fun make => (relates_emitValue hR make).bind hR fun _ => relates_pure hR _
  have hnone : ∀ i : Ir.Instr, Relates R (do emit i; return (none : Option Ir.Temp)) :=
    fun i => (relates_emit hR i).bind hR fun _ => relates_pure hR _
  unfold emitContainerCall
  split
  · exact hnone _
  · exact hvalue _
  · exact hvalue _
  · split
    · exact hvalue _
    · exact relates_fail _
  · split
    · exact hvalue _
    · exact relates_fail _
  · exact hnone _
  · exact hvalue _
  · exact hnone _
  · exact relates_fail _

theorem relates_prints (args : List Ir.Temp) :
    Relates R (args.forM fun value => emit (.print value)) := by
  induction args with
  | nil => exact relates_pure hR _
  | cons t rest ih => exact (relates_emit hR _).bind hR fun _ => ih

theorem relates_emitPlainCall (n : Note) (target : CallTarget) (hasResult : Bool)
    (args : List Ir.Temp) : Relates R (emitPlainCall n target hasResult args) := by
  unfold emitPlainCall
  split
  · exact relates_emitResult hR _ _
  · exact (relates_prints hR args).bind hR fun _ => relates_pure hR _
  · exact relates_emitResult hR _ _
  · exact relates_fail _

theorem relates_emitMethodCall (n : Note) (target : CallTarget) (hasResult : Bool)
    (receiver : Ir.Temp) (args : List Ir.Temp) :
    Relates R (emitMethodCall n target hasResult receiver args) := by
  unfold emitMethodCall
  split
  · exact relates_emitResult hR _ _
  · exact (relates_emitValue hR _).bind hR fun _ => relates_pure hR _
  · exact relates_emitContainerCall hR _ _ _ _
  · exact relates_fail _

theorem relates_isTrivial (e : Expr) : Relates R (isTrivial e) := by
  unfold isTrivial
  split
  · exact relates_pure hR _
  · exact (relates_varOf? hR _).bind hR fun _ => relates_pure hR _
  · exact relates_pure hR _

theorem relates_startLogical (op : BinaryOp) (left : Ir.Temp) : Relates R (startLogical op left) :=
  (relates_declareJoin hR _).bind hR fun _ => (relates_emit hR _).bind hR fun _ =>
    (relates_freshLabel hR _).bind hR fun _ => (relates_freshLabel hR _).bind hR fun _ =>
    (relates_endWith hR _).bind hR fun _ => relates_pure hR _

/-! ## Expressions -/

variable {ni : String → Lower Ir.Temp}

theorem relates_lowerExpr_of {e : Expr} (h : Relates R (lowerExpr? ni e)) : Relates R (lowerExpr ni e) :=
  h.bind hR fun _ => relates_valueOf hR _ _

theorem relates_openTernary {n : Note} {e x y : Expr} (he : Relates R (lowerExpr ni e)) :
    Relates R (openTernary ni n e x y) :=
  (relates_typeOf hR _).bind hR fun _ => he.bind hR fun _ => (relates_declareJoin hR _).bind hR fun _ =>
    (relates_freshLabel hR _).bind hR fun _ => (relates_freshLabel hR _).bind hR fun _ =>
    (relates_freshLabel hR _).bind hR fun _ => (relates_endWith hR _).bind hR fun _ =>
    (relates_startBlock hR _).bind hR fun _ => relates_pure hR _

theorem relates_openTernaryElse {n : Note} {e x y : Expr} (he : Relates R (lowerExpr ni e))
    (hx : Relates R (lowerExpr ni x)) : Relates R (openTernaryElse ni n e x y) :=
  (relates_openTernary hR he).bind hR fun _ => hx.bind hR fun _ => (relates_emit hR _).bind hR fun _ =>
    (relates_jump hR _).bind hR fun _ => (relates_startBlock hR _).bind hR fun _ => relates_pure hR _

theorem relates_emitTarget (hni : ∀ proto, Relates R (ni proto)) (name : String)
    (target : Option ValueTarget) : Relates R (emitTarget ni name target) := by
  unfold emitTarget
  split
  · exact relates_emitValue hR _
  · exact hni _
  · exact relates_fail _

mutual

theorem relates_lowerExpr? (hni : ∀ proto, Relates R (ni proto)) :
    (e : Expr) → Relates R (lowerExpr? ni e)
  | .literal n v => by
      rw [lowerExpr?]
      exact (relates_emitValue hR _).bind hR fun _ => relates_pure hR _
  | .ident n x => by
      rw [lowerExpr?]
      refine (relates_varOf? hR x).bind hR fun v => ?_
      cases v with
      | none => exact (relates_emitTarget hR hni _ _).bind hR fun _ => relates_pure hR _
      | some v => exact (relates_emitValue hR _).bind hR fun _ => relates_pure hR _
  | .self n => by
      rw [lowerExpr?]
      exact (relates_emitValue hR _).bind hR fun _ => relates_pure hR _
  | .unary n op e => by
      rw [lowerExpr?]
      exact (relates_typeOf hR e).bind hR fun _ => (relates_lowerExpr? hni e).value hR fun _ =>
        (relates_emitUnary hR _ _ _).bind hR fun _ => relates_pure hR _
  | .binary n op l r => by
      have hl := relates_lowerExpr? hni l
      have hr := relates_lowerExpr? hni r
      rw [lowerExpr?]
      split
      · refine hl.value hR fun a => (relates_isTrivial hR r).bind hR fun trivial => ?_
        cases trivial with
        | true =>
            exact hr.value hR fun _ => (relates_emitValue hR _).bind hR fun _ => relates_pure hR _
        | false =>
            exact (relates_startLogical hR op a).bind hR fun _ => (relates_startBlock hR _).bind hR fun _ =>
              hr.value hR fun _ => (relates_emit hR _).bind hR fun _ => (relates_jump hR _).bind hR fun _ =>
              (relates_startBlock hR _).bind hR fun _ => (relates_emitValue hR _).bind hR fun _ =>
              relates_pure hR _
      · exact (relates_typeOf hR l).bind hR fun _ => hl.value hR fun _ => hr.value hR fun _ =>
          (relates_emitBinary hR _ _ _ _).bind hR fun _ => relates_pure hR _
  | .ternary n e x y => by
      have he := relates_lowerExpr_of hR (relates_lowerExpr? hni e)
      have hx := relates_lowerExpr_of hR (relates_lowerExpr? hni x)
      have hy := relates_lowerExpr_of hR (relates_lowerExpr? hni y)
      rw [lowerExpr?_ternary]
      exact (relates_openTernaryElse hR he hx).bind hR fun _ => hy.bind hR fun _ =>
        (relates_emit hR _).bind hR fun _ => (relates_jump hR _).bind hR fun _ =>
        (relates_startBlock hR _).bind hR fun _ => (relates_emitValue hR _).bind hR fun _ =>
        relates_pure hR _
  | .call n name args => by
      have hargs := relates_lowerExprs hni args
      rw [lowerExpr?]
      refine (relates_callOf hR n).bind hR fun target => ?_
      dsimp only
      split
      · exact (hni _).bind hR fun _ => relates_pure hR _
      · exact hargs.bind hR fun _ => relates_emitPlainCall hR _ _ _ _
      · exact hargs.bind hR fun _ => relates_emitPlainCall hR _ _ _ _
      · exact hargs.bind hR fun _ => relates_emitPlainCall hR _ _ _ _
      · exact relates_fail _
  | .methodCall n e method args => by
      have he := relates_lowerExpr? hni e
      have hargs := relates_lowerExprs hni args
      rw [lowerExpr?]
      refine (relates_callOf hR n).bind hR fun target => ?_
      dsimp only
      split
      · exact (hni _).bind hR fun _ => relates_pure hR _
      · exact hargs.bind hR fun _ => relates_emitPlainCall hR _ _ _ _
      · exact hargs.bind hR fun _ => relates_emitPlainCall hR _ _ _ _
      · split
        · exact he.value hR fun _ => hargs.bind hR fun _ => relates_emitPlainCall hR _ _ _ _
        · exact hargs.bind hR fun _ => relates_emitPlainCall hR _ _ _ _
      · exact he.value hR fun _ => relates_emitMethodCall hR _ _ _ _ _
      · exact he.value hR fun _ => hargs.bind hR fun _ => relates_emitMethodCall hR _ _ _ _ _
  | .member n e name => by
      have he := relates_lowerExpr? hni e
      rw [lowerExpr?]
      split
      · exact (relates_emitValue hR _).bind hR fun _ => relates_pure hR _
      · exact he.value hR fun _ => (relates_emitValue hR _).bind hR fun _ => relates_pure hR _
      · exact relates_fail _
  | .index n e i => by
      rw [lowerExpr?]
      exact (relates_typeOf hR e).bind hR fun _ => (relates_lowerExpr? hni e).value hR fun _ =>
        (relates_lowerExpr? hni i).value hR fun _ => (relates_emit hR _).bind hR fun _ =>
        (relates_emitValue hR _).bind hR fun _ => relates_pure hR _
  | .cast n e target => by
      rw [lowerExpr?]
      exact (relates_lowerExpr? hni e).value hR fun _ => (relates_emitValue hR _).bind hR fun _ =>
        relates_pure hR _
  | .list n items => by
      rw [lowerExpr?]
      exact (relates_typeOf hR _).bind hR fun _ => (relates_lowerExprs hni items).bind hR fun _ =>
        (relates_emitValue hR _).bind hR fun _ => relates_pure hR _
  | .map n entries => by
      rw [lowerExpr?]
      exact (relates_typeOf hR _).bind hR fun _ => (relates_lowerEntries hni entries).bind hR fun _ =>
        (relates_emitValue hR _).bind hR fun _ => relates_pure hR _

theorem relates_lowerExprs (hni : ∀ proto, Relates R (ni proto)) :
    (es : List Expr) → Relates R (lowerExprs ni es)
  | [] => by
      rw [lowerExprs]
      exact relates_pure hR _
  | e :: rest => by
      rw [lowerExprs]
      exact (relates_lowerExpr? hni e).value hR fun _ => (relates_lowerExprs hni rest).bind hR fun _ =>
        relates_pure hR _

theorem relates_lowerEntries (hni : ∀ proto, Relates R (ni proto)) :
    (entries : List (Expr × Expr)) → Relates R (lowerEntries ni entries)
  | [] => by
      rw [lowerEntries]
      exact relates_pure hR _
  | (key, value) :: rest => by
      rw [lowerEntries]
      exact (relates_lowerExpr? hni key).value hR fun _ => (relates_lowerExpr? hni value).value hR fun _ =>
        (relates_lowerEntries hni rest).bind hR fun _ => relates_pure hR _

end

theorem relates_lowerExpr (hni : ∀ proto, Relates R (ni proto)) (e : Expr) :
    Relates R (lowerExpr ni e) :=
  relates_lowerExpr_of hR (relates_lowerExpr? hR hni e)

/-! ## New instances -/

theorem relates_initFields (hni : ∀ proto, Relates R (ni proto)) (proto : String) (object : Ir.Temp)
    (fields : List FieldInfo) : Relates R (initFields ni proto object fields) := by
  induction fields with
  | nil => exact relates_pure hR _
  | cons f rest ih =>
      refine (relates_read hR).bind hR fun c => ?_
      dsimp only
      split
      · exact ih
      · rename_i e _
        exact ((relates_lowerExpr hR hni e).withoutLocals hR).bind hR fun _ =>
          (relates_emit hR _).bind hR fun _ => ih

theorem relates_newInstance (depth : Nat) (proto : String) : Relates R (newInstance depth proto) := by
  induction depth generalizing proto with
  | zero => exact relates_fail _
  | succ depth ih =>
      exact (relates_emitValue hR _).bind hR fun _ => (relates_read hR).bind hR fun _ =>
        (relates_initFields hR ih proto _ _).bind hR fun _ => relates_pure hR _

end

/-! ## What has been written -/

/-- The instructions written so far. -/
def Builder.instrs (b : Builder) : List Ir.Instr := b.finished.flatMap Ir.Block.instrs ++ b.code

/-- The second builder has all that the first has written, and the same names. -/
structure Builder.Continues (b b' : Builder) : Prop where
  instrs : b.instrs ⊆ b'.instrs
  scopes : b'.scopes = b.scopes

namespace Builder

theorem mem_instrs_emit (b : Builder) (i : Ir.Instr) : i ∈ (b.emit i).instrs :=
  List.mem_append_right _ (List.mem_append_right _ (List.mem_singleton_self i))

theorem instrs_start (b : Builder) (label : String) : (b.start label).instrs = b.instrs := by
  simp [instrs, start, blocks]

theorem Continues.trans {b b' b'' : Builder} (h : b.Continues b') (h' : b'.Continues b'') :
    b.Continues b'' := ⟨List.Subset.trans h.instrs h'.instrs, h'.scopes.trans h.scopes⟩

end Builder

theorem writing_continues : Writing Builder.Continues where
  refl b := ⟨List.Subset.refl _, rfl⟩
  trans := Builder.Continues.trans
  emit b i := by
    refine ⟨?_, rfl⟩
    have happend : (b.emit i).instrs = b.instrs ++ [i] := (List.append_assoc ..).symm
    rw [happend]
    exact List.subset_append_left _ _
  takeTemp _ := ⟨List.Subset.refl _, rfl⟩
  takeLabel _ := ⟨List.Subset.refl _, rfl⟩
  close _ _ := ⟨List.Subset.refl _, rfl⟩
  start b label := by
    refine ⟨?_, rfl⟩
    rw [Builder.instrs_start]
    exact List.Subset.refl _
  useName _ _ := ⟨List.Subset.refl _, rfl⟩
  putBack h := ⟨h.instrs, rfl⟩

end ProtoScript.Lowering
