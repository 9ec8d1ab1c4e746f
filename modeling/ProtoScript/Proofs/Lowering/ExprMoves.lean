import ProtoScript.Proofs.Lowering.Moves

set_option autoImplicit false

/-!
# Expressions define what they give

From any point of an open block the code of an expression leads to a point of an open block where the
temporary of its value is defined, and everything that was defined before (`yields_lowerExpr?`). An
operation that splits its block makes its own labels and starts all of their blocks.
-/

namespace ProtoScript.Lowering

open Ir

variable {α β : Type} {base known : List Temp} {targets todo : List String}

/-! ## Values -/

/-- From any open block the step leads to an open block where the temporaries of its result are defined,
besides those that were. -/
structure Yields (m : Lower α) (temps : α → List Temp) : Prop where
  moves : ∀ {base known : List Temp} {targets todo : List String},
    Moves base ⟨targets, todo, some known⟩ m fun a => ⟨targets, todo, some (temps a ++ known)⟩

/-- It suffices to look at the step on its own. -/
theorem Yields.of_moves {m : Lower α} {temps : α → List Temp}
    (h : ∀ known, Moves known ⟨[], [], some known⟩ m fun a => ⟨[], [], some (temps a ++ known)⟩) :
    Yields m temps :=
  ⟨fun {_ known _ _} => (h known).nest (List.nil_subset _)⟩

theorem Yields.bind {m : Lower α} {temps : α → List Temp} {f : α → Lower β} {q : β → Stage}
    (hm : Yields m temps) (hf : ∀ a, Moves base ⟨targets, todo, some (temps a ++ known)⟩ (f a) q) :
    Moves base ⟨targets, todo, some known⟩ (m >>= f) q := hm.moves.bind hf

/-- The result is known to be defined, and more is. -/
theorem moves_return {a : α} {temps : α → List Temp} {known' : List Temp}
    (h : temps a ++ known ⊆ known') :
    Moves base ⟨targets, todo, some known'⟩ (pure a) fun a => ⟨targets, todo, some (temps a ++ known)⟩ :=
  Moves.of_subset (List.Subset.refl _) h (moves_pure rfl)

/-- An operation gives the value of an expression. -/
theorem Moves.some {m : Lower Temp} {known' : List Temp}
    (hm : Moves base ⟨targets, todo, some known'⟩ m fun t => ⟨targets, todo, some (t :: known')⟩)
    (h : known ⊆ known') :
    Moves base ⟨targets, todo, some known'⟩ (do return some (← m))
      fun r => ⟨targets, todo, some (r.toList ++ known)⟩ :=
  hm.bind fun _ => moves_return (List.cons_subset_cons _ h)

theorem moves_valueOf {e : Expr} {r : Option Temp} :
    Moves base ⟨targets, todo, some (r.toList ++ known)⟩ (valueOf e r)
      fun t => ⟨targets, todo, some (t :: known)⟩ := by
  cases r with
  | none => exact moves_fail _
  | some t => exact moves_pure rfl

/-- The value of an expression is used. -/
theorem Yields.value {e : Expr} {m : Lower (Option Temp)} {f : Temp → Lower β} {q : β → Stage}
    (hm : Yields m Option.toList) (hf : ∀ t, Moves base ⟨targets, todo, some (t :: known)⟩ (f t) q) :
    Moves base ⟨targets, todo, some known⟩ (do let t ← valueOf e (← m); f t) q :=
  hm.bind fun _ => moves_valueOf.bind hf

/-! ## Single operations -/

theorem moves_emitBinary {op : BinaryOp} {l r : Temp} {ty : Ty} (hl : l ∈ known) (hr : r ∈ known) :
    Moves base ⟨targets, todo, some known⟩ (emitBinary op l r ty)
      fun t => ⟨targets, todo, some (t :: known)⟩ := by
  have hvalue : Moves base ⟨targets, todo, some known⟩ (emitValue (.binary · op l r))
      fun t => ⟨targets, todo, some (t :: known)⟩ :=
    moves_emitValue (fun _ => rfl) fun _ => by simp [Instr.operands, hl, hr]
  have hcheck : ∀ c, checkFor? op l r ty = some c → c.operands ⊆ known := by
    intro c hc
    unfold checkFor? at hc
    split at hc
    · split at hc <;> cases hc <;> simp [Check.operands, hl, hr]
    · cases hc
  unfold emitBinary
  cases hc : checkFor? op l r ty with
  | none => exact hvalue
  | some c => exact (moves_emit rfl rfl (hcheck c hc)).bind fun _ => hvalue

theorem moves_emitUnary {op : UnaryOp} {e : Temp} {ty : Ty} (he : e ∈ known) :
    Moves base ⟨targets, todo, some known⟩ (emitUnary op e ty)
      fun t => ⟨targets, todo, some (t :: known)⟩ := by
  have hvalue : Moves base ⟨targets, todo, some known⟩ (emitValue (.unary · op e))
      fun t => ⟨targets, todo, some (t :: known)⟩ :=
    moves_emitValue (fun _ => rfl) fun _ => by simp [Instr.operands, he]
  unfold emitUnary
  split
  · refine (moves_emit rfl rfl ?_).bind fun _ => hvalue
    simp [Instr.operands, Check.operands, he]
  · exact hvalue

/-- An instruction that may have a result. -/
theorem moves_emitResult {hasResult : Bool} {make : Option Temp → Instr} (hplain : (make none).isPlain)
    (hdest : ∀ r, (make r).dest? = r) (hreads : ∀ r, (make r).operands ⊆ known) :
    Moves base ⟨targets, todo, some known⟩ (emitResult hasResult make)
      fun r => ⟨targets, todo, some (r.toList ++ known)⟩ := by
  unfold emitResult
  cases hasResult with
  | true => exact (moves_emitValue (fun t => hdest _) fun t => hreads _).some (List.Subset.refl _)
  | false => exact (moves_emit hplain (hdest _) (hreads _)).bind fun _ => moves_pure rfl

theorem yields_emitTarget {newInstance : String → Lower Temp} {name : String}
    (hnew : ∀ proto, Yields (newInstance proto) fun t => [t]) (value? : Option ValueTarget) :
    Yields (emitTarget newInstance name value?) fun t => [t] := by
  refine .of_moves fun known => ?_
  unfold emitTarget
  split
  · exact moves_emitValue (fun _ => rfl) fun _ => List.nil_subset _
  · exact (hnew _).moves
  · exact moves_fail _

theorem moves_isTrivial {p : Stage} (e : Expr) : Moves base p (isTrivial e) fun _ => p := by
  unfold isTrivial
  split
  · exact moves_pure rfl
  · exact (moves_varOf? _).bind fun _ => moves_pure rfl
  · exact moves_pure rfl

theorem moves_callOf {p : Stage} (n : Note) : Moves base p (callOf n) fun _ => p := by
  unfold callOf
  split
  · exact moves_fail _
  · exact moves_fail _
  · exact moves_pure rfl

/-! ## Calls -/

theorem moves_emitContainerCall {n : Note} {method : ContainerMethod} {object : Temp} {args : List Temp}
    (hobject : object ∈ known) (hargs : args ⊆ known) :
    Moves base ⟨targets, todo, some known⟩ (emitContainerCall n method object args)
      fun r => ⟨targets, todo, some (r.toList ++ known)⟩ := by
  have hvalue : ∀ {make : Temp → Instr}, (∀ t, (make t).dest? = some t) →
      (∀ t, (make t).operands ⊆ object :: args) →
      Moves base ⟨targets, todo, some known⟩ (do return some (← emitValue make))
        fun r => ⟨targets, todo, some (r.toList ++ known)⟩ := by
    intro make hdest hreads
    refine (moves_emitValue hdest fun t => List.Subset.trans (hreads t) ?_).some (List.Subset.refl _)
    exact List.cons_subset.2 ⟨hobject, hargs⟩
  have hnone : ∀ {i : Instr}, i.isPlain → i.dest? = none → i.operands ⊆ object :: args →
      Moves base ⟨targets, todo, some known⟩ (do emit i; return none)
        fun r => ⟨targets, todo, some (r.toList ++ known)⟩ := by
    intro i hplain hdest hreads
    refine (moves_emit hplain hdest (List.Subset.trans hreads ?_)).bind fun _ => moves_pure rfl
    exact List.cons_subset.2 ⟨hobject, hargs⟩
  unfold emitContainerCall
  split
  · exact hnone rfl rfl (by simp [Instr.operands])
  · exact hvalue (fun _ => rfl) fun _ => by simp [Instr.operands]
  · exact hvalue (fun _ => rfl) fun _ => by simp [Instr.operands]
  · split
    · exact hvalue (fun _ => rfl) fun _ => by simp [Instr.operands]
    · exact moves_fail _
  · split
    · exact hvalue (fun _ => rfl) fun _ => by simp [Instr.operands]
    · exact moves_fail _
  · exact hnone rfl rfl (by simp [Instr.operands])
  · exact hvalue (fun _ => rfl) fun _ => by simp [Instr.operands]
  · exact hnone rfl rfl (by simp [Instr.operands])
  · exact moves_fail _

theorem moves_prints {args : List Temp} (hargs : args ⊆ known) :
    Moves base ⟨targets, todo, some known⟩ (args.forM fun value => emit (.print value))
      fun _ => ⟨targets, todo, some known⟩ := by
  induction args with
  | nil => exact moves_pure rfl
  | cons t rest ih =>
      obtain ⟨ht, hrest⟩ := List.cons_subset.1 hargs
      refine (moves_emit rfl rfl ?_).bind fun _ => ih hrest
      simp [Instr.operands, ht]

theorem moves_emitPlainCall {n : Note} {target : CallTarget} {hasResult : Bool} {args : List Temp}
    (hargs : args ⊆ known) :
    Moves base ⟨targets, todo, some known⟩ (emitPlainCall n target hasResult args)
      fun r => ⟨targets, todo, some (r.toList ++ known)⟩ := by
  unfold emitPlainCall
  split
  · exact moves_emitResult rfl (fun _ => rfl) fun _ => hargs
  · exact (moves_prints hargs).bind fun _ => moves_pure rfl
  · exact moves_emitResult rfl (fun _ => rfl) fun _ => hargs
  · exact moves_fail _

theorem moves_emitMethodCall {n : Note} {target : CallTarget} {hasResult : Bool} {receiver : Temp}
    {args : List Temp} (hreceiver : receiver ∈ known) (hargs : args ⊆ known) :
    Moves base ⟨targets, todo, some known⟩ (emitMethodCall n target hasResult receiver args)
      fun r => ⟨targets, todo, some (r.toList ++ known)⟩ := by
  unfold emitMethodCall
  split
  · exact moves_emitResult rfl (fun _ => rfl) fun _ => List.cons_subset.2 ⟨hreceiver, hargs⟩
  · refine (moves_emitValue (fun _ => rfl) fun _ => ?_).some (List.Subset.refl _)
    simp [Instr.operands, hreceiver]
  · exact moves_emitContainerCall hreceiver hargs
  · exact moves_fail _

/-! ## Expressions -/

/-- The start of a logical operation: the blocks of the right operand and behind it are still to come. -/
theorem moves_startLogical {op : BinaryOp} {left : Temp} (hleft : left ∈ known) :
    Moves base ⟨targets, todo, some known⟩ (startLogical op left)
      fun r => ⟨r.2.2 :: r.2.1 :: targets, todo ++ [r.2.1] ++ [r.2.2], none⟩ := by
  refine (moves_declareJoin _).bind fun joined => ?_
  refine (moves_emit rfl rfl (by simp [Instr.operands, hleft])).bind fun _ => ?_
  refine (moves_freshLabel rfl).bind fun rhs => (moves_freshLabel rfl).bind fun done => ?_
  refine Moves.bind (moves_endWith ?_ ?_ ?_) fun _ => moves_pure rfl
  · split <;> simp [Terminator.operands, hleft]
  · split <;> simp [Terminator.successors]
  · split <;> rfl

mutual

theorem yields_lowerExpr? {newInstance : String → Lower Temp}
    (hnew : ∀ proto, Yields (newInstance proto) fun t => [t]) :
    (e : Expr) → Yields (lowerExpr? newInstance e) Option.toList
  | .literal n v => by
      rw [lowerExpr?]
      refine .of_moves fun known => ?_
      exact (moves_emitValue (fun _ => rfl) fun _ => List.nil_subset _).some (List.Subset.refl _)
  | .ident n name => by
      rw [lowerExpr?]
      refine .of_moves fun known => ?_
      refine (moves_varOf? name).bind fun var? => ?_
      split
      · exact (moves_emitValue (fun _ => rfl) fun _ => List.nil_subset _).some (List.Subset.refl _)
      · exact (yields_emitTarget hnew _).moves.some (List.Subset.refl _)
  | .self _ => by
      rw [lowerExpr?]
      refine .of_moves fun known => ?_
      exact (moves_emitValue (fun _ => rfl) fun _ => List.nil_subset _).some (List.Subset.refl _)
  | .unary _ op e => by
      rw [lowerExpr?]
      refine .of_moves fun known => ?_
      refine (moves_typeOf e).bind fun ty => (yields_lowerExpr? hnew e).value fun t => ?_
      exact (moves_emitUnary List.mem_cons_self).some (List.subset_cons_self _ _)
  | .binary _ op l r => by
      rw [lowerExpr?]
      refine .of_moves fun known => ?_
      split
      · refine (yields_lowerExpr? hnew l).value fun a => (moves_isTrivial r).bind fun trivial? => ?_
        split
        · refine (yields_lowerExpr? hnew r).value fun b => ?_
          refine Moves.some (moves_emitValue (fun t => ?_) fun t => ?_) (by grind)
          · split <;> rfl
          · split <;> simp [Instr.operands]
        · -- Both blocks start with what is defined here, the left operand included.
          refine Moves.nest ?_ (List.nil_subset _)
          refine (moves_startLogical List.mem_cons_self).bind fun ⟨joined, rhs, done⟩ => ?_
          refine moves_startBlock.bind fun _ => (yields_lowerExpr? hnew r).value fun b => ?_
          refine (moves_emit rfl rfl (by simp [Instr.operands])).bind fun _ => ?_
          refine (moves_jump List.mem_cons_self).bind fun _ => moves_startBlock.bind fun _ => ?_
          refine Moves.of_subset (List.nil_subset _) (List.subset_cons_self _ _) ?_
          exact (moves_emitValue (fun _ => rfl) fun _ => List.nil_subset _).some (List.Subset.refl _)
      · refine (moves_typeOf l).bind fun ty => ?_
        refine (yields_lowerExpr? hnew l).value fun a => (yields_lowerExpr? hnew r).value fun b => ?_
        exact (moves_emitBinary (by simp) (by simp)).some (by grind)
  | .ternary n c x y => by
      rw [lowerExpr?]
      refine .of_moves fun known => ?_
      refine (moves_typeOf _).bind fun ty => (yields_lowerExpr? hnew c).value fun cond => ?_
      refine Moves.nest ?_ (List.nil_subset _)
      refine (moves_declareJoin ty).bind fun joined => ?_
      refine (moves_freshLabel rfl).bind fun thenLabel => (moves_freshLabel rfl).bind fun elseLabel => ?_
      refine (moves_freshLabel rfl).bind fun done => ?_
      refine (moves_branch (by simp) (by simp) (by simp)).bind fun _ => ?_
      refine moves_startBlock.bind fun _ => (yields_lowerExpr? hnew x).value fun a => ?_
      refine (moves_emit rfl rfl (by simp [Instr.operands])).bind fun _ => ?_
      refine (moves_jump List.mem_cons_self).bind fun _ => ?_
      refine moves_startBlock.bind fun _ => (yields_lowerExpr? hnew y).value fun b => ?_
      refine (moves_emit rfl rfl (by simp [Instr.operands])).bind fun _ => ?_
      refine (moves_jump List.mem_cons_self).bind fun _ => moves_startBlock.bind fun _ => ?_
      refine Moves.of_subset (List.nil_subset _) (List.subset_cons_self _ _) ?_
      exact (moves_emitValue (fun _ => rfl) fun _ => List.nil_subset _).some (List.Subset.refl _)
  | .call n _ args => by
      rw [lowerExpr?]
      refine .of_moves fun known => ?_
      refine (moves_callOf n).bind fun ⟨target, hasResult⟩ => ?_
      have hplain : Moves known ⟨[], [], some known⟩
          (do emitPlainCall n target hasResult (← lowerExprs newInstance args))
          fun r => ⟨[], [], some (r.toList ++ known)⟩ :=
        (yields_lowerExprs hnew args).bind fun ts =>
          (moves_emitPlainCall (List.subset_append_left _ _)).keep fun r => by grind
      dsimp only
      split
      · exact (hnew _).moves.some (List.Subset.refl _)
      · exact hplain
      · exact hplain
      · exact hplain
      · exact moves_fail _
  | .methodCall n receiver _ args => by
      rw [lowerExpr?]
      refine .of_moves fun known => ?_
      refine (moves_callOf n).bind fun ⟨target, hasResult⟩ => ?_
      have hplain : Moves known ⟨[], [], some known⟩
          (do emitPlainCall n target hasResult (← lowerExprs newInstance args))
          fun r => ⟨[], [], some (r.toList ++ known)⟩ :=
        (yields_lowerExprs hnew args).bind fun ts =>
          (moves_emitPlainCall (List.subset_append_left _ _)).keep fun r => by grind
      dsimp only
      split
      · exact (hnew _).moves.some (List.Subset.refl _)
      · exact hplain
      · exact hplain
      · split
        · refine (yields_lowerExpr? hnew receiver).value fun handle => ?_
          refine (yields_lowerExprs hnew args).bind fun ts => ?_
          exact (moves_emitPlainCall (by simp)).keep fun r => by grind
        · exact hplain
      · refine (yields_lowerExpr? hnew receiver).value fun object => ?_
        exact (moves_emitMethodCall (by simp) (List.nil_subset _)).keep fun r => by grind
      · refine (yields_lowerExpr? hnew receiver).value fun object => ?_
        refine (yields_lowerExprs hnew args).bind fun ts => ?_
        exact (moves_emitMethodCall (by simp) (List.subset_append_left _ _)).keep fun r => by grind
  | .member n object name => by
      rw [lowerExpr?]
      refine .of_moves fun known => ?_
      split
      · exact (moves_emitValue (fun _ => rfl) fun _ => List.nil_subset _).some (List.Subset.refl _)
      · refine (yields_lowerExpr? hnew object).value fun t => ?_
        refine Moves.some (moves_emitValue (fun _ => rfl) fun _ => ?_) (List.subset_cons_self _ _)
        simp [Instr.operands]
      · exact moves_fail _
  | .index _ object i => by
      rw [lowerExpr?]
      refine .of_moves fun known => ?_
      refine (moves_typeOf object).bind fun ty => ?_
      refine (yields_lowerExpr? hnew object).value fun a => (yields_lowerExpr? hnew i).value fun b => ?_
      refine Moves.bind (moves_emit rfl rfl ?_) fun _ => ?_
      · unfold elementCheck
        split <;> simp [Instr.operands, Check.operands]
      · exact (moves_emitValue (fun _ => rfl) fun _ => by simp [Instr.operands]).some (by grind)
  | .cast _ e target => by
      rw [lowerExpr?]
      refine .of_moves fun known => ?_
      refine (yields_lowerExpr? hnew e).value fun t => ?_
      refine Moves.some (moves_emitValue (fun _ => rfl) fun _ => ?_) (List.subset_cons_self _ _)
      simp [Instr.operands]
  | .list n items => by
      rw [lowerExpr?]
      refine .of_moves fun known => ?_
      refine (moves_typeOf _).bind fun ty => (yields_lowerExprs hnew items).bind fun ts => ?_
      refine Moves.some (moves_emitValue (fun _ => rfl) fun _ => ?_) (List.subset_append_right _ _)
      exact List.subset_append_left _ _
  | .map n entries => by
      rw [lowerExpr?]
      refine .of_moves fun known => ?_
      refine (moves_typeOf _).bind fun ty => (yields_lowerEntries hnew entries).bind fun ts => ?_
      refine Moves.some (moves_emitValue (fun _ => rfl) fun _ => ?_) (List.subset_append_right _ _)
      exact List.subset_append_left _ _

theorem yields_lowerExprs {newInstance : String → Lower Temp}
    (hnew : ∀ proto, Yields (newInstance proto) fun t => [t]) :
    (es : List Expr) → Yields (lowerExprs newInstance es) id
  | [] => by
      rw [lowerExprs]
      refine .of_moves fun known => ?_
      exact moves_pure rfl
  | e :: rest => by
      rw [lowerExprs]
      refine .of_moves fun known => ?_
      refine (yields_lowerExpr? hnew e).value fun t => (yields_lowerExprs hnew rest).bind fun ts => ?_
      exact moves_return (by grind)

theorem yields_lowerEntries {newInstance : String → Lower Temp}
    (hnew : ∀ proto, Yields (newInstance proto) fun t => [t]) :
    (es : List (Expr × Expr)) →
      Yields (lowerEntries newInstance es) fun ts => ts.flatMap fun e => [e.1, e.2]
  | [] => by
      rw [lowerEntries]
      refine .of_moves fun known => ?_
      exact moves_pure rfl
  | (k, v) :: rest => by
      rw [lowerEntries]
      refine .of_moves fun known => ?_
      refine (yields_lowerExpr? hnew k).value fun a => (yields_lowerExpr? hnew v).value fun b => ?_
      refine (yields_lowerEntries hnew rest).bind fun ts => moves_return ?_
      rw [List.flatMap_cons]
      grind

end

theorem yields_lowerExpr {newInstance : String → Lower Temp}
    (hnew : ∀ proto, Yields (newInstance proto) fun t => [t]) (e : Expr) :
    Yields (lowerExpr newInstance e) fun t => [t] :=
  ⟨(yields_lowerExpr? hnew e).bind fun _ => moves_valueOf⟩

/-! ## New instances -/

/-- The initial values of fields are written into an object. Each is an expression of its own, which may be
written at many places. -/
theorem moves_initFields {newInstance : String → Lower Temp}
    (hnew : ∀ proto, Yields (newInstance proto) fun t => [t]) {proto : String} {object : Temp}
    (hobject : object ∈ known) (fields : List FieldInfo) :
    Moves base ⟨targets, todo, some known⟩ (initFields newInstance proto object fields)
      fun _ => ⟨targets, todo, some known⟩ := by
  induction fields with
  | nil => exact moves_pure rfl
  | cons f rest ih =>
      rw [initFields]
      refine moves_read.bind fun c => ?_
      split
      · exact ih
      · refine (yields_lowerExpr hnew _).moves.withoutLocals.bind fun value => ?_
        refine (moves_emit rfl rfl (by simp [Instr.operands, hobject])).bind fun _ => ?_
        exact Moves.of_subset (List.Subset.refl _) (List.subset_cons_self _ _) ih

theorem yields_newInstance (depth : Nat) (proto : String) :
    Yields (newInstance depth proto) fun t => [t] := by
  induction depth generalizing proto with
  | zero => exact ⟨moves_fail _⟩
  | succ depth ih =>
      rw [newInstance]
      refine .of_moves fun known => ?_
      refine Moves.bind (moves_emitValue (fun _ => rfl) fun _ => List.nil_subset _) fun object => ?_
      refine moves_read.bind fun c => (moves_initFields ih List.mem_cons_self _).bind fun _ => ?_
      exact moves_pure rfl

end ProtoScript.Lowering
