import ProtoScript.Proofs.Lowering.Scopes

set_option autoImplicit false

/-!
# Steps that do not ask for new instances

Lowering may give up, but only for a new instance does it look for values without end, and only for one does
it ask what the program declares. The steps that ask for no instance are calm (`Calm`): where they fail it is
for another reason, and they do the same whatever is declared. Two ways of lowering, or one way in two contexts, are
compared by `Agrees`, a relation that calm steps are in with themselves and that is kept when steps are put
one behind the other.
-/

namespace ProtoScript.Lowering

variable {α β : Type} {m m' : Lower α} {f f' : α → Lower β}

/-! ## Steps that ask for nothing -/

/-- The step asks for the name of the function at most, and if it fails, then not for an instance without
end. -/
structure Calm (m : Lower α) : Prop where
  same : ∀ c c' : Context, c.function = c'.function → ∀ b, m c b = m c' b
  ends : ∀ c b e proto, m c b = .error e → e.cause ≠ .endlessInstance proto

theorem calm_of_runs (h : ∀ b, ∃ a b', ∀ c, Runs c m b a b') : Calm m where
  same c c' _ b := by
    obtain ⟨a, b', hrun⟩ := h b
    exact (hrun c).trans (hrun c').symm
  ends c b e proto he := by
    obtain ⟨a, b', hrun⟩ := h b
    cases he.symm.trans (hrun c)

theorem calm_pure (a : α) : Calm (pure a : Lower α) := calm_of_runs fun b => ⟨a, b, fun _ => rfl⟩

theorem calm_get : Calm (get : Lower Builder) := calm_of_runs fun b => ⟨b, b, fun _ => rfl⟩

theorem calm_modify (g : Builder → Builder) : Calm (modify g : Lower Unit) :=
  calm_of_runs fun b => ⟨(), g b, fun _ => rfl⟩

theorem fail_apply (cause : Cause) (c : Context) (b : Builder) :
    (fail cause : Lower α) c b = .error ⟨c.function, cause⟩ := rfl

theorem calm_fail {cause : Cause} (h : ∀ proto, cause ≠ .endlessInstance proto) :
    Calm (fail cause : Lower α) where
  same c c' hname b := by rw [fail_apply, fail_apply, hname]
  ends c b e proto he := by
    cases he
    exact h proto

theorem calm_unresolvedName (name : String) : Calm (fail (.unresolvedName name) : Lower α) :=
  calm_fail nofun

theorem calm_unresolvedCall (span : Span) : Calm (fail (.unresolvedCall span) : Lower α) :=
  calm_fail nofun

theorem bind_apply (c : Context) (b : Builder) :
    (m >>= f) c b = (m c b >>= fun r => f r.1 c r.2) := rfl

theorem Calm.bind (hm : Calm m) (hf : ∀ a, Calm (f a)) : Calm (m >>= f) where
  same c c' hname b := by
    rw [bind_apply, bind_apply, hm.same c c' hname b]
    cases m c' b with
    | error e => rfl
    | ok r => exact (hf r.1).same c c' hname r.2
  ends c b e proto he := by
    rw [bind_apply] at he
    cases hrun : m c b with
    | error e' =>
        rw [hrun] at he
        cases he
        exact hm.ends c b _ proto hrun
    | ok r =>
        rw [hrun] at he
        exact (hf r.1).ends c r.2 e proto he

theorem calm_emit (i : Ir.Instr) : Calm (emit i) := calm_modify _

theorem calm_freshTemp : Calm freshTemp := calm_of_runs fun b => ⟨b.nextTemp, _, fun _ => rfl⟩

theorem calm_emitValue (make : Ir.Temp → Ir.Instr) : Calm (emitValue make) :=
  calm_freshTemp.bind fun _ => (calm_emit _).bind fun _ => calm_pure _

theorem calm_emitResult (hasResult : Bool) (make : Option Ir.Temp → Ir.Instr) :
    Calm (emitResult hasResult make) := by
  cases hasResult with
  | true => exact (calm_emitValue _).bind fun _ => calm_pure _
  | false => exact (calm_emit _).bind fun _ => calm_pure _

theorem calm_freshLabel (stem : String) : Calm (freshLabel stem) := calm_of_runs fun _ => ⟨_, _, fun _ => rfl⟩

theorem calm_freshLabels (stem : String) (n : Nat) : Calm (freshLabels stem n) := by
  induction n with
  | zero => exact calm_pure _
  | succ n ih => exact (calm_freshLabel _).bind fun _ => ih.bind fun _ => calm_pure _

theorem calm_endWith (t : Ir.Terminator) : Calm (endWith t) := calm_modify _

theorem calm_jump (label : String) : Calm (jump label) := calm_endWith _

theorem calm_startBlock (label : String) : Calm (startBlock label) := calm_modify _

theorem calm_isOpen : Calm isOpen := calm_get.bind fun _ => calm_pure _

theorem calm_declare (base : String) (ty : Ty) : Calm (declare base ty) :=
  calm_get.bind fun _ => (calm_modify _).bind fun _ => (calm_emit _).bind fun _ => calm_pure _

theorem calm_declareVar (source : String) (ty : Ty) : Calm (declareVar source ty) :=
  (calm_declare _ _).bind fun _ => (calm_modify _).bind fun _ => calm_pure _

theorem calm_declareJoin (ty : Ty) : Calm (declareJoin ty) := calm_get.bind fun _ => calm_declare _ _

theorem calm_varOf? (x : String) : Calm (varOf? x) := calm_get.bind fun _ => calm_pure _

theorem calm_unwindTo (depth : Nat) : Calm (unwindTo depth) := calm_modify _

theorem calm_typeOf (e : Expr) : Calm (typeOf e) := by
  unfold typeOf
  split
  · exact calm_pure _
  · exact calm_fail nofun

theorem calm_valueOf (e : Expr) (t : Option Ir.Temp) : Calm (valueOf e t) := by
  cases t with
  | none => exact calm_fail nofun
  | some t => exact calm_pure _

theorem calm_callOf (n : Note) : Calm (callOf n) := by
  unfold callOf
  split
  · exact calm_fail nofun
  · exact calm_fail nofun
  · exact calm_pure _

theorem calm_isTrivial (e : Expr) : Calm (isTrivial e) := by
  unfold isTrivial
  split
  · exact calm_pure _
  · exact (calm_varOf? _).bind fun _ => calm_pure _
  · exact calm_pure _

theorem calm_emitBinary (op : BinaryOp) (l r : Ir.Temp) (ty : Ty) : Calm (emitBinary op l r ty) := by
  unfold emitBinary
  cases checkFor? op l r ty with
  | none => exact calm_emitValue _
  | some check => exact (calm_emit _).bind fun _ => calm_emitValue _

theorem calm_emitUnary (op : UnaryOp) (t : Ir.Temp) (ty : Ty) : Calm (emitUnary op t ty) := by
  unfold emitUnary
  split
  · exact (calm_emit _).bind fun _ => calm_emitValue _
  · exact calm_emitValue _

theorem calm_startLogical (op : BinaryOp) (left : Ir.Temp) : Calm (startLogical op left) :=
  (calm_declareJoin _).bind fun _ => (calm_emit _).bind fun _ => (calm_freshLabel _).bind fun _ =>
    (calm_freshLabel _).bind fun _ => (calm_endWith _).bind fun _ => calm_pure _

theorem calm_emitContainerCall (n : Note) (method : ContainerMethod) (object : Ir.Temp)
    (args : List Ir.Temp) : Calm (emitContainerCall n method object args) := by
  unfold emitContainerCall
  split
  · exact (calm_emit _).bind fun _ => calm_pure _
  · exact (calm_emitValue _).bind fun _ => calm_pure _
  · exact (calm_emitValue _).bind fun _ => calm_pure _
  · split
    · exact (calm_emitValue _).bind fun _ => calm_pure _
    · exact calm_fail nofun
  · split
    · exact (calm_emitValue _).bind fun _ => calm_pure _
    · exact calm_fail nofun
  · exact (calm_emit _).bind fun _ => calm_pure _
  · exact (calm_emitValue _).bind fun _ => calm_pure _
  · exact (calm_emit _).bind fun _ => calm_pure _
  · exact calm_fail nofun

theorem calm_prints (args : List Ir.Temp) : Calm (args.forM fun value => emit (.print value)) := by
  induction args with
  | nil => exact calm_pure _
  | cons t rest ih => exact (calm_emit _).bind fun _ => ih

theorem calm_emitPlainCall (n : Note) (target : CallTarget) (hasResult : Bool) (args : List Ir.Temp) :
    Calm (emitPlainCall n target hasResult args) := by
  unfold emitPlainCall
  split
  · exact calm_emitResult _ _
  · exact (calm_prints args).bind fun _ => calm_pure _
  · exact calm_emitResult _ _
  · exact calm_fail nofun

theorem calm_emitMethodCall (n : Note) (target : CallTarget) (hasResult : Bool) (receiver : Ir.Temp)
    (args : List Ir.Temp) : Calm (emitMethodCall n target hasResult receiver args) := by
  unfold emitMethodCall
  split
  · exact calm_emitResult _ _
  · exact (calm_emitValue _).bind fun _ => calm_pure _
  · exact calm_emitContainerCall _ _ _ _
  · exact calm_fail nofun

theorem calm_lowerBreak : Calm lowerBreak := by
  refine calm_get.bind fun b => ?_
  split
  · exact calm_fail nofun
  · exact (calm_unwindTo _).bind fun _ => calm_jump _

theorem calm_lowerContinue : Calm lowerContinue := by
  refine calm_get.bind fun b => ?_
  split
  · exact calm_fail nofun
  · exact (calm_unwindTo _).bind fun _ => calm_jump _

/-! ## Steps that agree -/

/-- Two contexts of one function in which lowering is compared. -/
structure Comparison where
  left : Context
  right : Context
  sameName : left.function = right.function
  /-- That lowering gives up with the error is no matter of new instances of the prototype. -/
  allows : Error → String → Prop
  allows_of_ne : ∀ e proto, e.cause ≠ .endlessInstance proto → allows e proto

/-- A context by itself, where no instance is to be without end. -/
abbrev Context.itself (c : Context) : Comparison where
  left := c
  right := c
  sameName := rfl
  allows e proto := e.cause ≠ .endlessInstance proto
  allows_of_ne _ _ h := h

instance : Coe Context Comparison := ⟨Context.itself⟩

variable {c : Comparison}

/-- The steps do the same, and if they fail then with an error that is allowed. -/
structure Agrees (c : Comparison) (m m' : Lower α) : Prop where
  same : ∀ b, m c.left b = m' c.right b
  calm : ∀ b e proto, m c.left b = .error e → c.allows e proto

theorem Calm.agrees (hm : Calm m) : Agrees c m m where
  same := hm.same c.left c.right c.sameName
  calm b e proto he := c.allows_of_ne e proto (hm.ends c.left b e proto he)

theorem Agrees.bind (hm : Agrees c m m') (hf : ∀ a, Agrees c (f a) (f' a)) :
    Agrees c (m >>= f) (m' >>= f') where
  same b := by
    rw [bind_apply, bind_apply, ← hm.same b]
    cases m c.left b with
    | error e => rfl
    | ok r => exact (hf r.1).same r.2
  calm b e proto he := by
    rw [bind_apply] at he
    cases hrun : m c.left b with
    | error e' =>
        rw [hrun] at he
        cases he
        exact hm.calm b _ proto hrun
    | ok r =>
        rw [hrun] at he
        exact (hf r.1).calm r.2 e proto he

/-- A step that asks for nothing stands before steps that agree. -/
theorem Calm.before (hm : Calm m) (hf : ∀ a, Agrees c (f a) (f' a)) : Agrees c (m >>= f) (m >>= f') :=
  hm.agrees.bind hf

theorem Agrees.inScope (hm : Agrees c m m') : Agrees c (inScope m) (inScope m') :=
  (calm_modify _).before fun _ => hm.bind fun _ => ((calm_modify _).bind fun _ => calm_pure _).agrees

theorem Agrees.withJumps (hm : Agrees c m m') (breakLabel : String) (continueLabel : Option String) :
    Agrees c (withJumps breakLabel continueLabel m) (withJumps breakLabel continueLabel m') :=
  (calm_modify _).before fun _ => hm.bind fun _ => ((calm_modify _).bind fun _ => calm_pure _).agrees

theorem Agrees.withoutLocals (hm : Agrees c m m') : Agrees c (withoutLocals m) (withoutLocals m') :=
  calm_get.before fun _ => (calm_modify _).before fun _ => hm.bind fun _ =>
    ((calm_modify _).bind fun _ => calm_pure _).agrees

end ProtoScript.Lowering
