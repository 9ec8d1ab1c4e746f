import ProtoScript.Proofs.Lowering.Point

set_option autoImplicit false

/-!
# Operations and their checks

An operator of the source becomes an instruction, on integers with a check before it. The two
together have the value of the operator or stop with its fault, on operands of a type to which the
operator applies. Where the check has been passed, the machine is never asked for a value that the
standard leaves open (`compute_ne_stuck`).
-/

namespace ProtoScript

/-! ## Results behind a check -/

namespace Constant

/-- An operation on `int`s without a fault has a result, or its quotient is no `int`. -/
theorem compute_int_ne_stuck {op : BinaryOp} {x y : Int64} (hop : op.isLogical = false)
    (h : op.fault? (.int x) (.int y) = none) : compute op (.int x) (.int y) ≠ .error .stuck := by
  cases op with
  | and | or => cases hop
  | add | sub | mul =>
      simp only [BinaryOp.fault?, BinaryOp.fits, toInt?, BinaryOp.exactResult?, Constant.ty,
        Option.all_some, ← isSome_fitInt?] at h
      split at h
      case isTrue hr =>
        obtain ⟨v, hv⟩ := Option.isSome_iff_exists.1 hr
        simp [compute, binary?, intBinary?, hv]
      case isFalse => cases h
  | div | mod =>
      have hy : y ≠ 0 := by
        rintro rfl
        simp [BinaryOp.fault?, toInt?] at h
      simp only [compute, binary?, intBinary?, if_neg hy]
      cases fitInt? (x.toInt.tdiv y.toInt) <;> simp [divided, hy]
  | shiftLeft | shiftRight =>
      have hwidth : (if (int x).ty = .byte then 8 else 64 : Int) = 64 := rfl
      simp only [BinaryOp.fault?, toInt?, Option.all_some, hwidth] at h
      split at h
      case isTrue hr =>
        have hrange : 0 ≤ y.toInt ∧ y.toInt < 64 := by simpa using hr
        simp [compute, binary?, intBinary?, hrange]
      case isFalse => cases h
  | _ => simp [compute, binary?, intBinary?, compared?]

/-- An operation on bytes without a fault has a result. -/
theorem compute_byte_ne_stuck {op : BinaryOp} {x y : UInt8} (hop : op.isLogical = false)
    (h : op.fault? (.byte x) (.byte y) = none) :
    compute op (.byte x) (.byte y) ≠ .error .stuck := by
  cases op with
  | and | or => cases hop
  | add | sub | mul =>
      simp only [BinaryOp.fault?, BinaryOp.fits, toInt?, BinaryOp.exactResult?, Constant.ty,
        Option.all_some, ← isSome_fitByte?] at h
      split at h
      case isTrue hr =>
        obtain ⟨v, hv⟩ := Option.isSome_iff_exists.1 hr
        simp [compute, binary?, byteBinary?, hv]
      case isFalse => cases h
  | div | mod =>
      have hy : y ≠ 0 := by
        rintro rfl
        simp [BinaryOp.fault?, toInt?] at h
      simp [compute, binary?, byteBinary?, hy]
  | shiftLeft | shiftRight =>
      have hwidth : (if (byte x).ty = .byte then 8 else 64 : Int) = 8 := rfl
      simp only [BinaryOp.fault?, toInt?, Option.all_some, hwidth] at h
      split at h
      case isTrue hr =>
        have hrange : y < 8 := by
          simp only [Bool.and_eq_true, decide_eq_true_eq] at hr
          have height : (8 : UInt8).toNat = 8 := rfl
          exact UInt8.lt_iff_toNat_lt.2 (by omega)
        simp [compute, binary?, byteBinary?, hrange]
      case isFalse => cases h
  | _ => simp [compute, binary?, byteBinary?, compared?]

/-- An operation that passed its check has a result or a fault, on operands of a type to which
it applies. -/
theorem compute_ne_stuck {op : BinaryOp} {a b : Constant} {τ : Ty} (hτ : τ.isWord) (ha : a.ty = τ)
    (hb : b.ty = τ) (hop : op.isLogical = false) (happ : Analysis.binaryApplies op τ)
    (h : op.fault? a b = none) : compute op a b ≠ .error .stuck := by
  rcases cases_of_isWord hτ ha hb with ⟨x, y, rfl, rfl, rfl⟩ | ⟨x, y, rfl, rfl, rfl⟩ |
    ⟨x, y, rfl, rfl, rfl⟩
  · exact compute_int_ne_stuck hop h
  · exact compute_byte_ne_stuck hop h
  · cases op with
    | equal | notEqual => simp [compute, binary?, boolBinary?]
    | _ => cases happ

end Constant

namespace Lowering

open Ir

/-! ## Checks -/

/-- The check that a unary operation needs. -/
def negCheck? (op : UnaryOp) (operand : Temp) (ty : Ty) : Option Check :=
  if op == .neg && ty.isInteger then some (.negOverflow operand ty) else none

/-- Operands of a type that no check speaks of have no fault. -/
theorem fault?_of_checkFor? {op : BinaryOp} {l r : Temp} {a b : Constant} {τ : Ty} (hτ : τ.isWord)
    (ha : a.ty = τ) (hb : b.ty = τ) (happ : op.isLogical ∨ Analysis.binaryApplies op τ)
    (h : checkFor? op l r τ = none) : op.fault? a b = none := by
  rcases Constant.cases_of_isWord hτ ha hb with ⟨x, y, rfl, rfl, rfl⟩ | ⟨x, y, rfl, rfl, rfl⟩ |
    ⟨x, y, rfl, rfl, rfl⟩
  · cases op with
    | add | sub | mul | div | mod | shiftLeft | shiftRight => cases h
    | _ => rfl
  · cases op with
    | add | sub | mul | div | mod | shiftLeft | shiftRight => cases h
    | _ => rfl
  · cases op with
    | and | or | equal | notEqual => rfl
    | _ => rcases happ with happ | happ <;> cases happ

section

variable {R S : Type} {M : Machine R S} {σ : State R S}

theorem runCheck_of_holds? {c : Check} {values : List (Value R)} {v : Bool}
    (hread : σ.readAll c.operands = .ok values) (hholds : M.holds? σ.rest c values = some v) :
    M.runCheck c σ = if v then .ok σ else .error (.failed (.stopped c.fault) σ.rest) := by
  simp only [Machine.runCheck, hread, ok_bind, hholds]
  cases v <;> rfl

/-- The check before an operation fails if and only if the operation has a fault. -/
theorem runCheck_checkFor? {op : BinaryOp} {l r : Temp} {a b : Constant} {c : Check}
    (hb : b.ty = a.ty) (h : checkFor? op l r a.ty = some c) (hl : σ.temps l = some (.scalar a))
    (hr : σ.temps r = some (.scalar b)) :
    M.runCheck c σ = match op.fault? a b with
      | some fault => .error (.failed (.stopped fault) σ.rest)
      | none => .ok σ := by
  have hint : a.ty.isInteger := by
    by_contra hint
    simp [checkFor?, hint] at h
  obtain ⟨y, hy⟩ : ∃ y, b.toInt? = some y := by
    rw [← hb] at hint
    cases b with
    | int v => exact ⟨_, rfl⟩
    | byte v => exact ⟨_, rfl⟩
    | _ => cases hint
  have hleft : σ.readAll [l, r] = .ok [.scalar a, .scalar b] := by
    simp [State.readAll, State.read_of_some hl, State.read_of_some hr]
  have hright : σ.readAll [r] = .ok [.scalar b] := by
    simp [State.readAll, State.read_of_some hr]
  simp only [checkFor?, hint, if_true] at h
  obtain ⟨values, v, hread, hholds, hfault⟩ : ∃ values v, σ.readAll c.operands = .ok values ∧
      M.holds? σ.rest c values = some v ∧ op.fault? a b = if v then none else some c.fault := by
    cases op with
    | add | sub | mul =>
        cases h
        refine ⟨_, _, hleft, ?_, rfl⟩
        simp [Machine.holds?, hb]
    | div | mod =>
        cases h
        refine ⟨_, y != 0, hright, ?_, ?_⟩
        · simp [Machine.holds?, hy]
        · by_cases hzero : y = 0 <;> simp [BinaryOp.fault?, hy, hzero, Check.fault]
    | shiftLeft | shiftRight =>
        cases h
        refine ⟨_, 0 ≤ y && y < ((if a.ty = .byte then 8 else 64 : Nat) : Int), hright, ?_, ?_⟩
        · simp only [Machine.holds?, hy, Option.map_some]
        · have hwidth : ((if a.ty = .byte then 8 else 64 : Nat) : Int) =
              if a.ty = .byte then 8 else 64 := by split <;> rfl
          simp only [BinaryOp.fault?, hy, Option.all_some, Check.fault, hwidth]
    | _ => cases h
  rw [runCheck_of_holds? hread hholds, hfault]
  cases v <;> rfl

/-- An operation on one value that needs no check has a result. -/
theorem unary?_of_negCheck? {op : UnaryOp} {t : Temp} {a : Constant} (hτ : a.ty.isWord)
    (happ : Analysis.unaryApplies op a.ty) (h : negCheck? op t a.ty = none) :
    ∃ v, Constant.unary? op a = some v := by
  cases a with
  | int x | byte x =>
      cases op with
      | neg => cases h
      | not => cases happ
      | bitNot => exact ⟨_, rfl⟩
  | bool v =>
      cases op with
      | not => exact ⟨_, rfl⟩
      | neg | bitNot => cases happ
  | _ => cases hτ

theorem runCheck_negOverflow {t : Temp} {a : Constant} (hint : a.ty.isInteger)
    (ht : σ.temps t = some (.scalar a)) :
    M.runCheck (.negOverflow t a.ty) σ =
      if (Constant.unary? .neg a).isSome then .ok σ
      else .error (.failed (.stopped .negOverflow) σ.rest) := by
  have hread : σ.readAll [t] = .ok [.scalar a] := by
    simp [State.readAll, State.read_of_some ht]
  refine runCheck_of_holds? hread ?_
  cases a with
  | int x =>
      simp [Machine.holds?, Constant.unary?, Constant.toInt?, Constant.isSome_fitInt?, Constant.ty]
  | byte x =>
      simp [Machine.holds?, Constant.unary?, Constant.toInt?, Constant.isSome_fitByte?, Constant.ty]
  | _ => cases hint

end

/-! ## Writing an operation -/

/-- The builder with a check in the current block, if there is one to write. -/
def Builder.emitCheck? (b : Builder) : Option Check → Builder
  | some c => b.emit (.check c)
  | none => b

theorem runs_emitBinary {c : Context} {b : Builder} (op : BinaryOp) (l r : Temp) (ty : Ty) :
    Runs c (emitBinary op l r ty) b b.nextTemp
      ((b.emitCheck? (checkFor? op l r ty)).takeTemp.emit (.binary b.nextTemp op l r)) := by
  unfold emitBinary
  cases checkFor? op l r ty with
  | none => exact runs_emitValue _
  | some check => exact (runs_emit _).bind (runs_emitValue _)

theorem runs_emitUnary {c : Context} {b : Builder} (op : UnaryOp) (t : Temp) (ty : Ty) :
    Runs c (emitUnary op t ty) b b.nextTemp
      ((b.emitCheck? (negCheck? op t ty)).takeTemp.emit (.unary b.nextTemp op t)) := by
  unfold emitUnary negCheck?
  split
  · exact (runs_emit _).bind (runs_emitValue _)
  · exact runs_emitValue _

theorem Grown.emitCheck? {b b' : Builder} (h : Grown b b') (check? : Option Check) :
    Grown b (b'.emitCheck? check?) := by
  cases check? with
  | none => exact h
  | some c => exact h.emit _

namespace Target

variable {R W : Type} {T : Target R W} {b b' : Builder} {σ σ' : State R (Frame R W)}

/-- The run comes to the second point with the value in the temporary. -/
def Gives (T : Target R W) (b : Builder) (σ : State R (Frame R W)) (b' : Builder) (t : Temp)
    (v : Constant) : Prop :=
  ∃ σ', T.Reaches b σ b' σ' ∧ σ'.temps t = some (.scalar v) ∧ Undisturbed b σ σ'

theorem Gives.of_reaches {t : Temp} {v : Constant} (h : T.Reaches b σ b' σ')
    (hu : Undisturbed b σ σ') (hs : Step b b') {b'' : Builder} (hg : T.Gives b' σ' b'' t v) :
    T.Gives b σ b'' t v := by
  obtain ⟨τ, hreach, ht, hτ⟩ := hg
  exact ⟨τ, h.trans hreach, ht, hu.trans (hτ.of_step hs)⟩

/-- An instruction that computes a value for a fresh temporary. -/
theorem does_emitValue {i : Instr} {x : Except Failure Constant}
    (hF : Extends T.function (b.takeTemp.emit i))
    (hexec : T.machine.exec i σ =
      σ.attempt x >>= fun v => .ok (σ.write b.nextTemp (.scalar v))) :
    T.Does b σ x (T.Gives b σ (b.takeTemp.emit i) b.nextTemp) := by
  cases x with
  | ok v =>
      exact ⟨_, reaches_emit (b := b.takeTemp) hexec, State.write_temps_self _ _,
        Undisturbed.write (Nat.le_refl _) _⟩
  | error f => exact .inr (ends_of_failed (b := b.takeTemp) hF hexec)

/-- A check and the operation behind it: the check fails only where the operation has a fault, and
where it is passed the operation has its value. -/
theorem does_checked {check? : Option Check} {i : Instr} {x : Except Failure Constant}
    (hb : b.ended = none) (hF : Extends T.function ((b.emitCheck? check?).takeTemp.emit i))
    (hcheck : ∀ c, check? = some c → T.machine.runCheck c σ = .ok σ ∨
      ∃ fault, x = .error (.stopped fault) ∧
        T.machine.runCheck c σ = .error (.failed (.stopped fault) σ.rest))
    (hexec : (∀ c, check? = some c → T.machine.runCheck c σ = .ok σ) →
      T.machine.exec i σ = σ.attempt x >>= fun v => .ok (σ.write b.nextTemp (.scalar v))) :
    T.Does b σ x (T.Gives b σ ((b.emitCheck? check?).takeTemp.emit i) b.nextTemp) := by
  cases check? with
  | none => exact does_emitValue hF (hexec (by simp))
  | some c =>
      rcases hcheck c rfl with hpass | ⟨fault, rfl, hfail⟩
      · have hreach : T.Reaches b σ (b.emit (.check c)) σ := reaches_emit hpass
        have hsteps : Step b (b.emit (.check c)) := Step.emit hb _
        refine hreach.does ((does_emitValue hF (hexec ?_)).mono fun v _ hv => ?_)
        · rintro _ ⟨⟩
          exact hpass
        · exact hv.of_reaches hreach (Undisturbed.refl b σ) hsteps
      · have hopen : (b.emit (.check c)).takeTemp.ended = none := hb
        exact .inr (ends_of_failed ((Step.emit hopen i).back _ hF) hfail)

/-- An operation on two values. -/
theorem does_emitBinary {op : BinaryOp} {l r : Temp} {x y : Constant} {τ : Ty} (hb : b.ended = none)
    (hF : Extends T.function
      ((b.emitCheck? (checkFor? op l r τ)).takeTemp.emit (.binary b.nextTemp op l r)))
    (hτ : τ.isWord) (hx : x.ty = τ) (hy : y.ty = τ) (hop : op.isLogical = false)
    (happ : Analysis.binaryApplies op τ) (hl : σ.temps l = some (.scalar x))
    (hr : σ.temps r = some (.scalar y)) :
    T.Does b σ (op.apply x y) (T.Gives b σ
      ((b.emitCheck? (checkFor? op l r τ)).takeTemp.emit (.binary b.nextTemp op l r)) b.nextTemp) := by
  subst hx
  have hcheck : ∀ c, checkFor? op l r x.ty = some c → T.machine.runCheck c σ =
      match op.fault? x y with
      | some fault => .error (.failed (.stopped fault) σ.rest)
      | none => .ok σ := fun c hc => runCheck_checkFor? hy hc hl hr
  refine does_checked hb hF (fun c hc => ?_) fun hpass => ?_
  · rw [hcheck c hc, BinaryOp.apply]
    cases op.fault? x y with
    | none => exact .inl rfl
    | some fault => exact .inr ⟨fault, rfl, rfl⟩
  · have hfault : op.fault? x y = none := by
      cases hc : checkFor? op l r x.ty with
      | none => exact fault?_of_checkFor? hτ rfl hy (.inr happ) hc
      | some c =>
          have hok := hpass c hc
          rw [hcheck c hc] at hok
          cases hf : op.fault? x y with
          | none => rfl
          | some fault =>
              rw [hf] at hok
              cases hok
    have hne := Constant.compute_ne_stuck hτ rfl hy hop happ hfault
    have hbinary : T.machine.binary op (.scalar x) (.scalar y) =
        (Constant.compute op x y).map .scalar := by
      simp only [Target.machine, Platform.machine, Platform.binaryValue]
      cases hc : Constant.compute op x y with
      | ok v => rfl
      | error f =>
          cases f with
          | stuck => exact absurd hc hne
          | stopped fault => rfl
          | exhausted => rfl
    rw [BinaryOp.apply, hfault]
    simp only [Machine.exec, State.read_of_some hl, State.read_of_some hr, ok_bind, hbinary]
    cases Constant.compute op x y <;> rfl

/-- An operation on one value. -/
theorem does_emitUnary {op : UnaryOp} {t : Temp} {x : Constant} (hb : b.ended = none)
    (hF : Extends T.function
      ((b.emitCheck? (negCheck? op t x.ty)).takeTemp.emit (.unary b.nextTemp op t)))
    (hτ : x.ty.isWord) (happ : Analysis.unaryApplies op x.ty) (ht : σ.temps t = some (.scalar x)) :
    T.Does b σ (op.apply x) (T.Gives b σ
      ((b.emitCheck? (negCheck? op t x.ty)).takeTemp.emit (.unary b.nextTemp op t)) b.nextTemp) := by
  have hcheck : ∀ c, negCheck? op t x.ty = some c → op = .neg ∧ x.ty.isInteger ∧
      T.machine.runCheck c σ = if (Constant.unary? op x).isSome then .ok σ
        else .error (.failed (.stopped .negOverflow) σ.rest) := by
    intro c hc
    unfold negCheck? at hc
    split at hc
    case isTrue hneg =>
      obtain ⟨hop, hint⟩ : op = .neg ∧ x.ty.isInteger := by simpa using hneg
      cases hc
      subst hop
      exact ⟨rfl, hint, runCheck_negOverflow hint ht⟩
    case isFalse => cases hc
  refine does_checked hb hF (fun c hc => ?_) fun hpass => ?_
  · obtain ⟨hop, hint, hrun⟩ := hcheck c hc
    rw [hrun, UnaryOp.apply]
    cases Constant.unary? op x with
    | some v => exact .inl rfl
    | none => exact .inr ⟨.negOverflow, by simp [hop, hint], rfl⟩
  · obtain ⟨v, hv⟩ : ∃ v, Constant.unary? op x = some v := by
      cases hc : negCheck? op t x.ty with
      | none => exact unary?_of_negCheck? hτ happ hc
      | some c =>
          have hok := hpass c hc
          obtain ⟨_, _, hrun⟩ := hcheck c hc
          rw [hrun] at hok
          split at hok
          case isTrue hsome => exact Option.isSome_iff_exists.1 hsome
          case isFalse => cases hok
    have hunary : T.machine.unary op (.scalar x) = .ok (.scalar v) := T.machine.unary_scalar hv
    rw [UnaryOp.apply, hv]
    simp only [Machine.exec, State.read_of_some ht, ok_bind, hunary]
    rfl

end Target

end Lowering

end ProtoScript
