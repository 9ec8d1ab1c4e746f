import ProtoScript.Constant.Arith
import ProtoScript.Ir.Basic
import ProtoScript.Proofs.Ir.Validate

set_option autoImplicit false

/-!
# Running instructions

What instructions do. A machine fixes what the instructions leave open: the operators where
constants have no result of their own, and every instruction beyond constants, copies, operators,
selections and checks. The latter may do anything to the rest of the state (variables, containers,
objects, exception handlers, output), of which nothing is assumed here, and define no temporary but
their own.

A run of instructions gives the final state or says why it ended before. The reasons keep a failed
check apart from what has no meaning: a temporary without a value (`Halt.undefined`) and a check on
operands of another type than it names (`Halt.mistyped`).
-/

namespace ProtoScript

/-! ## Faults -/

/-- What a safety check that fails reports. -/
inductive Fault where
  | overflow
  | negOverflow
  | divZero
  | shiftRange
  | indexBounds
  | mapKey
  deriving DecidableEq, Repr

/-- The code of a fault. -/
def Fault.code : Fault → String
  | overflow => "R1001"
  | negOverflow => "R1002"
  | divZero => "R1003"
  | shiftRange => "R1004"
  | indexBounds => "R1005"
  | mapKey => "R1006"

/-- Why an operation has no result. -/
inductive Failure where
  | stopped (fault : Fault)
  /-- The operation has no meaning. -/
  | stuck
  /-- The run was cut off. -/
  | exhausted
  deriving DecidableEq, Repr

/-! ## Ranges -/

/-- The number is one of the type; types other than `int` and `byte` have no bounds. -/
def Ty.inRange : Ty → Int → Bool
  | .prim .int, n => Int64.minValue.toInt ≤ n && n ≤ Int64.maxValue.toInt
  | .prim .byte, n => 0 ≤ n && n < UInt8.size
  | _, _ => true

/-- A number fits if and only if it is in range. -/
theorem Constant.isSome_fitInt? (n : Int) : (Constant.fitInt? n).isSome = Ty.int.inRange n := by
  simp only [Constant.fitInt?, Ty.int, Ty.inRange]
  split
  case isTrue h => simpa using h
  case isFalse h => simpa using h

theorem Constant.isSome_fitByte? (n : Int) : (Constant.fitByte? n).isSome = Ty.byte.inRange n := by
  simp only [Constant.fitByte?, Ty.byte, Ty.inRange]
  split
  case isTrue h => simpa using h
  case isFalse h => simpa using h

/-- The exact result of an operation that can leave the range of its operands. -/
def BinaryOp.exactResult? : BinaryOp → Int → Int → Option Int
  | .add, a, b => some (a + b)
  | .sub, a, b => some (a - b)
  | .mul, a, b => some (a * b)
  | .div, a, b => if b = 0 then none else some (a.tdiv b)
  | _, _, _ => none

/-- The exact result of an operation on two constants is a number of the given type. Constants that
are no integers are not bounded. -/
def BinaryOp.fits (op : BinaryOp) (ty : Ty) (a b : Constant) : Bool :=
  match a.toInt?, b.toInt? with
  | some x, some y => (op.exactResult? x y).all ty.inRange
  | _, _ => true

namespace Ir

/-! ## States -/

/-- A value at run time: a scalar, or a reference to something kept in the rest of the state. -/
inductive Value (R : Type) where
  | scalar (c : Constant)
  | ref (r : R)

/-- What a run changes: the temporaries, and everything else. -/
structure State (R S : Type) where
  temps : Temp → Option (Value R)
  rest : S

/-- Why a run ended before its last instruction. -/
inductive Halt (R S : Type) where
  /-- A check failed, or an operation has no result. -/
  | failed (failure : Failure) (rest : S)
  | thrown (exception : Value R) (state : State R S)
  /-- A temporary without a value was read. -/
  | undefined (t : Temp)
  /-- A check was applied to operands of another type than it names. -/
  | mistyped (c : Check)

/-- What an instruction does beyond the temporaries. -/
inductive Effect (R S : Type) where
  | done (value : Option (Value R)) (rest : S)
  | failed (failure : Failure) (rest : S)
  | thrown (exception : Value R) (rest : S)

namespace State

variable {R S : Type}

/-- The value of a temporary. -/
def read (σ : State R S) (t : Temp) : Except (Halt R S) (Value R) :=
  match σ.temps t with
  | some v => .ok v
  | none => .error (.undefined t)

/-- The values of temporaries, in order. -/
def readAll (σ : State R S) : List Temp → Except (Halt R S) (List (Value R))
  | [] => .ok []
  | t :: rest => do
    let v ← σ.read t
    return v :: (← σ.readAll rest)

/-- Defines a temporary. -/
def write (σ : State R S) (d : Temp) (v : Value R) : State R S :=
  { σ with temps := fun t => if t = d then some v else σ.temps t }

/-- Defines a temporary, if there is one to define and a value for it. -/
def write? (σ : State R S) : Option Temp → Option (Value R) → State R S
  | some d, some v => σ.write d v
  | _, _ => σ

/-- The state after an instruction with the given effect. -/
def after (σ : State R S) (d : Option Temp) : Effect R S → Except (Halt R S) (State R S)
  | .done v s => .ok { σ.write? d v with rest := s }
  | .failed f s => .error (.failed f s)
  | .thrown e s => .error (.thrown e { σ with rest := s })

/-- The result of an operation. -/
def attempt {α : Type} (σ : State R S) : Except Failure α → Except (Halt R S) α
  | .ok a => .ok a
  | .error f => .error (.failed f σ.rest)

end State

/-! ## Machines -/

/-- What the instructions leave open. -/
structure Machine (R S : Type) where
  binary : BinaryOp → Value R → Value R → Except Failure (Value R)
  unary : UnaryOp → Value R → Except Failure (Value R)
  cast : Value R → Ty → Except Failure (Value R)
  /-- Where constants have a result, it is the result at run time. -/
  binary_scalar : ∀ {op : BinaryOp} {a b c : Constant}, Constant.binary? op a b = some c →
    binary op (.scalar a) (.scalar b) = .ok (.scalar c)
  unary_scalar : ∀ {op : UnaryOp} {a c : Constant}, Constant.unary? op a = some c →
    unary op (.scalar a) = .ok (.scalar c)
  cast_scalar : ∀ {a c : Constant} {ty : Ty}, Constant.cast? a ty = some c →
    cast (.scalar a) ty = .ok (.scalar c)
  /-- The number of items of a container or string. -/
  length? : S → Value R → Option Nat
  /-- Whether a map holds a key. -/
  hasKey? : S → Value R → Value R → Option Bool
  /-- Any other instruction; it sees the whole state. -/
  other : Instr → State R S → Effect R S

/-- The type that a check names for its operands. -/
def Check.ty? : Check → Option Ty
  | overflow _ _ _ ty | negOverflow _ ty => some ty
  | _ => none

/-- The fault a check reports. -/
def Check.fault : Check → Fault
  | overflow .. => .overflow
  | negOverflow .. => .negOverflow
  | divZero _ => .divZero
  | shiftRange .. => .shiftRange
  | indexBounds .. => .indexBounds
  | mapKey .. => .mapKey

namespace Machine

variable {R S : Type} (M : Machine R S)

/-- The condition of a check on operands with the given values; there is none if they are not of the
kind that the check speaks of. -/
def holds? (s : S) : Check → List (Value R) → Option Bool
  | .overflow op _ _ ty, [.scalar a, .scalar b] =>
    if a.ty = ty ∧ b.ty = ty then some (op.fits ty a b) else none
  | .negOverflow _ ty, [.scalar a] =>
    if a.ty = ty then some (a.toInt?.all fun x => ty.inRange (-x)) else none
  | .divZero _, [.scalar a] => a.toInt?.map fun x => x != 0
  | .shiftRange _ w, [.scalar a] => a.toInt?.map fun x => 0 ≤ x && x < (w : Int)
  | .indexBounds _ _, [object, .scalar (.int i)] =>
    (M.length? s object).map fun (n : Nat) => 0 ≤ i.toInt && i.toInt < (n : Int)
  | .mapKey _ _, [map, key] => M.hasKey? s map key
  | _, _ => none

/-- Runs a check: it changes nothing. -/
def runCheck (c : Check) (σ : State R S) : Except (Halt R S) (State R S) := do
  let values ← σ.readAll c.operands
  match M.holds? σ.rest c values with
  | some true => return σ
  | some false => .error (.failed (.stopped c.fault) σ.rest)
  | none => .error (if c.ty?.isSome then .mistyped c else .failed .stuck σ.rest)

/-- Runs an instruction about which nothing is known. -/
def runOther (i : Instr) (σ : State R S) : Except (Halt R S) (State R S) := do
  let _ ← σ.readAll i.operands
  σ.after i.dest? (M.other i σ)

/-- Runs an instruction. -/
def exec (i : Instr) (σ : State R S) : Except (Halt R S) (State R S) :=
  match i with
  | .const d v => .ok (σ.write d (.scalar v))
  | .copy d s => do return σ.write d (← σ.read s)
  | .binary d op l r => do
    let a ← σ.read l
    let b ← σ.read r
    return σ.write d (← σ.attempt (M.binary op a b))
  | .unary d op t => do
    let a ← σ.read t
    return σ.write d (← σ.attempt (M.unary op a))
  | .cast d s ty => do
    let a ← σ.read s
    return σ.write d (← σ.attempt (M.cast a ty))
  | .select d c a b => do
    let cond ← σ.read c
    let x ← σ.read a
    let y ← σ.read b
    match cond with
    | .scalar (.bool true) => return σ.write d x
    | .scalar (.bool false) => return σ.write d y
    | _ => .error (.failed .stuck σ.rest)
  | .check c => M.runCheck c σ
  | i => M.runOther i σ

/-- Every container has the same length and the same keys as before. -/
structure Keeps (s s' : S) : Prop where
  length {r : Value R} {n : Nat} : M.length? s r = some n → M.length? s' r = some n
  hasKey {r k : Value R} {b : Bool} : M.hasKey? s r k = some b → M.hasKey? s' r k = some b

/-- An instruction without side effects changes no length and no keys of a container. -/
def Quiet : Prop :=
  ∀ {i : Instr} {σ : State R S} {v : Option (Value R)} {s : S}, i.hasSideEffects = false →
    M.other i σ = .done v s → M.Keeps σ.rest s

/-- Runs instructions in order. -/
def execAll : List Instr → State R S → Except (Halt R S) (State R S)
  | [], σ => .ok σ
  | i :: rest, σ => do execAll rest (← M.exec i σ)

end Machine

/-! ## Reading and writing -/

/-- A computation in steps succeeds if each step does. -/
theorem bind_eq_ok {ε α β : Type} {x : Except ε α} {f : α → Except ε β} {b : β} :
    (x >>= f) = .ok b ↔ ∃ a, x = .ok a ∧ f a = .ok b := by
  cases x with
  | error e => simp [bind, Except.bind]
  | ok a => simp [bind, Except.bind]

/-- A computation in steps fails if one of its steps fails. -/
theorem bind_eq_error {ε α β : Type} {x : Except ε α} {f : α → Except ε β} {e : ε} :
    (x >>= f) = .error e ↔ x = .error e ∨ ∃ a, x = .ok a ∧ f a = .error e := by
  cases x with
  | error e => simp [bind, Except.bind]
  | ok a => simp [bind, Except.bind]

/-- The computation throws no exception. -/
def Calm {R S α : Type} (m : Except (Halt R S) α) : Prop := ∀ x τ, m ≠ .error (.thrown x τ)

theorem calm_ok {R S α : Type} (a : α) : Calm (R := R) (S := S) (.ok a) := nofun

theorem Calm.bind {R S α β : Type} {m : Except (Halt R S) α} {f : α → Except (Halt R S) β} (hm : Calm m)
    (hf : ∀ a, Calm (f a)) : Calm (m >>= f) := by
  intro x τ h
  obtain h | ⟨a, _, h⟩ := bind_eq_error.1 h
  · exact hm x τ h
  · exact hf a x τ h

@[simp] theorem ok_bind {ε α β : Type} (a : α) (f : α → Except ε β) :
    ((Except.ok a : Except ε α) >>= f) = f a := rfl

@[simp] theorem error_bind {ε α β : Type} (e : ε) (f : α → Except ε β) :
    ((Except.error e : Except ε α) >>= f) = .error e := rfl

@[simp] theorem pure_eq_ok {ε α : Type} (a : α) : (pure a : Except ε α) = .ok a := rfl

namespace State

variable {R S : Type} {σ : State R S}

theorem read_of_some {t : Temp} {v : Value R} (h : σ.temps t = some v) : σ.read t = .ok v := by
  simp [read, h]

theorem read_of_none {t : Temp} (h : σ.temps t = none) : σ.read t = .error (.undefined t) := by
  simp [read, h]

theorem read_eq_ok {t : Temp} {v : Value R} : σ.read t = .ok v ↔ σ.temps t = some v := by
  cases h : σ.temps t <;> simp [read, h]

@[simp] theorem write_temps_self (d : Temp) (v : Value R) : (σ.write d v).temps d = some v := by
  simp [write]

theorem write_temps_of_ne {d t : Temp} (v : Value R) (h : t ≠ d) :
    (σ.write d v).temps t = σ.temps t := by
  simp [write, h]

@[simp] theorem write?_none (d : Option Temp) : σ.write? d none = σ := by
  cases d <;> rfl

/-- Only the temporary itself is written. -/
theorem write?_temps_of_ne {d : Option Temp} {t : Temp} (v : Option (Value R))
    (h : d ≠ some t) : (σ.write? d v).temps t = σ.temps t := by
  cases d with
  | none => rfl
  | some d =>
      cases v with
      | none => rfl
      | some v => exact write_temps_of_ne v fun ht => h (by rw [ht])

/-- What is read depends on the temporaries that are read. -/
theorem readAll_congr {τ : State R S} {ts : List Temp} (h : ∀ t ∈ ts, σ.temps t = τ.temps t) :
    σ.readAll ts = τ.readAll ts := by
  induction ts with
  | nil => rfl
  | cons t rest ih =>
      have ht : σ.read t = τ.read t := by simp only [read, h t (by simp)]
      simp only [readAll, ht, ih fun u hu => h u (by simp [hu])]

/-- Reading fails only where there is no value. -/
theorem readAll_eq_error {ts : List Temp} {e : Halt R S} (h : σ.readAll ts = .error e) :
    ∃ t, e = .undefined t := by
  induction ts with
  | nil => cases h
  | cons t rest ih =>
      simp only [readAll] at h
      cases ht : σ.temps t with
      | none =>
          rw [read_of_none ht, error_bind] at h
          exact ⟨t, (Except.error.inj h).symm⟩
      | some v =>
          rw [read_of_some ht, ok_bind] at h
          cases hrest : σ.readAll rest with
          | error e' =>
              rw [hrest, error_bind] at h
              obtain rfl := Except.error.inj h
              exact ih hrest
          | ok vs =>
              rw [hrest, ok_bind] at h
              cases h

theorem calm_read {t : Temp} : Calm (σ.read t) := by
  unfold read
  split <;> exact nofun

theorem calm_readAll (ts : List Temp) : Calm (σ.readAll ts) := by
  intro x τ h
  obtain ⟨t, ht⟩ := readAll_eq_error h
  cases ht

theorem calm_attempt {α : Type} (r : Except Failure α) : Calm (σ.attempt r) := by
  cases r with
  | ok a => exact calm_ok a
  | error f => exact nofun

theorem length_of_readAll {ts : List Temp} {values : List (Value R)}
    (h : σ.readAll ts = .ok values) : values.length = ts.length := by
  induction ts generalizing values with
  | nil =>
      cases h
      rfl
  | cons t rest ih =>
      obtain ⟨v, _, h⟩ := bind_eq_ok.1 h
      obtain ⟨vs, hvs, h⟩ := bind_eq_ok.1 h
      cases h
      simp [ih hvs]

end State

/-! ## Runs -/

namespace Machine

variable {R S : Type} (M : Machine R S)

@[simp] theorem execAll_nil (σ : State R S) : M.execAll [] σ = .ok σ := rfl

@[simp] theorem execAll_cons (i : Instr) (rest : List Instr) (σ : State R S) :
    M.execAll (i :: rest) σ = (M.exec i σ >>= M.execAll rest) := rfl

theorem execAll_singleton (i : Instr) (σ : State R S) : M.execAll [i] σ = M.exec i σ := by
  cases h : M.exec i σ <;> simp [h]

theorem execAll_append (is js : List Instr) (σ : State R S) :
    M.execAll (is ++ js) σ = (M.execAll is σ >>= M.execAll js) := by
  induction is generalizing σ with
  | nil => rfl
  | cons i rest ih =>
      rw [List.cons_append, execAll_cons, execAll_cons]
      cases M.exec i σ with
      | error h => rfl
      | ok τ => exact ih τ

theorem calm_runCheck (c : Check) {σ : State R S} : Calm (M.runCheck c σ) := by
  refine (State.calm_readAll _).bind fun values => ?_
  split
  · exact calm_ok _
  · exact nofun
  · split <;> exact nofun

/-- A check changes nothing. -/
theorem eq_of_runCheck {c : Check} {σ τ : State R S} (h : M.runCheck c σ = .ok τ) : τ = σ := by
  obtain ⟨values, _, hv⟩ := bind_eq_ok.1 h
  split at hv
  · exact (Except.ok.inj hv).symm
  · cases hv
  · cases hv

theorem Keeps.refl (s : S) : M.Keeps s s := ⟨id, id⟩

/-- What an instruction that succeeds can do: it computes a value for its temporary from temporaries,
it is a check that has been passed, or the machine decides. -/
theorem exec_cases {i : Instr} {σ τ : State R S} (h : M.exec i σ = .ok τ) :
    (∃ d v, i.dest? = some d ∧ τ = σ.write d v) ∨ ((∃ c, i = .check c) ∧ τ = σ) ∨
      ∃ v s, M.other i σ = .done v s ∧ τ = { σ.write? i.dest? v with rest := s } := by
  unfold exec at h
  split at h
  case h_1 d v =>
    cases h
    exact .inl ⟨d, _, rfl, rfl⟩
  case h_2 d s =>
    obtain ⟨v, _, h⟩ := bind_eq_ok.1 h
    cases h
    exact .inl ⟨d, _, rfl, rfl⟩
  case h_3 d op l r =>
    obtain ⟨a, _, h⟩ := bind_eq_ok.1 h
    obtain ⟨b, _, h⟩ := bind_eq_ok.1 h
    obtain ⟨v, _, h⟩ := bind_eq_ok.1 h
    cases h
    exact .inl ⟨d, _, rfl, rfl⟩
  case h_4 d op s =>
    obtain ⟨a, _, h⟩ := bind_eq_ok.1 h
    obtain ⟨v, _, h⟩ := bind_eq_ok.1 h
    cases h
    exact .inl ⟨d, _, rfl, rfl⟩
  case h_5 d s ty =>
    obtain ⟨a, _, h⟩ := bind_eq_ok.1 h
    obtain ⟨v, _, h⟩ := bind_eq_ok.1 h
    cases h
    exact .inl ⟨d, _, rfl, rfl⟩
  case h_6 d c a b =>
    obtain ⟨cond, _, h⟩ := bind_eq_ok.1 h
    obtain ⟨x, _, h⟩ := bind_eq_ok.1 h
    obtain ⟨y, _, h⟩ := bind_eq_ok.1 h
    split at h
    · cases h
      exact .inl ⟨d, _, rfl, rfl⟩
    · cases h
      exact .inl ⟨d, _, rfl, rfl⟩
    · cases h
  case h_7 c => exact .inr (.inl ⟨⟨c, rfl⟩, M.eq_of_runCheck h⟩)
  case h_8 =>
    obtain ⟨values, _, h⟩ := bind_eq_ok.1 h
    cases hother : M.other i σ with
    | done v s =>
        rw [hother] at h
        cases h
        exact .inr (.inr ⟨v, s, rfl, rfl⟩)
    | failed f s =>
        rw [hother] at h
        cases h
    | thrown e s =>
        rw [hother] at h
        cases h

/-- Only the machine throws. -/
theorem exec_thrown {i : Instr} {σ τ : State R S} {x : Value R}
    (h : M.exec i σ = .error (.thrown x τ)) :
    ∃ s, M.other i σ = .thrown x s ∧ τ = { σ with rest := s } := by
  unfold exec at h
  split at h
  case h_8 =>
    obtain hread | ⟨values, _, hafter⟩ := bind_eq_error.1 h
    · exact absurd hread (State.calm_readAll _ x τ)
    · cases hother : M.other i σ with
      | done v s =>
          rw [hother] at hafter
          cases hafter
      | failed f s =>
          rw [hother] at hafter
          cases hafter
      | thrown y s =>
          rw [hother] at hafter
          cases hafter
          exact ⟨s, rfl, rfl⟩
  case h_1 => cases h
  case h_2 => exact absurd h (State.calm_read.bind (fun _ => calm_ok _) x τ)
  case h_3 =>
    exact absurd h (State.calm_read.bind (fun _ => State.calm_read.bind fun _ =>
      (State.calm_attempt _).bind fun _ => calm_ok _) x τ)
  case h_4 | h_5 =>
    exact absurd h (State.calm_read.bind (fun _ => (State.calm_attempt _).bind fun _ => calm_ok _) x τ)
  case h_6 =>
    refine absurd h (State.calm_read.bind (fun cond => State.calm_read.bind fun _ =>
      State.calm_read.bind fun _ => ?_) x τ)
    split
    · exact calm_ok _
    · exact calm_ok _
    · exact nofun
  case h_7 c => exact absurd h (M.calm_runCheck c x τ)

/-- An instruction defines no temporary but its own. -/
theorem exec_temps {i : Instr} {σ τ : State R S} {t : Temp} (h : M.exec i σ = .ok τ)
    (ht : i.dest? ≠ some t) : τ.temps t = σ.temps t := by
  obtain ⟨d, v, hd, rfl⟩ | ⟨_, rfl⟩ | ⟨v, s, _, rfl⟩ := M.exec_cases h
  · refine State.write_temps_of_ne _ ?_
    rintro rfl
    exact ht hd
  · rfl
  · exact State.write?_temps_of_ne _ ht

/-- An instruction without side effects changes no length and no keys of a container. -/
theorem exec_keeps (hM : M.Quiet) {i : Instr} {σ τ : State R S} (h : M.exec i σ = .ok τ)
    (hi : i.hasSideEffects = false) : M.Keeps σ.rest τ.rest := by
  obtain ⟨d, v, _, rfl⟩ | ⟨_, rfl⟩ | ⟨v, s, hother, rfl⟩ := M.exec_cases h
  · exact Keeps.refl M _
  · exact Keeps.refl M _
  · exact hM hi hother

end Machine

end Ir

end ProtoScript
