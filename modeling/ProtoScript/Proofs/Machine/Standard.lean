import ProtoScript.Proofs.Machine.Basic

set_option autoImplicit false

/-!
# Running functions and modules

The standard machines. They agree on integers, variables, calls and exceptions, and differ in the
platform below: containers, objects, foreign functions and output, all of which live in a world of
which nothing is assumed.

A call starts a frame of its own, with no temporary defined and the parameters as its only
variables. An exception goes to the innermost handler that the frame has installed, and to the caller
if there is none. A run takes a number of steps after which it is cut off; an outcome is what a
run ends in if it is neither cut off nor stuck.
-/

namespace ProtoScript

/-! ## Integers at run time -/

namespace Constant

/-- What is left of the division of two `int`s where constants have no result. The least number
divided by minus one is no `int`, and its remainder is zero. -/
def divided (op : BinaryOp) (b : Int64) : Except Failure Constant :=
  match op with
  | .div => .error (if b = 0 then .stuck else .stopped .overflow)
  | .mod => if b = 0 then .error .stuck else .ok (.int 0)
  | _ => .error .stuck

/-- The value of an operation whose check has been passed. -/
def compute (op : BinaryOp) (a b : Constant) : Except Failure Constant :=
  match binary? op a b, a, b with
  | some c, _, _ => .ok c
  | none, .int _, .int y => divided op y
  | none, _, _ => .error .stuck

theorem compute_of_binary? {op : BinaryOp} {a b c : Constant} (h : binary? op a b = some c) :
    compute op a b = .ok c := by
  simp [compute, h]

end Constant

namespace Ir

/-! ## Frames and outcomes -/

/-- What a call of a function has beside its temporaries. -/
structure Frame (R W : Type) where
  vars : String → Option (Value R)
  /-- The labels that exceptions go to, the innermost first. -/
  handlers : List String
  /-- The exception being handled. -/
  caught : Option (Value R)
  world : W

/-- What a call of a function ends in. -/
inductive Outcome (R : Type) where
  | returned (value : Option (Value R))
  | raised (exception : Value R)
  | failed (failure : Failure)

/-- The outcome of a run and the world it leaves. -/
structure Ending (R W : Type) where
  outcome : Outcome R
  world : W

/-- The run has come to its end: it is neither stuck nor cut off. -/
def Outcome.isFinal {R : Type} : Outcome R → Bool
  | returned _ | raised _ | failed (.stopped _) => true
  | failed .stuck | failed .exhausted => false

namespace Frame

variable {R W : Type}

/-- Gives a variable a value, or takes it away. -/
def setVar (φ : Frame R W) (x : String) (v : Option (Value R)) : Frame R W :=
  { φ with vars := fun y => if y = x then v else φ.vars y }

/-- What a call does to the frame of its caller. -/
def returning (φ : Frame R W) (e : Ending R W) : Effect R (Frame R W) :=
  let after := { φ with world := e.world }
  match e.outcome with
  | .returned v => .done v after
  | .raised x => .thrown x after
  | .failed f => .failed f after

/-- What an instruction that sees the world only does to the frame. -/
def inWorld (φ : Frame R W) : Effect R W → Effect R (Frame R W)
  | .done v w => .done v { φ with world := w }
  | .failed f w => .failed f { φ with world := w }
  | .thrown x w => .thrown x { φ with world := w }

end Frame

/-! ## Platforms -/

/-- What lies below the standard machines. -/
structure Platform (R W : Type) where
  /-- Operators where `Constant.compute` has no value: on references, and on floats whose result is not
  finite. -/
  binary : BinaryOp → Value R → Value R → Except Failure (Value R)
  unary : UnaryOp → Value R → Except Failure (Value R)
  cast : Value R → Ty → Except Failure (Value R)
  length? : W → Value R → Option Nat
  hasKey? : W → Value R → Value R → Option Bool
  /-- Whether a loop over a container has another item. -/
  hasNext? : W → Value R → Option Bool
  /-- The function of the module that a call of a method runs. -/
  method? : W → Instr → List (Value R) → Option String
  /-- What the world notices of the declaration or assignment of a variable. -/
  notice : Instr → List (Value R) → W → W
  /-- Any other instruction, by the values of its operands. -/
  other : Instr → List (Value R) → W → Effect R W

namespace Platform

variable {R W : Type} (P : Platform R W)

/-- The instructions on frames, by the values of their operands. Calls are run by `call`. -/
def step (call : String → List (Value R) → W → Ending R W) (i : Instr) (values : List (Value R))
    (φ : Frame R W) : Effect R (Frame R W) :=
  match i, values with
  | .varDecl x _, _ => .done none { φ.setVar x none with world := P.notice i values φ.world }
  | .loadVar _ x, _ =>
    match φ.vars x with
    | some v => .done (some v) φ
    | none => .failed .stuck φ
  | .storeVar x _, [v] =>
    .done none { φ.setVar x (some v) with world := P.notice i values φ.world }
  | .callStatic _ name _, _ => φ.returning (call name values φ.world)
  | .callMethod .., _ =>
    match P.method? φ.world i values with
    | some name => φ.returning (call name values φ.world)
    | none => φ.inWorld (P.other i values φ.world)
  | .setupTry label, _ => .done none { φ with handlers := label :: φ.handlers }
  | .endTry, _ => .done none { φ with handlers := φ.handlers.tail }
  | .throw _, [v] => .thrown v φ
  | .catchValue _, _ =>
    match φ.caught with
    | some v => .done (some v) φ
    | none => .failed .stuck φ
  | _, _ => φ.inWorld (P.other i values φ.world)

/-- Binary operators; where the standard says nothing the platform decides. -/
def binaryValue (op : BinaryOp) (x y : Value R) : Except Failure (Value R) :=
  match x, y with
  | .scalar a, .scalar b =>
    match Constant.compute op a b with
    | .ok c => .ok (.scalar c)
    | .error .stuck => P.binary op x y
    | .error f => .error f
  | _, _ => P.binary op x y

def unaryValue (op : UnaryOp) (x : Value R) : Except Failure (Value R) :=
  match x with
  | .scalar a =>
    match Constant.unary? op a with
    | some c => .ok (.scalar c)
    | none => P.unary op x
  | _ => P.unary op x

def castValue (x : Value R) (ty : Ty) : Except Failure (Value R) :=
  match x with
  | .scalar a =>
    match Constant.cast? a ty with
    | some c => .ok (.scalar c)
    | none => P.cast x ty
  | _ => P.cast x ty

/-- The standard machine. -/
def machine (call : String → List (Value R) → W → Ending R W) : Machine R (Frame R W) where
  binary := P.binaryValue
  unary := P.unaryValue
  cast := P.castValue
  binary_scalar h := by simp [binaryValue, Constant.compute_of_binary? h]
  unary_scalar h := by simp [unaryValue, h]
  cast_scalar h := by simp [castValue, h]
  length? φ := P.length? φ.world
  hasKey? φ := P.hasKey? φ.world
  other i σ :=
    match σ.readAll i.operands with
    | .ok values => P.step call i values σ.rest
    | .error _ => .failed .stuck σ.rest

/-! ## Functions -/

/-- What has no meaning. -/
def stuckAt (φ : Frame R W) : Ending R W := ⟨.failed .stuck, φ.world⟩

/-- Leaves a block; `go` enters another one. -/
def leave (go : String → State R (Frame R W) → Ending R W) (t : Terminator)
    (σ : State R (Frame R W)) : Ending R W :=
  match t with
  | .ret t =>
    match σ.temps t with
    | some v => ⟨.returned (some v), σ.rest.world⟩
    | none => stuckAt σ.rest
  | .retVoid => ⟨.returned none, σ.rest.world⟩
  | .jump label => go label σ
  | .branch c thenLabel elseLabel =>
    match σ.temps c with
    | some (.scalar (.bool true)) => go thenLabel σ
    | some (.scalar (.bool false)) => go elseLabel σ
    | _ => stuckAt σ.rest
  | .branchIter t body done =>
    match (σ.temps t).bind (P.hasNext? σ.rest.world) with
    | some true => go body σ
    | some false => go done σ
    | none => stuckAt σ.rest
  | .unreachable => stuckAt σ.rest

/-- What follows an exception: the innermost handler, or the end of the function. -/
def unwind (go : String → State R (Frame R W) → Ending R W) (x : Value R)
    (σ : State R (Frame R W)) : Ending R W :=
  match σ.rest.handlers with
  | label :: handlers => go label { σ with rest := { σ.rest with handlers, caught := some x } }
  | [] => ⟨.raised x, σ.rest.world⟩

/-- Runs what is left of a block. -/
def resume (call : String → List (Value R) → W → Ending R W)
    (go : String → State R (Frame R W) → Ending R W) (instrs : List Instr) (t : Terminator)
    (σ : State R (Frame R W)) : Ending R W :=
  match (P.machine call).execAll instrs σ with
  | .ok τ => P.leave go t τ
  | .error (.thrown x τ) => unwind go x τ
  | .error (.failed f φ) => ⟨.failed f, φ.world⟩
  | .error _ => stuckAt σ.rest

/-- Enters a block of a function. -/
def enter (call : String → List (Value R) → W → Ending R W) (f : Function) :
    Nat → String → State R (Frame R W) → Ending R W
  | 0, _, σ => ⟨.failed .exhausted, σ.rest.world⟩
  | n + 1, label, σ =>
    match f.block? label with
    | none => stuckAt σ.rest
    | some b => P.resume call (enter call f n) b.instrs b.terminator σ

/-- The frame of a call: the parameters are bound by position, and nothing else has a value. -/
def start (f : Function) (args : List (Value R)) (w : W) : State R (Frame R W) where
  temps _ := none
  rest :=
    { vars := fun x => ((f.params.map Param.name).zip args).lookup x
      handlers := []
      caught := none
      world := w }

/-- Runs a function from its first block. -/
def runFunction (call : String → List (Value R) → W → Ending R W) (n : Nat) (f : Function)
    (args : List (Value R)) (w : W) : Ending R W :=
  match f.entry? with
  | none => ⟨.failed .stuck, w⟩
  | some b =>
    if args.length = f.params.length then P.enter call f n b.label (start f args w)
    else ⟨.failed .stuck, w⟩

/-! ## More steps -/

section

variable {call : String → List (Value R) → W → Ending R W}
  {go go' : String → State R (Frame R W) → Ending R W} {f : Function} {σ : State R (Frame R W)}

theorem leave_of_not_exhausted
    (hgo : ∀ label σ, (go label σ).outcome ≠ .failed .exhausted → go' label σ = go label σ)
    {t : Terminator} (h : (P.leave go t σ).outcome ≠ .failed .exhausted) :
    P.leave go' t σ = P.leave go t σ := by
  unfold leave at h ⊢
  split
  · rfl
  · rfl
  · exact hgo _ _ h
  · split
    case h_1 hc =>
      simp only [hc] at h
      exact hgo _ _ h
    case h_2 hc =>
      simp only [hc] at h
      exact hgo _ _ h
    case h_3 => rfl
  · split
    case h_1 hc =>
      simp only [hc] at h
      exact hgo _ _ h
    case h_2 hc =>
      simp only [hc] at h
      exact hgo _ _ h
    case h_3 => rfl
  · rfl

theorem resume_of_not_exhausted
    (hgo : ∀ label σ, (go label σ).outcome ≠ .failed .exhausted → go' label σ = go label σ)
    {instrs : List Instr} {t : Terminator}
    (h : (P.resume call go instrs t σ).outcome ≠ .failed .exhausted) :
    P.resume call go' instrs t σ = P.resume call go instrs t σ := by
  unfold resume at h ⊢
  split
  case h_1 τ hrun =>
    simp only [hrun] at h
    exact P.leave_of_not_exhausted hgo h
  case h_2 x τ hrun =>
    simp only [hrun] at h
    unfold unwind at h ⊢
    split
    case h_1 label handlers hh =>
      simp only [hh] at h
      exact hgo _ _ h
    case h_2 => rfl
  case h_3 => rfl
  case h_4 => rfl

/-- A run that was not cut off does not change if it may take more steps. -/
theorem enter_of_le {n m : Nat} (hle : n ≤ m) {label : String}
    (h : (P.enter call f n label σ).outcome ≠ .failed .exhausted) :
    P.enter call f m label σ = P.enter call f n label σ := by
  induction n generalizing m label σ with
  | zero => exact absurd rfl h
  | succ n ih =>
      obtain ⟨m, rfl⟩ : ∃ k, m = k + 1 := ⟨m - 1, by omega⟩
      simp only [enter] at h ⊢
      cases hblock : f.block? label with
      | none => rfl
      | some b =>
          simp only [hblock] at h ⊢
          exact P.resume_of_not_exhausted (fun label σ => ih (by omega)) h

/-- Runs of a function that were not cut off have the same outcome. -/
theorem runFunction_outcome_unique {n m : Nat} {args : List (Value R)} {w : W}
    (hn : (P.runFunction call n f args w).outcome ≠ .failed .exhausted)
    (hm : (P.runFunction call m f args w).outcome ≠ .failed .exhausted) :
    (P.runFunction call n f args w).outcome = (P.runFunction call m f args w).outcome := by
  unfold runFunction at hn hm ⊢
  cases hentry : f.entry? with
  | none => rfl
  | some b =>
      simp only [hentry] at hn hm ⊢
      split
      case isFalse => rfl
      case isTrue hlength =>
        simp only [if_pos hlength] at hn hm
        rcases Nat.le_total n m with hle | hle
        · rw [P.enter_of_le hle hn]
        · rw [P.enter_of_le hle hm]

end

end Platform

/-! ## Modules -/

/-- Runs a function of a module by name, in at most `n` nested calls and blocks of each. -/
def Module.run {R W : Type} (P : Platform R W) (m : Module) :
    Nat → String → List (Value R) → W → Ending R W
  | 0, _, _, w => ⟨.failed .exhausted, w⟩
  | n + 1, name, args, w =>
    match m.function? name with
    | none => ⟨.failed .stuck, w⟩
    | some f => P.runFunction (m.run P n) n f args w

end Ir

end ProtoScript
