import ProtoScript.Proofs.Machine.Standard
import ProtoScript.Source.Program

set_option autoImplicit false

/-!
# Evaluating the scalar fragment

What functions mean that work on `int`, `byte` and `bool` with variables and structured control
flow alone. Operands are evaluated from left to right, and `&&` and `||` skip their right operand
where the left one decides. Reading a variable that has no value is stuck. Other constructs have no
meaning here.

The evaluation has a second mode, the eager one. In it a right operand that is a plain variable is
read also where the left one decides, and so is the right side of an assignment by `&&` or `||`
evaluated. The result is not used, but the reading may fail. The eager mode is what the instructions
of a lowered function do; the two differ in failures only (`run_eager_of_run`).
-/

namespace ProtoScript

/-! ## Operations -/

/-- The fault of an operation on integers that has no result. -/
def BinaryOp.fault? (op : BinaryOp) (a b : Constant) : Option Fault :=
  match op with
  | .add | .sub | .mul => if op.fits a.ty a b then none else some .overflow
  | .div | .mod => if b.toInt? = some 0 then some .divZero else none
  | .shiftLeft | .shiftRight =>
    if b.toInt?.all fun n => 0 ≤ n && n < (if a.ty = .byte then 8 else 64) then none
    else some .shiftRange
  | _ => none

/-- Applies an operator to two values. -/
def BinaryOp.apply (op : BinaryOp) (a b : Constant) : Except Failure Constant :=
  match op.fault? a b with
  | some fault => .error (.stopped fault)
  | none => Constant.compute op a b

/-- Applies an operator to a value. -/
def UnaryOp.apply (op : UnaryOp) (a : Constant) : Except Failure Constant :=
  match Constant.unary? op a with
  | some c => .ok c
  | none => .error (if op = .neg ∧ a.ty.isInteger then .stopped .negOverflow else .stuck)

/-- The value of a logical operator, given the value of its left operand. Where that decides, the right
operand is evaluated only if it is `forced` to. -/
def BinaryOp.choose (op : BinaryOp) (a : Constant) (right : Except Failure Constant)
    (forced : Bool) : Except Failure Constant :=
  match a with
  | .bool v =>
    if v = decide (op = .and) then right
    else if forced then do
      let _ ← right
      return a
    else return a
  | _ => .error .stuck

/-- The value of a literal; a whole number that was found to be a `byte` is one. -/
def Literal.value (ty? : Option Ty) : Literal → Except Failure Constant
  | .int v =>
    if ty? = some .byte then
      match Constant.fitByte? v.toInt with
      | some b => .ok (.byte b)
      | none => .error .stuck
    else .ok (.int v)
  | l => .ok l.toConstant

/-! ## Variables -/

/-- What the names in scope stand for, innermost scope first. -/
abbrev Frames (α : Type) := List (List (String × α))

namespace Frames

variable {α : Type}

/-- What the innermost use of a name stands for. -/
def find? (fs : Frames α) (x : String) : Option α := fs.findSome? fun s => s.lookup x

/-- A new name in the innermost scope. -/
def declare (x : String) (a : α) : Frames α → Frames α
  | [] => []
  | s :: outer => ((x, a) :: s) :: outer

end Frames

/-- The variables in scope; one that was not assigned has no value. -/
abbrev Env := Frames (Option Constant)

namespace Env

def read (ρ : Env) (x : String) : Except Failure Constant :=
  match Frames.find? ρ x with
  | some (some v) => .ok v
  | _ => .error .stuck

/-- One scope with a variable assigned. -/
def setIn (x : String) (v : Constant) : List (String × Option Constant) →
    List (String × Option Constant)
  | [] => []
  | (y, w) :: rest => if y = x then (y, some v) :: rest else (y, w) :: setIn x v rest

/-- Assigns to the innermost variable of the given name. -/
def assign (x : String) (v : Constant) : Env → Env
  | [] => []
  | s :: outer => if (s.lookup x).isSome then setIn x v s :: outer else s :: assign x v outer

end Env

/-! ## Expressions -/

namespace Expr

/-- The value of an expression. -/
def eval (eager : Bool) (ρ : Env) : Expr → Except Failure Constant
  | literal n v => v.value n.type?
  | ident _ x => ρ.read x
  | unary _ op e => do op.apply (← e.eval eager ρ)
  | binary _ op l r => do
    let a ← l.eval eager ρ
    if op.isLogical then op.choose a (r.eval eager ρ) (eager && r.ident?.isSome)
    else op.apply a (← r.eval eager ρ)
  | ternary _ c a b => do
    match ← c.eval eager ρ with
    | .bool true => a.eval eager ρ
    | .bool false => b.eval eager ρ
    | _ => .error .stuck
  | _ => .error .stuck

/-- The value of a condition. -/
def test (eager : Bool) (ρ : Env) (e : Expr) : Except Failure Bool := do
  match ← e.eval eager ρ with
  | .bool b => .ok b
  | _ => .error .stuck

/-- The value that an assignment to a variable stores. -/
def assigned (eager : Bool) (ρ : Env) (x : String) (op : Option BinaryOp) (e : Expr) :
    Except Failure Constant :=
  match op with
  | none => e.eval eager ρ
  | some op => do
    let old ← ρ.read x
    if op.isLogical then op.choose old (e.eval eager ρ) eager
    else op.apply old (← e.eval eager ρ)

end Expr

/-! ## Statements -/

/-- How a statement ends. -/
inductive Flow where
  | next
  | broke
  | continued
  | returned (value : Option Constant)
  deriving Repr

/-- What comes of a statement. -/
abbrev Run := Except Failure (Flow × Env)

/-- Runs a body in a scope of its own. -/
def withScope (body : Env → Run) (ρ : Env) : Run := do
  let (flow, ρ') ← body ([] :: ρ)
  return (flow, ρ'.tail)

/-- Runs a loop that tests before its body, at most `n` times. -/
def whileLoop (cond : Env → Except Failure Bool) (body : Env → Run) : Nat → Env → Run
  | 0, _ => .error .exhausted
  | n + 1, ρ => do
    if ← cond ρ then
      match ← body ρ with
      | (.next, ρ) | (.continued, ρ) => whileLoop cond body n ρ
      | (.broke, ρ) => return (.next, ρ)
      | r => return r
    else return (.next, ρ)

/-- Runs a loop that tests after its body, at most `n` times. -/
def doLoop (cond : Env → Except Failure Bool) (body : Env → Run) : Nat → Env → Run
  | 0, _ => .error .exhausted
  | n + 1, ρ => do
    match ← body ρ with
    | (.next, ρ) | (.continued, ρ) =>
      if ← cond ρ then doLoop cond body n ρ else return (.next, ρ)
    | (.broke, ρ) => return (.next, ρ)
    | r => return r

/-- The position of the first arm whose test holds. -/
def firstMatch (eager : Bool) (ρ : Env) (v : Constant) :
    List SwitchArm → Except Failure (Option Nat)
  | [] => .ok none
  | .mk _ none _ _ :: rest => do return (← firstMatch eager ρ v rest).map (· + 1)
  | .mk _ (some e) _ _ :: rest => do
    match ← BinaryOp.equal.apply v (← e.eval eager ρ) with
    | .bool true => return some 0
    | .bool false => return (← firstMatch eager ρ v rest).map (· + 1)
    | _ => .error .stuck

/-- The arm a switch goes to: the first whose test holds, else the first default arm. -/
def chooseArm (eager : Bool) (ρ : Env) (v : Constant) (arms : List SwitchArm) :
    Except Failure (Option Nat) := do
  match ← firstMatch eager ρ v arms with
  | some i => return some i
  | none => return arms.findIdx? fun arm => arm.test.isNone

mutual

/-- Runs a statement; every loop in it runs at most `fuel` times. -/
def Stmt.exec (eager : Bool) (fuel : Nat) : Stmt → Env → Run
  | .varDecl _ x _ _ none, ρ => return (.next, Frames.declare x none ρ)
  | .varDecl _ x _ _ (some e), ρ => do
    let v ← e.eval eager ρ
    return (.next, Frames.declare x (some v) ρ)
  | .assign _ (.ident _ x) op e, ρ => do
    let v ← e.assigned eager ρ x op
    return (.next, ρ.assign x v)
  | .ifThen _ c body, ρ => do
    if ← c.test eager ρ then withScope (execStmts eager fuel body) ρ else return (.next, ρ)
  | .ifElse _ c thenBody elseBody, ρ => do
    if ← c.test eager ρ then withScope (execStmts eager fuel thenBody) ρ
    else withScope (execStmts eager fuel elseBody) ρ
  | .while _ c body, ρ =>
    whileLoop (c.test eager) (withScope (execStmts eager fuel body)) fuel ρ
  | .doWhile _ body c, ρ =>
    doLoop (c.test eager) (withScope (execStmts eager fuel body)) fuel ρ
  | .switch _ e arms, ρ => do
    let v ← e.eval eager ρ
    match ← chooseArm eager ρ v arms with
    | some i => execArms eager fuel i arms ρ
    | none => return (.next, ρ)
  | .break _, ρ => return (.broke, ρ)
  | .continue _, ρ => return (.continued, ρ)
  | .ret _ none, ρ => return (.returned none, ρ)
  | .ret _ (some e), ρ => do
    let v ← e.eval eager ρ
    return (.returned (some v), ρ)
  | .block _ body, ρ => withScope (execStmts eager fuel body) ρ
  | _, _ => .error .stuck

/-- Runs statements in order. -/
def execStmts (eager : Bool) (fuel : Nat) : List Stmt → Env → Run
  | [], ρ => return (.next, ρ)
  | s :: rest, ρ => do
    match ← s.exec eager fuel ρ with
    | (.next, ρ) => execStmts eager fuel rest ρ
    | r => return r

/-- Runs the arms of a switch from the one at position `i` on, as far as they fall through. -/
def execArms (eager : Bool) (fuel : Nat) : Nat → List SwitchArm → Env → Run
  | _, [], ρ => return (.next, ρ)
  | i + 1, _ :: rest, ρ => execArms eager fuel i rest ρ
  | 0, .mk _ _ body fallsThrough :: rest, ρ => do
    match ← withScope (execStmts eager fuel body) ρ with
    | (.next, ρ) => if fallsThrough then execArms eager fuel 0 rest ρ else return (.next, ρ)
    | (.broke, ρ) => return (.next, ρ)
    | r => return r

end

/-- Runs a function: the value it returns, or why there is none. -/
def FunctionDecl.run (eager : Bool) (fuel : Nat) (f : FunctionDecl) (args : List Constant) :
    Except Failure (Option Constant) := do
  match ← execStmts eager fuel f.body [(f.params.map Param.name).zip (args.map some)] with
  | (.returned v, _) => .ok v
  | (.next, _) => if f.ret.isVoid then .ok none else .error .stuck
  | _ => .error .stuck

/-! ## Eager evaluation -/

/-- The second computation is cut off only if the first is, and gives what the first does unless it
fails. -/
def MoreFailing {α : Type} (x y : Except Failure α) : Prop :=
  x = .error .exhausted ∨ y = x ∨ ∃ f, y = .error f ∧ f ≠ .exhausted

namespace MoreFailing

theorem refl {α : Type} (x : Except Failure α) : MoreFailing x x := .inr (.inl rfl)

theorem bind {α β : Type} {x y : Except Failure α} {f g : α → Except Failure β}
    (h : MoreFailing x y) (hf : ∀ a, MoreFailing (f a) (g a)) :
    MoreFailing (x >>= f) (y >>= g) := by
  rcases h with rfl | rfl | ⟨e, rfl, he⟩
  · exact .inl rfl
  · cases y with
    | ok a => exact hf a
    | error e => exact refl _
  · exact .inr (.inr ⟨e, rfl, he⟩)

theorem of_ne {α : Type} {x y : Except Failure α} (hy : y ≠ .error .exhausted)
    (h : ∀ a, y = .ok a → x = .ok a) : MoreFailing x y := by
  cases y with
  | ok a => exact .inr (.inl (h a rfl).symm)
  | error f => exact .inr (.inr ⟨f, rfl, fun hf => hy (by rw [hf])⟩)

end MoreFailing

/-- Neither step of a computation is cut off. -/
theorem bind_ne_exhausted {α β : Type} {x : Except Failure α} {f : α → Except Failure β}
    (hx : x ≠ .error .exhausted) (hf : ∀ a, f a ≠ .error .exhausted) :
    (x >>= f) ≠ .error .exhausted := by
  cases x with
  | ok a => exact hf a
  | error e =>
      intro h
      exact hx (by rw [Except.error.inj h])

theorem Constant.compute_ne_exhausted (op : BinaryOp) (a b : Constant) :
    Constant.compute op a b ≠ .error .exhausted := by
  unfold Constant.compute
  split
  case h_1 => simp
  case h_2 x y =>
    unfold Constant.divided
    split
    · split <;> simp
    · split <;> simp
    · simp
  case h_3 => simp

theorem BinaryOp.apply_ne_exhausted (op : BinaryOp) (a b : Constant) :
    op.apply a b ≠ .error .exhausted := by
  unfold BinaryOp.apply
  split
  · simp
  · exact Constant.compute_ne_exhausted op a b

theorem UnaryOp.apply_ne_exhausted (op : UnaryOp) (a : Constant) :
    op.apply a ≠ .error .exhausted := by
  unfold UnaryOp.apply
  split
  · simp
  · split <;> simp

theorem BinaryOp.choose_ne_exhausted (op : BinaryOp) (a : Constant)
    {right : Except Failure Constant} (hright : right ≠ .error .exhausted) (forced : Bool) :
    op.choose a right forced ≠ .error .exhausted := by
  unfold BinaryOp.choose
  split
  · split
    · exact hright
    · split
      · exact bind_ne_exhausted hright (by simp)
      · simp
  · simp

theorem Literal.value_ne_exhausted (ty? : Option Ty) (l : Literal) :
    l.value ty? ≠ .error .exhausted := by
  unfold Literal.value
  split
  · split
    · split <;> simp
    · simp
  · simp

theorem Env.read_ne_exhausted (ρ : Env) (x : String) : ρ.read x ≠ .error .exhausted := by
  unfold Env.read
  split <;> simp

namespace Expr

/-- The evaluation of an expression always ends. -/
theorem eval_ne_exhausted (eager : Bool) (ρ : Env) :
    (e : Expr) → e.eval eager ρ ≠ .error .exhausted
  | literal n v => by
      rw [eval]
      exact Literal.value_ne_exhausted _ _
  | ident n x => by
      rw [eval]
      exact Env.read_ne_exhausted ρ x
  | unary n op e => by
      rw [eval]
      exact bind_ne_exhausted (eval_ne_exhausted eager ρ e) (UnaryOp.apply_ne_exhausted op)
  | binary n op l r => by
      rw [eval]
      refine bind_ne_exhausted (eval_ne_exhausted eager ρ l) fun a => ?_
      split
      · exact BinaryOp.choose_ne_exhausted op a (eval_ne_exhausted eager ρ r) _
      · exact bind_ne_exhausted (eval_ne_exhausted eager ρ r) (BinaryOp.apply_ne_exhausted op a)
  | ternary n c a b => by
      rw [eval]
      refine bind_ne_exhausted (eval_ne_exhausted eager ρ c) fun v => ?_
      split
      · exact eval_ne_exhausted eager ρ a
      · exact eval_ne_exhausted eager ρ b
      · simp
  | self _ | call .. | methodCall .. | member .. | index .. | cast .. | list .. | map .. => by
      simp [eval]

end Expr

/-- A logical operator whose right operand is evaluated more often. -/
theorem MoreFailing.choose (op : BinaryOp) (a : Constant) {x y : Except Failure Constant}
    (h : MoreFailing x y) (hy : y ≠ .error .exhausted) (forced : Bool) :
    MoreFailing (op.choose a x false) (op.choose a y forced) := by
  unfold BinaryOp.choose
  split
  case h_2 => exact MoreFailing.refl _
  case h_1 v =>
    split
    · exact h
    · refine MoreFailing.of_ne ?_ ?_
      · split
        · exact bind_ne_exhausted hy (by simp)
        · simp
      · intro c hc
        split at hc
        · obtain ⟨_, _, hc⟩ := Ir.bind_eq_ok.1 hc
          exact hc
        · exact hc

namespace Expr

theorem eval_moreFailing (ρ : Env) : (e : Expr) → MoreFailing (e.eval false ρ) (e.eval true ρ)
  | literal n v => by
      rw [eval, eval]
      exact MoreFailing.refl _
  | ident n x => by
      rw [eval, eval]
      exact MoreFailing.refl _
  | unary n op e => by
      rw [eval, eval]
      exact (eval_moreFailing ρ e).bind fun _ => MoreFailing.refl _
  | binary n op l r => by
      rw [eval, eval]
      refine (eval_moreFailing ρ l).bind fun a => ?_
      split
      · exact (eval_moreFailing ρ r).choose op a (eval_ne_exhausted true ρ r) _
      · exact (eval_moreFailing ρ r).bind fun _ => MoreFailing.refl _
  | ternary n c a b => by
      rw [eval, eval]
      refine (eval_moreFailing ρ c).bind fun v => ?_
      split
      · exact eval_moreFailing ρ a
      · exact eval_moreFailing ρ b
      · exact MoreFailing.refl _
  | self _ | call .. | methodCall .. | member .. | index .. | cast .. | list .. | map .. => by
      simp only [eval]
      exact MoreFailing.refl _

theorem test_moreFailing (ρ : Env) (e : Expr) : MoreFailing (e.test false ρ) (e.test true ρ) :=
  (eval_moreFailing ρ e).bind fun _ => MoreFailing.refl _

theorem assigned_moreFailing (ρ : Env) (x : String) (op : Option BinaryOp) (e : Expr) :
    MoreFailing (e.assigned false ρ x op) (e.assigned true ρ x op) := by
  unfold assigned
  split
  · exact eval_moreFailing ρ e
  · refine (MoreFailing.refl _).bind fun old => ?_
    split
    · exact (eval_moreFailing ρ e).choose _ old (eval_ne_exhausted true ρ e) _
    · exact (eval_moreFailing ρ e).bind fun _ => MoreFailing.refl _

end Expr

/-! ## Eager runs -/

section

variable {cond cond' : Env → Except Failure Bool} {body body' : Env → Run}

theorem withScope_moreFailing (h : ∀ ρ, MoreFailing (body ρ) (body' ρ)) (ρ : Env) :
    MoreFailing (withScope body ρ) (withScope body' ρ) :=
  (h _).bind fun _ => MoreFailing.refl _

theorem whileLoop_moreFailing (hcond : ∀ ρ, MoreFailing (cond ρ) (cond' ρ))
    (hbody : ∀ ρ, MoreFailing (body ρ) (body' ρ)) (n : Nat) (ρ : Env) :
    MoreFailing (whileLoop cond body n ρ) (whileLoop cond' body' n ρ) := by
  induction n generalizing ρ with
  | zero => exact .inl rfl
  | succ n ih =>
      refine (hcond ρ).bind fun b => ?_
      split
      · refine (hbody ρ).bind fun r => ?_
        split
        · exact ih _
        · exact ih _
        · exact MoreFailing.refl _
        · exact MoreFailing.refl _
      · exact MoreFailing.refl _

theorem doLoop_moreFailing (hcond : ∀ ρ, MoreFailing (cond ρ) (cond' ρ))
    (hbody : ∀ ρ, MoreFailing (body ρ) (body' ρ)) (n : Nat) (ρ : Env) :
    MoreFailing (doLoop cond body n ρ) (doLoop cond' body' n ρ) := by
  induction n generalizing ρ with
  | zero => exact .inl rfl
  | succ n ih =>
      refine (hbody ρ).bind fun r => ?_
      split
      · refine (hcond _).bind fun b => ?_
        split
        · exact ih _
        · exact MoreFailing.refl _
      · refine (hcond _).bind fun b => ?_
        split
        · exact ih _
        · exact MoreFailing.refl _
      · exact MoreFailing.refl _
      · exact MoreFailing.refl _

end

theorem firstMatch_moreFailing (ρ : Env) (v : Constant) (arms : List SwitchArm) :
    MoreFailing (firstMatch false ρ v arms) (firstMatch true ρ v arms) := by
  induction arms with
  | nil => exact MoreFailing.refl _
  | cons arm rest ih =>
      obtain ⟨s, test, body, falls⟩ := arm
      cases test with
      | none => exact ih.bind fun _ => MoreFailing.refl _
      | some e =>
          refine (Expr.eval_moreFailing ρ e).bind fun t => ?_
          refine (MoreFailing.refl _).bind fun same => ?_
          split
          · exact MoreFailing.refl _
          · exact ih.bind fun _ => MoreFailing.refl _
          · exact MoreFailing.refl _

mutual

theorem Stmt.exec_moreFailing (fuel : Nat) :
    (s : Stmt) → (ρ : Env) → MoreFailing (s.exec false fuel ρ) (s.exec true fuel ρ)
  | .varDecl _ x _ _ none, ρ => by
      simp only [Stmt.exec]
      exact MoreFailing.refl _
  | .varDecl _ x _ _ (some e), ρ => by
      simp only [Stmt.exec]
      exact (Expr.eval_moreFailing ρ e).bind fun _ => MoreFailing.refl _
  | .assign _ target op e, ρ => by
      cases target with
      | ident n x =>
          simp only [Stmt.exec]
          exact (Expr.assigned_moreFailing ρ x op e).bind fun _ => MoreFailing.refl _
      | _ =>
          simp only [Stmt.exec]
          exact MoreFailing.refl _
  | .ifThen _ c body, ρ => by
      simp only [Stmt.exec]
      refine (Expr.test_moreFailing ρ c).bind fun b => ?_
      split
      · exact withScope_moreFailing (execStmts_moreFailing fuel body) ρ
      · exact MoreFailing.refl _
  | .ifElse _ c thenBody elseBody, ρ => by
      simp only [Stmt.exec]
      refine (Expr.test_moreFailing ρ c).bind fun b => ?_
      split
      · exact withScope_moreFailing (execStmts_moreFailing fuel thenBody) ρ
      · exact withScope_moreFailing (execStmts_moreFailing fuel elseBody) ρ
  | .while _ c body, ρ => by
      simp only [Stmt.exec]
      exact whileLoop_moreFailing (fun ρ => Expr.test_moreFailing ρ c)
        (withScope_moreFailing (execStmts_moreFailing fuel body)) fuel ρ
  | .doWhile _ body c, ρ => by
      simp only [Stmt.exec]
      exact doLoop_moreFailing (fun ρ => Expr.test_moreFailing ρ c)
        (withScope_moreFailing (execStmts_moreFailing fuel body)) fuel ρ
  | .switch _ e arms, ρ => by
      simp only [Stmt.exec]
      refine (Expr.eval_moreFailing ρ e).bind fun v => ?_
      have hchoose : MoreFailing (chooseArm false ρ v arms) (chooseArm true ρ v arms) :=
        (firstMatch_moreFailing ρ v arms).bind fun _ => MoreFailing.refl _
      refine hchoose.bind fun i => ?_
      split
      · exact execArms_moreFailing fuel _ arms ρ
      · exact MoreFailing.refl _
  | .break _, ρ | .continue _, ρ | .ret _ none, ρ => by
      simp only [Stmt.exec]
      exact MoreFailing.refl _
  | .ret _ (some e), ρ => by
      simp only [Stmt.exec]
      exact (Expr.eval_moreFailing ρ e).bind fun _ => MoreFailing.refl _
  | .block _ body, ρ => by
      simp only [Stmt.exec]
      exact withScope_moreFailing (execStmts_moreFailing fuel body) ρ
  | .expr .., ρ | .for .., ρ | .forEach .., ρ | .throw .., ρ | .try .., ρ => by
      simp only [Stmt.exec]
      exact MoreFailing.refl _

theorem execStmts_moreFailing (fuel : Nat) :
    (stmts : List Stmt) → (ρ : Env) →
      MoreFailing (execStmts false fuel stmts ρ) (execStmts true fuel stmts ρ)
  | [], ρ => MoreFailing.refl _
  | s :: rest, ρ => by
      simp only [execStmts]
      refine (Stmt.exec_moreFailing fuel s ρ).bind fun r => ?_
      split
      · exact execStmts_moreFailing fuel rest _
      · exact MoreFailing.refl _

theorem execArms_moreFailing (fuel : Nat) :
    (i : Nat) → (arms : List SwitchArm) → (ρ : Env) →
      MoreFailing (execArms false fuel i arms ρ) (execArms true fuel i arms ρ)
  | _, [], ρ => by
      simp only [execArms]
      exact MoreFailing.refl _
  | i + 1, arm :: rest, ρ => by
      simp only [execArms]
      exact execArms_moreFailing fuel i rest ρ
  | 0, .mk _ _ body fallsThrough :: rest, ρ => by
      simp only [execArms]
      refine (withScope_moreFailing (execStmts_moreFailing fuel body) ρ).bind fun r => ?_
      split
      · split
        · exact execArms_moreFailing fuel 0 rest _
        · exact MoreFailing.refl _
      · exact MoreFailing.refl _
      · exact MoreFailing.refl _

end

/-- The eager run of a function gives what the run gives unless it fails, and is cut off only if the
run is. -/
theorem FunctionDecl.run_eager_of_run (f : FunctionDecl) (fuel : Nat) (args : List Constant) :
    MoreFailing (f.run false fuel args) (f.run true fuel args) :=
  (execStmts_moreFailing fuel f.body _).bind fun _ => MoreFailing.refl _

end ProtoScript
