import ProtoScript.Proofs.Source.Typing

set_option autoImplicit false

/-!
# Where eager evaluation does no harm

The eager mode of evaluation differs from the other one only if it reads a variable that has no value,
or evaluates the right side of an assignment by `&&` or `||`. In a function that declares every
variable with an initial value and has no such assignment, neither happens: every variable in scope
has a value at all times, so both modes give the same (`FunctionDecl.WellTyped.run_eager`).
-/

namespace ProtoScript

/-! ## Expressions -/

/-- Every variable has a value of its type. -/
def Env.Full (Γ : TyEnv) (ρ : Env) : Prop :=
  Frames.Rel (fun τ w => ∃ v : Constant, w = some v ∧ v.ty = τ) Γ ρ

section

variable {Γ : TyEnv} {ρ : Env}

theorem Env.Full.hasTypes (h : Env.Full Γ ρ) : Env.HasTypes Γ ρ := by
  refine Frames.Rel.mono h ?_
  rintro τ _ w ⟨v, rfl, hv⟩ v' hv'
  cases hv'
  exact hv

theorem Env.Full.read (h : Env.Full Γ ρ) {x : String} {τ : Ty} (hx : Frames.find? Γ x = some τ) :
    ∃ v, ρ.read x = .ok v := by
  obtain ⟨w, hw, v, rfl, _⟩ := Frames.Rel.exists_of_find? h hx
  refine ⟨v, ?_⟩
  unfold Env.read
  rw [hw]

/-- A right operand that has a value may as well be evaluated. -/
theorem BinaryOp.choose_of_ok (op : BinaryOp) (a : Constant) {right : Except Failure Constant}
    {v : Constant} (h : right = .ok v) (forced : Bool) :
    op.choose a right forced = op.choose a right false := by
  subst h
  unfold BinaryOp.choose
  split
  · split
    · rfl
    · cases forced with
      | true => rfl
      | false => rfl
  · rfl

theorem Expr.HasTy.eval_ident {e : Expr} {τ : Ty} (h : e.HasTy Γ τ) (hρ : Env.Full Γ ρ)
    (hident : e.ident?.isSome) : ∃ v, e.eval false ρ = .ok v := by
  cases e with
  | ident n x =>
      obtain _ | ⟨_, hx, _⟩ := h
      rw [Expr.eval]
      exact hρ.read hx
  | _ => cases hident

/-- If all variables have values, nothing is lost by reading them. -/
theorem Expr.HasTy.eval_eager {e : Expr} {τ : Ty} (h : e.HasTy Γ τ) (hρ : Env.Full Γ ρ) :
    e.eval true ρ = e.eval false ρ := by
  induction h with
  | literal => simp only [Expr.eval]
  | ident => simp only [Expr.eval]
  | unary _ _ _ ih => rw [Expr.eval, Expr.eval, ih]
  | @logical n op l r _ hop _ hr ihl ihr =>
      rw [Expr.eval, Expr.eval, ihl, ihr]
      congr 1
      funext a
      rw [if_pos hop, if_pos hop, Bool.true_and, Bool.false_and]
      cases hident : r.ident?.isSome with
      | false => rfl
      | true =>
          obtain ⟨v, hv⟩ := hr.eval_ident hρ hident
          exact BinaryOp.choose_of_ok op a hv true
  | @binary n op _ _ _ _ hop _ _ _ ihl ihr =>
      rw [Expr.eval, Expr.eval, ihl, ihr]
      simp only [hop, Bool.false_eq_true, if_false]
  | ternary _ _ _ _ ihc iha ihb => rw [Expr.eval, Expr.eval, ihc, iha, ihb]

theorem Expr.HasTy.test_eager {e : Expr} {τ : Ty} (h : e.HasTy Γ τ) (hρ : Env.Full Γ ρ) :
    e.test true ρ = e.test false ρ := by
  unfold Expr.test
  rw [h.eval_eager hρ]

theorem Expr.FitsVar.assigned_eager {e : Expr} {τ : Ty} {op : Option BinaryOp}
    (h : e.FitsVar Γ τ op) (hop : op.all fun op => !op.isLogical) (hρ : Env.Full Γ ρ) (x : String) :
    e.assigned true ρ x op = e.assigned false ρ x op := by
  cases op with
  | none => exact Expr.HasTy.eval_eager h hρ
  | some op =>
      have hop : op.isLogical = false := by simpa using hop
      simp only [Expr.FitsVar, hop, Bool.false_eq_true, if_false] at h
      simp only [Expr.assigned, hop, Bool.false_eq_true, if_false, h.1.eval_eager hρ]

end

/-! ## Runs that agree -/

/-- The two runs are the same, and what they leave behind is as described. -/
structure SameRun (post : Flow → Env → Prop) (x y : Run) : Prop where
  eq : y = x
  post : ∀ flow ρ, x = .ok (flow, ρ) → post flow ρ

namespace SameRun

variable {post post' : Flow → Env → Prop} {x y : Run}

theorem ok {flow : Flow} {ρ : Env} (h : post flow ρ) :
    SameRun post (.ok (flow, ρ)) (.ok (flow, ρ)) := by
  refine ⟨rfl, fun _ _ heq => ?_⟩
  cases heq
  exact h

theorem error (f : Failure) : SameRun post (.error f) (.error f) := ⟨rfl, nofun⟩

theorem mono (h : SameRun post x y) (hpost : ∀ flow ρ, post flow ρ → post' flow ρ) :
    SameRun post' x y := ⟨h.eq, fun flow ρ hx => hpost flow ρ (h.post flow ρ hx)⟩

/-- A computation before a run. -/
theorem after {α : Type} {a a' : Except Failure α} {f g : α → Run} (ha : a' = a)
    (hf : ∀ v, a = .ok v → SameRun post (f v) (g v)) : SameRun post (a >>= f) (a' >>= g) := by
  subst ha
  cases a' with
  | ok v => exact hf v rfl
  | error e => exact error e

theorem bind {f g : Flow × Env → Run} (h : SameRun post x y)
    (hf : ∀ flow ρ, post flow ρ → SameRun post' (f (flow, ρ)) (g (flow, ρ))) :
    SameRun post' (x >>= f) (y >>= g) :=
  after h.eq fun r hr => hf r.1 r.2 (h.post _ _ hr)

end SameRun

section

variable {Γ : TyEnv} {cond cond' : Env → Except Failure Bool} {body body' : Env → Run}

theorem withScope_sameRun
    (h : ∀ ρ, Env.Full ([] :: Γ) ρ → SameRun (fun _ ρ => Env.Full Γ ρ.tail) (body ρ) (body' ρ))
    {ρ : Env} (hρ : Env.Full Γ ρ) :
    SameRun (fun _ ρ => Env.Full Γ ρ) (withScope body ρ) (withScope body' ρ) :=
  (h _ (Frames.Rel.push hρ)).bind fun _ _ hpost => SameRun.ok hpost

theorem whileLoop_sameRun (hcond : ∀ ρ, Env.Full Γ ρ → cond' ρ = cond ρ)
    (hbody : ∀ ρ, Env.Full Γ ρ → SameRun (fun _ ρ => Env.Full Γ ρ) (body ρ) (body' ρ)) (n : Nat)
    {ρ : Env} (hρ : Env.Full Γ ρ) :
    SameRun (fun _ ρ => Env.Full Γ ρ) (whileLoop cond body n ρ) (whileLoop cond' body' n ρ) := by
  induction n generalizing ρ with
  | zero => exact SameRun.error _
  | succ n ih =>
      refine SameRun.after (hcond ρ hρ) fun b _ => ?_
      split
      · refine (hbody ρ hρ).bind fun flow ρ' hρ' => ?_
        cases flow with
        | next => exact ih hρ'
        | continued => exact ih hρ'
        | broke => exact SameRun.ok hρ'
        | returned v => exact SameRun.ok hρ'
      · exact SameRun.ok hρ

theorem doLoop_sameRun (hcond : ∀ ρ, Env.Full Γ ρ → cond' ρ = cond ρ)
    (hbody : ∀ ρ, Env.Full Γ ρ → SameRun (fun _ ρ => Env.Full Γ ρ) (body ρ) (body' ρ)) (n : Nat)
    {ρ : Env} (hρ : Env.Full Γ ρ) :
    SameRun (fun _ ρ => Env.Full Γ ρ) (doLoop cond body n ρ) (doLoop cond' body' n ρ) := by
  induction n generalizing ρ with
  | zero => exact SameRun.error _
  | succ n ih =>
      have hagain : ∀ {ρ}, Env.Full Γ ρ → SameRun (fun _ ρ => Env.Full Γ ρ)
          (cond ρ >>= fun b => if b then doLoop cond body n ρ else return (.next, ρ))
          (cond' ρ >>= fun b => if b then doLoop cond' body' n ρ else return (.next, ρ)) := by
        intro ρ hρ
        refine SameRun.after (hcond ρ hρ) fun b _ => ?_
        split
        · exact ih hρ
        · exact SameRun.ok hρ
      refine (hbody ρ hρ).bind fun flow ρ' hρ' => ?_
      cases flow with
      | next => exact hagain hρ'
      | continued => exact hagain hρ'
      | broke => exact SameRun.ok hρ'
      | returned v => exact SameRun.ok hρ'

/-- Both modes find the same arm. -/
theorem firstMatch_eager {ret : Ty} {loop : Bool} {τ : Ty} {ρ : Env} (hρ : Env.Full Γ ρ)
    (v : Constant) {arms : List SwitchArm} (h : ArmsWellTyped ret loop τ Γ arms) :
    firstMatch true ρ v arms = firstMatch false ρ v arms := by
  induction arms with
  | nil => rfl
  | cons arm rest ih =>
      obtain ⟨span, test, body, falls⟩ := arm
      rw [ArmsWellTyped] at h
      cases test with
      | none => rw [firstMatch, firstMatch, ih h.2.2]
      | some e => rw [firstMatch, firstMatch, ih h.2.2, (h.1 e rfl).eval_eager hρ]

end

/-! ## Statements -/

mutual

/-- Every variable is declared with an initial value, and no assignment is by `&&` or `||`. -/
def Stmt.isSettled : Stmt → Bool
  | .varDecl _ _ _ _ init => init.isSome
  | .assign _ _ op _ => op.all fun op => !op.isLogical
  | .ifThen _ _ body => stmtsSettled body
  | .ifElse _ _ a b => stmtsSettled a && stmtsSettled b
  | .while _ _ body => stmtsSettled body
  | .doWhile _ body _ => stmtsSettled body
  | .switch _ _ arms => armsSettled arms
  | .block _ body => stmtsSettled body
  | _ => true

def stmtsSettled : List Stmt → Bool
  | [] => true
  | s :: rest => s.isSettled && stmtsSettled rest

def armsSettled : List SwitchArm → Bool
  | [] => true
  | .mk _ _ body _ :: rest => stmtsSettled body && armsSettled rest

end

/-- What a statement leaves behind: the variables around it have values, and those in scope behind it
do if it comes to its end. -/
def Env.FullAfter (Γ Γ' : TyEnv) (flow : Flow) (ρ : Env) : Prop :=
  Env.Full Γ.tail ρ.tail ∧ (flow = .next → Env.Full Γ' ρ)

theorem Env.Full.fullAfter {Γ : TyEnv} {ρ : Env} (h : Env.Full Γ ρ) (flow : Flow) :
    Env.FullAfter Γ Γ flow ρ := ⟨Frames.Rel.tail h, fun _ => h⟩

mutual

/-- Both modes run a statement in the same way, and variables keep having values. -/
theorem Stmt.exec_eager {ret : Ty} (fuel : Nat) : (s : Stmt) → {loop brk : Bool} → {Γ : TyEnv} →
    {ρ : Env} → s.WellTyped ret loop brk Γ → s.isSettled → Env.Full Γ ρ →
    SameRun (Env.FullAfter Γ (Γ.after s)) (s.exec false fuel ρ) (s.exec true fuel ρ)
  | .varDecl span x ty flag none, loop, brk, Γ, ρ, h, hs, hρ => by
      cases hs
  | .varDecl span x ty flag (some e), loop, brk, Γ, ρ, h, hs, hρ => by
      rw [Stmt.WellTyped] at h
      simp only [Stmt.exec]
      refine SameRun.after (h.2.eval_eager hρ) fun v hv => SameRun.ok ?_
      have hfull : Env.Full (Frames.declare x ty Γ) (Frames.declare x (some v) ρ) :=
        Frames.Rel.declare hρ x ⟨v, rfl, h.2.eval hρ.hasTypes hv⟩
      refine ⟨?_, fun _ => hfull⟩
      rw [Frames.tail_declare]
      exact Frames.Rel.tail hρ
  | .assign span target op e, loop, brk, Γ, ρ, h, hs, hρ => by
      cases target with
      | ident n x =>
          rw [Stmt.WellTyped] at h
          obtain ⟨τ, _, hx, hτ, he⟩ := h
          simp only [Stmt.exec]
          refine SameRun.after (he.assigned_eager hs hρ x) fun v hv => SameRun.ok ?_
          have hty := he.assigned hτ hx hρ.hasTypes hv
          have hfull : Env.Full Γ (ρ.assign x v) := Frames.Rel.assign hρ hx ⟨v, rfl, hty⟩
          exact hfull.fullAfter _
      | _ =>
          rw [Stmt.WellTyped] at h
          · cases h
          all_goals simp
  | .ifThen span e body, loop, brk, Γ, ρ, h, hs, hρ => by
      rw [Stmt.WellTyped] at h
      simp only [Stmt.exec]
      refine SameRun.after (h.1.test_eager hρ) fun b _ => ?_
      split
      · refine (withScope_sameRun (fun ρ hρ => ?_) hρ).mono fun flow ρ hρ => hρ.fullAfter flow
        exact execStmts_eager fuel body h.2 hs hρ
      · exact SameRun.ok (hρ.fullAfter _)
  | .ifElse span e body other, loop, brk, Γ, ρ, h, hs, hρ => by
      rw [Stmt.WellTyped] at h
      rw [Stmt.isSettled, Bool.and_eq_true] at hs
      simp only [Stmt.exec]
      refine SameRun.after (h.1.test_eager hρ) fun b _ => ?_
      split
      · refine (withScope_sameRun (fun ρ hρ => ?_) hρ).mono fun flow ρ hρ => hρ.fullAfter flow
        exact execStmts_eager fuel body h.2.1 hs.1 hρ
      · refine (withScope_sameRun (fun ρ hρ => ?_) hρ).mono fun flow ρ hρ => hρ.fullAfter flow
        exact execStmts_eager fuel other h.2.2 hs.2 hρ
  | .while span e body, loop, brk, Γ, ρ, h, hs, hρ => by
      rw [Stmt.WellTyped] at h
      simp only [Stmt.exec]
      refine (whileLoop_sameRun (fun ρ hρ => h.1.test_eager hρ) (fun ρ hρ => ?_) fuel hρ).mono
        fun flow ρ hρ => hρ.fullAfter flow
      exact withScope_sameRun (fun ρ hρ => execStmts_eager fuel body h.2 hs hρ) hρ
  | .doWhile span body e, loop, brk, Γ, ρ, h, hs, hρ => by
      rw [Stmt.WellTyped] at h
      simp only [Stmt.exec]
      refine (doLoop_sameRun (fun ρ hρ => h.2.test_eager hρ) (fun ρ hρ => ?_) fuel hρ).mono
        fun flow ρ hρ => hρ.fullAfter flow
      exact withScope_sameRun (fun ρ hρ => execStmts_eager fuel body h.1 hs hρ) hρ
  | .switch span e arms, loop, brk, Γ, ρ, h, hs, hρ => by
      rw [Stmt.WellTyped] at h
      obtain ⟨τ, he, harms⟩ := h
      simp only [Stmt.exec, chooseArm]
      refine SameRun.after (he.eval_eager hρ) fun v _ => ?_
      rw [firstMatch_eager hρ v harms]
      refine SameRun.after rfl fun i _ => ?_
      split
      · refine (execArms_eager fuel _ arms harms hs hρ).mono fun flow ρ hρ => hρ.fullAfter flow
      · exact SameRun.ok (hρ.fullAfter _)
  | .break span, loop, brk, Γ, ρ, h, hs, hρ | .continue span, loop, brk, Γ, ρ, h, hs, hρ
  | .ret span none, loop, brk, Γ, ρ, h, hs, hρ => by
      simp only [Stmt.exec]
      exact SameRun.ok (hρ.fullAfter _)
  | .ret span (some e), loop, brk, Γ, ρ, h, hs, hρ => by
      rw [Stmt.WellTyped] at h
      simp only [Stmt.exec]
      exact SameRun.after (h.eval_eager hρ) fun v _ => SameRun.ok (hρ.fullAfter _)
  | .block span body, loop, brk, Γ, ρ, h, hs, hρ => by
      rw [Stmt.WellTyped] at h
      simp only [Stmt.exec]
      refine (withScope_sameRun (fun ρ hρ => ?_) hρ).mono fun flow ρ hρ => hρ.fullAfter flow
      exact execStmts_eager fuel body h hs hρ
  | .expr .., _, _, _, _, h, _, _ | .for .., _, _, _, _, h, _, _
  | .forEach .., _, _, _, _, h, _, _ | .throw .., _, _, _, _, h, _, _
  | .try .., _, _, _, _, h, _, _ => by
      rw [Stmt.WellTyped] at h
      · cases h
      all_goals simp

theorem execStmts_eager {ret : Ty} (fuel : Nat) : (stmts : List Stmt) → {loop brk : Bool} →
    {Γ : TyEnv} → {ρ : Env} → StmtsWellTyped ret loop brk Γ stmts → stmtsSettled stmts →
    Env.Full Γ ρ → SameRun (fun _ ρ => Env.Full Γ.tail ρ.tail) (execStmts false fuel stmts ρ)
      (execStmts true fuel stmts ρ)
  | [], loop, brk, Γ, ρ, h, hs, hρ => SameRun.ok (Frames.Rel.tail hρ)
  | s :: rest, loop, brk, Γ, ρ, h, hs, hρ => by
      rw [StmtsWellTyped] at h
      rw [stmtsSettled, Bool.and_eq_true] at hs
      simp only [execStmts]
      refine (Stmt.exec_eager fuel s h.1 hs.1 hρ).bind fun flow ρ' hρ' => ?_
      cases flow with
      | next =>
          have hrest := execStmts_eager fuel rest h.2 hs.2 (hρ'.2 rfl)
          rw [TyEnv.tail_after] at hrest
          exact hrest
      | broke => exact SameRun.ok hρ'.1
      | continued => exact SameRun.ok hρ'.1
      | returned v => exact SameRun.ok hρ'.1

theorem execArms_eager {ret : Ty} (fuel : Nat) : (i : Nat) → (arms : List SwitchArm) →
    {loop : Bool} → {τ : Ty} → {Γ : TyEnv} → {ρ : Env} → ArmsWellTyped ret loop τ Γ arms →
    armsSettled arms → Env.Full Γ ρ →
    SameRun (fun _ ρ => Env.Full Γ ρ) (execArms false fuel i arms ρ) (execArms true fuel i arms ρ)
  | _, [], loop, τ, Γ, ρ, h, hs, hρ => by
      simp only [execArms]
      exact SameRun.ok hρ
  | i + 1, .mk span test body falls :: rest, loop, τ, Γ, ρ, h, hs, hρ => by
      rw [ArmsWellTyped] at h
      rw [armsSettled, Bool.and_eq_true] at hs
      simp only [execArms]
      exact execArms_eager fuel i rest h.2.2 hs.2 hρ
  | 0, .mk span test body falls :: rest, loop, τ, Γ, ρ, h, hs, hρ => by
      rw [ArmsWellTyped] at h
      rw [armsSettled, Bool.and_eq_true] at hs
      simp only [execArms]
      refine SameRun.bind (withScope_sameRun (fun ρ hρ => ?_) hρ) fun flow ρ' hρ' => ?_
      · exact execStmts_eager fuel body h.2.1 hs.1 hρ
      cases flow with
      | next =>
          dsimp only
          split
          · exact execArms_eager fuel 0 rest h.2.2 hs.2 hρ'
          · exact SameRun.ok hρ'
      | broke => exact SameRun.ok hρ'
      | continued => exact SameRun.ok hρ'
      | returned v => exact SameRun.ok hρ'

end

/-- The variables of a call have the values of the arguments. -/
theorem full_zip {params : List Param} {args : List Constant}
    (h : args.map Constant.ty = params.map Param.ty) :
    Env.Full [paramTypes params] [(params.map Param.name).zip (args.map some)] := by
  refine .cons ?_ .nil
  induction params generalizing args with
  | nil => exact .nil
  | cons p params ih =>
      cases args with
      | nil => cases h
      | cons a args =>
          simp only [List.map_cons, List.cons.injEq] at h
          exact .cons ⟨rfl, a, rfl, h.1⟩ (ih h.2)

/-- A function that gives every variable a value, and assigns nothing by `&&` or `||`, does the same in
both modes. -/
theorem FunctionDecl.WellTyped.run_eager {f : FunctionDecl} (hf : f.WellTyped)
    (hs : stmtsSettled f.body) {args : List Constant}
    (hargs : args.map Constant.ty = f.params.map Param.ty) (n : Nat) :
    f.run true n args = f.run false n args := by
  unfold FunctionDecl.run
  rw [(execStmts_eager n f.body hf.body hs (full_zip hargs)).eq]

end ProtoScript
