import ProtoScript.Proofs.Ir.Operands
import ProtoScript.Proofs.Machine.Standard

set_option autoImplicit false

/-!
# One run follows another

The comparison of two runs, step by step. The second run follows the first if it succeeds, throws or
stops at a check where the first does, with results that are related; nothing is asked where the first
is stuck or cut off (`Follows`).

Two instances of this are of use. An instruction that only computes does the same on renamed
temporaries (`follows_exec_of_isBasic`). A function does the same in states that agree on the
temporaries it uses, with calls run in another way that gives the same outcomes (`resume_follows`).
-/

namespace ProtoScript.Ir

variable {R S : Type}

/-! ## One run follows another -/

/-- The second run follows the first: if the first succeeds, throws or stops at a check, so does the
second, with results that are related. Nothing is asked if the first is stuck. -/
def Follows {α β : Type} (done : α → β → Prop) (thrown : State R S → State R S → Prop)
    (failed : S → S → Prop) (x : Except (Halt R S) α) (y : Except (Halt R S) β) : Prop :=
  match x with
  | .ok a => ∃ b, y = .ok b ∧ done a b
  | .error (.thrown e σ) => ∃ τ, y = .error (.thrown e τ) ∧ thrown σ τ
  | .error (.failed (.stopped f) s) => ∃ s', y = .error (.failed (.stopped f) s') ∧ failed s s'
  | .error _ => True

section

variable {α β α' β' : Type} {done : α → β → Prop} {done' : α' → β' → Prop}
  {thrown : State R S → State R S → Prop} {failed : S → S → Prop}

theorem Follows.bind {x : Except (Halt R S) α} {y : Except (Halt R S) β}
    {f : α → Except (Halt R S) α'} {g : β → Except (Halt R S) β'}
    (h : Follows done thrown failed x y)
    (hf : ∀ a b, done a b → Follows done' thrown failed (f a) (g b)) :
    Follows done' thrown failed (x >>= f) (y >>= g) := by
  cases x with
  | ok a =>
      obtain ⟨b, rfl, hab⟩ := h
      exact hf a b hab
  | error halt =>
      cases halt with
      | thrown e σ =>
          obtain ⟨τ, rfl, hτ⟩ := h
          exact ⟨τ, rfl, hτ⟩
      | undefined t => exact trivial
      | mistyped c => exact trivial
      | failed failure s =>
          cases failure with
          | stopped f =>
              obtain ⟨s', rfl, hs⟩ := h
              exact ⟨s', rfl, hs⟩
          | stuck => exact trivial
          | exhausted => exact trivial

theorem Follows.mono {x : Except (Halt R S) α} {y : Except (Halt R S) β} {done' : α → β → Prop}
    (h : Follows done thrown failed x y) (himp : ∀ a b, done a b → done' a b) :
    Follows done' thrown failed x y := by
  cases x with
  | ok a =>
      obtain ⟨b, hb, hab⟩ := h
      exact ⟨b, hb, himp a b hab⟩
  | error halt =>
      cases halt with
      | failed failure s => cases failure <;> exact h
      | _ => exact h

theorem follows_ok {a : α} {b : β} (h : done a b) :
    Follows done thrown failed (.ok a : Except (Halt R S) α) (.ok b) := ⟨b, rfl, h⟩

end

section

variable {thrown : State R S → State R S → Prop} {failed : S → S → Prop} {σ τ : State R S}

theorem follows_read {t t' : Temp} (h : ∀ v, σ.temps t = some v → τ.temps t' = some v) :
    Follows Eq thrown failed (σ.read t) (τ.read t') := by
  cases ht : σ.temps t with
  | none =>
      rw [State.read_of_none ht]
      exact trivial
  | some v =>
      rw [State.read_of_some ht, State.read_of_some (h v ht)]
      exact follows_ok rfl

theorem follows_readAll {r : Temp → Temp} {ts : List Temp}
    (h : ∀ t ∈ ts, ∀ v, σ.temps t = some v → τ.temps (r t) = some v) :
    Follows Eq thrown failed (σ.readAll ts) (τ.readAll (ts.map r)) := by
  induction ts with
  | nil => exact follows_ok rfl
  | cons t rest ih =>
      simp only [State.readAll, List.map_cons]
      refine (follows_read (h t (by simp))).bind ?_
      rintro v _ rfl
      refine (ih fun u hu => h u (by simp [hu])).bind ?_
      rintro vs _ rfl
      exact follows_ok rfl

theorem follows_attempt {α : Type} (hfailed : failed σ.rest τ.rest) (x : Except Failure α) :
    Follows Eq thrown failed (σ.attempt x) (τ.attempt x) := by
  cases x with
  | ok a => exact follows_ok rfl
  | error f =>
      cases f with
      | stopped f => exact ⟨τ.rest, rfl, hfailed⟩
      | stuck => exact trivial
      | exhausted => exact trivial

end

/-! ## Instructions that only compute -/

/-- The instruction is none of those that a machine decides. -/
def Instr.isBasic : Instr → Bool
  | const .. | copy .. | binary .. | unary .. | cast .. | select .. | check _ => true
  | _ => false

/-- The two states are those before, or the temporary of the instruction has been defined in both, by
the same value. -/
def SameWrite (d : Option Temp) (g : Temp → Temp) (σ τ σ' τ' : State R S) : Prop :=
  (d = none ∧ σ' = σ ∧ τ' = τ) ∨ ∃ t v, d = some t ∧ σ' = σ.write t v ∧ τ' = τ.write (g t) v

/-- The condition of a check speaks of the values of its operands, not of their names. -/
theorem Machine.holds?_mapOperands (M : Machine R S) (r : Temp → Temp) (s : S) (c : Check)
    (values : List (Value R)) : M.holds? s (c.mapOperands r) values = M.holds? s c values := by
  cases c <;> simp only [Check.mapOperands] <;> unfold holds? <;> split <;> simp_all

theorem Check.fault_mapOperands (r : Temp → Temp) (c : Check) :
    (c.mapOperands r).fault = c.fault := by
  cases c <;> rfl

/-- A check on renamed operands does the same. -/
theorem follows_runCheck {thrown : State R S → State R S → Prop} {failed : S → S → Prop}
    {M : Machine R S} {σ τ : State R S} {r : Temp → Temp} {c : Check}
    (htemps : ∀ t ∈ c.operands, ∀ v, σ.temps t = some v → τ.temps (r t) = some v)
    (hholds : ∀ values, M.holds? τ.rest c values = M.holds? σ.rest c values)
    (hfailed : failed σ.rest τ.rest) :
    Follows (fun σ' τ' => σ' = σ ∧ τ' = τ) thrown failed (M.runCheck c σ)
      (M.runCheck (c.mapOperands r) τ) := by
  unfold Machine.runCheck
  rw [Check.operands_mapOperands]
  refine (follows_readAll htemps).bind ?_
  rintro values _ rfl
  rw [Machine.holds?_mapOperands, hholds, Check.fault_mapOperands]
  cases M.holds? σ.rest c values with
  | none =>
      cases c.ty?.isSome <;> exact trivial
  | some b =>
      cases b with
      | true => exact follows_ok ⟨rfl, rfl⟩
      | false => exact ⟨τ.rest, rfl, hfailed⟩

/-- An instruction that only computes does the same on renamed temporaries. The cases are its kinds:
each reads its operands, tries an operation and defines its temporary. -/
theorem follows_exec_of_isBasic {thrown : State R S → State R S → Prop} {failed : S → S → Prop}
    {M : Machine R S} {σ τ : State R S} {r g : Temp → Temp} {i : Instr} (hi : i.isBasic)
    (htemps : ∀ t ∈ i.operands, ∀ v, σ.temps t = some v → τ.temps (r t) = some v)
    (hholds : ∀ c values, M.holds? τ.rest c values = M.holds? σ.rest c values)
    (hfailed : failed σ.rest τ.rest) :
    Follows (SameWrite i.dest? g σ τ) thrown failed (M.exec i σ)
      (M.exec ((i.mapOperands r).mapDest g) τ) := by
  cases i with
  | const d v => exact follows_ok (.inr ⟨d, _, rfl, rfl, rfl⟩)
  | copy d s =>
      refine (follows_read (htemps s (by simp [Instr.operands]))).bind ?_
      rintro v _ rfl
      exact follows_ok (.inr ⟨d, v, rfl, rfl, rfl⟩)
  | binary d op a b =>
      refine (follows_read (htemps a (by simp [Instr.operands]))).bind ?_
      rintro x _ rfl
      refine (follows_read (htemps b (by simp [Instr.operands]))).bind ?_
      rintro y _ rfl
      refine (follows_attempt hfailed (M.binary op x y)).bind ?_
      rintro v _ rfl
      exact follows_ok (.inr ⟨d, v, rfl, rfl, rfl⟩)
  | unary d op a =>
      refine (follows_read (htemps a (by simp [Instr.operands]))).bind ?_
      rintro x _ rfl
      refine (follows_attempt hfailed (M.unary op x)).bind ?_
      rintro v _ rfl
      exact follows_ok (.inr ⟨d, v, rfl, rfl, rfl⟩)
  | cast d a ty =>
      refine (follows_read (htemps a (by simp [Instr.operands]))).bind ?_
      rintro x _ rfl
      refine (follows_attempt hfailed (M.cast x ty)).bind ?_
      rintro v _ rfl
      exact follows_ok (.inr ⟨d, v, rfl, rfl, rfl⟩)
  | select d c a b =>
      refine (follows_read (htemps c (by simp [Instr.operands]))).bind ?_
      rintro cond _ rfl
      refine (follows_read (htemps a (by simp [Instr.operands]))).bind ?_
      rintro x _ rfl
      refine (follows_read (htemps b (by simp [Instr.operands]))).bind ?_
      rintro y _ rfl
      split
      · exact follows_ok (.inr ⟨d, x, rfl, rfl, rfl⟩)
      · exact follows_ok (.inr ⟨d, y, rfl, rfl, rfl⟩)
      · exact trivial
  | check c =>
      have hc : Follows (fun σ' τ' => σ' = σ ∧ τ' = τ) thrown failed (M.runCheck c σ)
          (M.runCheck (c.mapOperands r) τ) := follows_runCheck htemps (hholds c) hfailed
      exact hc.mono fun σ' τ' h => .inl ⟨rfl, h.1, h.2⟩
  | _ => cases hi

/-! ## The caller -/

/-- The states agree but for temporaries from `k` on. -/
structure Agree (k : Temp) (σ τ : State R S) : Prop where
  rest : τ.rest = σ.rest
  temps : ∀ t < k, τ.temps t = σ.temps t

namespace Agree

variable {k : Temp} {σ τ : State R S}

theorem refl (k : Temp) (σ : State R S) : Agree k σ σ := ⟨rfl, fun _ _ => rfl⟩

theorem write (h : Agree k σ τ) (d : Temp) (v : Value R) : Agree k (σ.write d v) (τ.write d v) := by
  refine ⟨h.rest, fun t ht => ?_⟩
  by_cases htd : t = d
  · rw [htd, State.write_temps_self, State.write_temps_self]
  · rw [State.write_temps_of_ne v htd, State.write_temps_of_ne v htd, h.temps t ht]

theorem write? (h : Agree k σ τ) (d : Option Temp) (v : Option (Value R)) :
    Agree k (σ.write? d v) (τ.write? d v) := by
  cases d with
  | none => exact h
  | some d =>
      cases v with
      | none => exact h
      | some v => exact h.write d v

theorem withRest (h : Agree k σ τ) (s : S) : Agree k { σ with rest := s } { τ with rest := s } :=
  ⟨rfl, h.temps⟩

end Agree

/-- The instruction reads no temporary from `k` on. -/
def Instr.ReadsBelow (k : Temp) (i : Instr) : Prop := ∀ t ∈ i.operands, t < k

variable {W : Type}

/-- Where a call ends in an outcome, the other one does, with the same world. -/
def CallRefines (call call' : String → List (Value R) → W → Ending R W) : Prop :=
  ∀ name args w, (call name args w).outcome.isFinal → call' name args w = call name args w

/-- A call that ends in no outcome fails in its caller. -/
theorem Frame.returning_of_not_isFinal {φ : Frame R W} {e : Ending R W}
    (h : e.outcome.isFinal = false) :
    ∃ f φ', φ.returning e = .failed f φ' ∧ (f = .stuck ∨ f = .exhausted) := by
  unfold Frame.returning
  cases ho : e.outcome with
  | returned v =>
      rw [ho] at h
      cases h
  | raised x =>
      rw [ho] at h
      cases h
  | failed f =>
      rw [ho] at h
      cases f with
      | stopped f => cases h
      | stuck => exact ⟨.stuck, _, rfl, .inl rfl⟩
      | exhausted => exact ⟨.exhausted, _, rfl, .inr rfl⟩

namespace Platform

variable {P : Platform R W} {call call' : String → List (Value R) → W → Ending R W}

/-- An instruction does the same when calls are run in another way, unless a call in it has no
outcome. -/
theorem step_refines (hcall : CallRefines call call') (i : Instr) (values : List (Value R))
    (φ : Frame R W) :
    P.step call' i values φ = P.step call i values φ ∨
      ∃ f φ', P.step call i values φ = .failed f φ' ∧ (f = .stuck ∨ f = .exhausted) := by
  have hreturning : ∀ name, φ.returning (call' name values φ.world) =
      φ.returning (call name values φ.world) ∨
      ∃ f φ', φ.returning (call name values φ.world) = .failed f φ' ∧
        (f = .stuck ∨ f = .exhausted) := by
    intro name
    cases hfinal : (call name values φ.world).outcome.isFinal with
    | true => exact .inl (by rw [hcall name values φ.world hfinal])
    | false => exact .inr (Frame.returning_of_not_isFinal hfinal)
  unfold Platform.step
  split
  case h_4 dest name args => exact hreturning name
  case h_5 =>
    split
    case h_1 name _ => exact hreturning name
    case h_2 => exact .inl rfl
  all_goals exact .inl rfl

/-- Instructions that only compute do not depend on how calls are run. -/
theorem exec_of_isBasic {i : Instr} (hi : i.isBasic) (σ : State R (Frame R W)) :
    (P.machine call').exec i σ = (P.machine call).exec i σ := by
  cases i with
  | check c => rfl
  | _ => first | rfl | cases hi

/-- What is not basic is decided by the machine. -/
theorem exec_of_not_isBasic {i : Instr} (hi : i.isBasic = false) (σ : State R (Frame R W)) :
    (P.machine call).exec i σ = (P.machine call).runOther i σ := by
  cases i <;> first | rfl | cases hi

theorem machine_other {i : Instr} {σ : State R (Frame R W)} {values : List (Value R)}
    (h : σ.readAll i.operands = .ok values) :
    (P.machine call).other i σ = P.step call i values σ.rest := by
  simp only [machine, h]

/-- An instruction of the caller does the same in states that agree. -/
theorem follows_exec (hcall : CallRefines call call') {k : Temp} {i : Instr}
    {σ τ : State R (Frame R W)} (hi : i.ReadsBelow k) (h : Agree k σ τ) :
    Follows (Agree k) (Agree k) Eq ((P.machine call).exec i σ) ((P.machine call').exec i τ) := by
  cases hbasic : i.isBasic with
  | true =>
      have htemps : ∀ t ∈ i.operands, ∀ v, σ.temps t = some v → τ.temps (id t) = some v := by
        intro t ht v hv
        rw [id, h.temps t (hi t ht), hv]
      have hsame : Follows (SameWrite i.dest? id σ τ) (Agree k) Eq ((P.machine call).exec i σ)
          ((P.machine call).exec ((i.mapOperands id).mapDest id) τ) :=
        follows_exec_of_isBasic hbasic htemps (fun c values => by rw [h.rest]) h.rest.symm
      rw [Instr.mapOperands_id, Instr.mapDest_id, ← exec_of_isBasic hbasic τ] at hsame
      refine hsame.mono ?_
      rintro σ' τ' (⟨_, rfl, rfl⟩ | ⟨d, v, _, rfl, rfl⟩)
      · exact h
      · exact h.write d v
  | false =>
      rw [exec_of_not_isBasic hbasic, exec_of_not_isBasic hbasic]
      unfold Machine.runOther
      have hread : τ.readAll i.operands = σ.readAll i.operands :=
        State.readAll_congr fun t ht => h.temps t (hi t ht)
      rw [hread]
      cases hvalues : σ.readAll i.operands with
      | error e =>
          obtain ⟨t, rfl⟩ := State.readAll_eq_error hvalues
          exact trivial
      | ok values =>
          rw [ok_bind, ok_bind, machine_other hvalues, machine_other (hread.trans hvalues), h.rest]
          rcases step_refines (P := P) hcall i values σ.rest with hstep | ⟨f, φ, hstep, hf⟩
          · rw [hstep]
            cases P.step call i values σ.rest with
            | done v φ => exact follows_ok ((h.write? i.dest? v).withRest φ)
            | failed f φ =>
                cases f with
                | stopped f => exact ⟨φ, rfl, rfl⟩
                | stuck => exact trivial
                | exhausted => exact trivial
            | thrown x φ => exact ⟨_, rfl, h.withRest φ⟩
          · rw [hstep]
            rcases hf with rfl | rfl
            · exact trivial
            · exact trivial

theorem exec_loadVar {σ : State R (Frame R W)} {d : Temp} {name : String} {v : Value R}
    (h : σ.rest.vars name = some v) :
    (P.machine call).exec (.loadVar d name) σ = .ok (σ.write d v) := by
  have hother : (P.machine call).other (.loadVar d name) σ = .done (some v) σ.rest := by
    simp [machine, Instr.operands, State.readAll, step, h]
  simp [Machine.exec, Machine.runOther, Instr.operands, State.readAll, hother, Instr.dest?,
    State.after, State.write?, State.write]

theorem exec_callStatic {call : String → List (Value R) → W → Ending R W} {dest : Option Temp}
    {name : String} {args : List Temp} {σ : State R (Frame R W)} {values : List (Value R)}
    (h : σ.readAll args = .ok values) :
    (P.machine call).exec (.callStatic dest name args) σ =
      σ.after dest (σ.rest.returning (call name values σ.rest.world)) := by
  have hother : (P.machine call).other (.callStatic dest name args) σ =
      σ.rest.returning (call name values σ.rest.world) := machine_other h
  change (P.machine call).runOther (.callStatic dest name args) σ = _
  unfold Machine.runOther
  rw [hother]
  change (σ.readAll args >>= _) = _
  rw [h, ok_bind]
  rfl

/-- Leaving a block does the same in states that agree, if entering the next block does. -/
theorem leave_agree {go go' : String → State R (Frame R W) → Ending R W} {k : Temp}
    {t : Terminator} {σ τ : State R (Frame R W)}
    (hgo : ∀ {label σ τ}, Agree k σ τ → (go label σ).outcome.isFinal → go' label τ = go label σ)
    (ht : ∀ u ∈ t.operands, u < k) (h : Agree k σ τ)
    (hfinal : (P.leave go t σ).outcome.isFinal) : P.leave go' t τ = P.leave go t σ := by
  cases t with
  | ret t =>
      simp only [leave] at hfinal ⊢
      rw [h.temps t (ht t (by simp [Terminator.operands])), h.rest]
  | retVoid => simp only [leave, h.rest]
  | jump label => exact hgo h hfinal
  | branch c a b =>
      simp only [leave] at hfinal ⊢
      rw [h.temps c (ht c (by simp [Terminator.operands])), h.rest]
      split at hfinal
      · exact hgo h hfinal
      · exact hgo h hfinal
      · cases hfinal
  | branchIter c a b =>
      simp only [leave] at hfinal ⊢
      rw [h.temps c (ht c (by simp [Terminator.operands])), h.rest]
      split at hfinal
      · exact hgo h hfinal
      · exact hgo h hfinal
      · cases hfinal
  | unreachable => cases hfinal

/-- What is left of a block ends in the same way, if its instructions follow and entering the next block
does the same. -/
theorem resume_follows {go go' : String → State R (Frame R W) → Ending R W} {k : Temp}
    {instrs instrs' : List Instr} {t : Terminator} {σ τ : State R (Frame R W)}
    (hgo : ∀ {label σ τ}, Agree k σ τ → (go label σ).outcome.isFinal → go' label τ = go label σ)
    (ht : ∀ u ∈ t.operands, u < k)
    (hinstrs : Follows (Agree k) (Agree k) Eq ((P.machine call).execAll instrs σ)
      ((P.machine call').execAll instrs' τ))
    (hfinal : (P.resume call go instrs t σ).outcome.isFinal) :
    P.resume call' go' instrs' t τ = P.resume call go instrs t σ := by
  unfold resume at hfinal ⊢
  cases hx : (P.machine call).execAll instrs σ with
  | ok σ' =>
      rw [hx] at hinstrs hfinal
      obtain ⟨τ', hy, h'⟩ := hinstrs
      rw [hy]
      exact leave_agree hgo ht h' hfinal
  | error halt =>
      rw [hx] at hinstrs hfinal
      cases halt with
      | undefined t => cases hfinal
      | mistyped c => cases hfinal
      | failed failure φ =>
          cases failure with
          | stuck => cases hfinal
          | exhausted => cases hfinal
          | stopped fault =>
              obtain ⟨_, hy, rfl⟩ := hinstrs
              rw [hy]
      | thrown x σ' =>
          obtain ⟨τ', hy, h'⟩ := hinstrs
          rw [hy]
          simp only [unwind] at hfinal ⊢
          rw [h'.rest]
          split at hfinal
          · exact hgo (h'.withRest _) hfinal
          · rfl

end Platform

end ProtoScript.Ir
