import ProtoScript.Proofs.Ir.Paths
import ProtoScript.Proofs.Machine.Standard

set_option autoImplicit false

/-!
# Points of a run

The points that a run of a function comes to, each with the state there and the instructions that have been
run since the start of the function (`Reaches`). From each of them the run goes on as the function does
(`Reaches.runFunction`), and each lies on a path of the function that an observer of states and instructions
takes (`Reaches.comes`): an exception goes to a handler that an instruction on the way has installed.
-/

namespace ProtoScript.Ir.Platform

variable {R W : Type} (P : Platform R W)

/-! ## Ends of blocks -/

/-- The label that control goes to from the end of a block. -/
def target? (t : Terminator) (σ : State R (Frame R W)) : Option String :=
  match t with
  | .jump label => some label
  | .branch c thenLabel elseLabel =>
    match σ.temps c with
    | some (.scalar (.bool b)) => some (if b then thenLabel else elseLabel)
    | _ => none
  | .branchIter t body done =>
    ((σ.temps t).bind (P.hasNext? σ.rest.world)).map fun more => if more then body else done
  | _ => none

theorem target?_mem_successors {t : Terminator} {σ : State R (Frame R W)} {l : String}
    (h : P.target? t σ = some l) : l ∈ t.successors := by
  unfold target? at h
  split at h
  · obtain rfl := Option.some.inj h
    exact List.mem_singleton_self _
  · split at h
    · obtain rfl := Option.some.inj h
      split
      · exact List.mem_cons_self
      · exact List.mem_cons_of_mem _ (List.mem_singleton_self _)
    · cases h
  · obtain ⟨more, _, rfl⟩ := Option.map_eq_some_iff.1 h
    split
    · exact List.mem_cons_self
    · exact List.mem_cons_of_mem _ (List.mem_singleton_self _)
  · cases h

theorem leave_of_target? {go : String → State R (Frame R W) → Ending R W} {t : Terminator}
    {σ : State R (Frame R W)} {l : String} (h : P.target? t σ = some l) : P.leave go t σ = go l σ := by
  unfold target? at h
  unfold leave
  split at h
  · obtain rfl := Option.some.inj h
    rfl
  · split at h
    · rename_i b hb
      obtain rfl := Option.some.inj h
      cases b with
      | true => simp only [hb, if_true]
      | false => simp only [hb, if_neg Bool.false_ne_true]
    · cases h
  · obtain ⟨more, hmore, rfl⟩ := Option.map_eq_some_iff.1 h
    cases more with
    | true => simp only [hmore, if_true]
    | false => simp only [hmore, if_neg Bool.false_ne_true]
  · cases h

/-! ## Points -/

/-- Where an exception is caught by a handler. -/
def caughtAt (x : Value R) (handlers : List String) (σ : State R (Frame R W)) : State R (Frame R W) :=
  { σ with rest := { σ.rest with handlers, caught := some x } }

section

variable (call : String → List (Value R) → W → Ending R W) (f : Function) (args : List (Value R)) (w : W)

/-- A run of the function comes with the state `σ` to the point of the block in front of the instructions
`rest`, and has run the instructions `past` then, the last first. -/
inductive Reaches : State R (Frame R W) → List Instr → Block → List Instr → Prop where
  | entry {b : Block} : f.entry? = some b → args.length = f.params.length →
      Reaches (start f args w) [] b b.instrs
  | step {σ τ : State R (Frame R W)} {past : List Instr} {b : Block} {i : Instr} {rest : List Instr} :
      Reaches σ past b (i :: rest) → (P.machine call).exec i σ = .ok τ → Reaches τ (i :: past) b rest
  | caught {σ τ : State R (Frame R W)} {past : List Instr} {b b' : Block} {i : Instr} {rest : List Instr}
      {x : Value R} {l : String} {handlers : List String} : Reaches σ past b (i :: rest) →
      (P.machine call).exec i σ = .error (.thrown x τ) → τ.rest.handlers = l :: handlers →
      f.block? l = some b' → Reaches (caughtAt x handlers τ) (i :: past) b' b'.instrs
  | leave {σ : State R (Frame R W)} {past : List Instr} {b b' : Block} {l : String} :
      Reaches σ past b [] → P.target? b.terminator σ = some l → f.block? l = some b' →
      Reaches σ past b' b'.instrs

end

variable {P} {call : String → List (Value R) → W → Ending R W} {f : Function} {args : List (Value R)} {w : W}
  {σ : State R (Frame R W)} {past : List Instr} {b : Block} {rest : List Instr}

/-- What is stuck may leave another world. -/
theorem outcome_resume_cons {go : String → State R (Frame R W) → Ending R W} {i : Instr} {t : Terminator}
    {τ : State R (Frame R W)} (h : (P.machine call).exec i σ = .ok τ) :
    (P.resume call go (i :: rest) t σ).outcome = (P.resume call go rest t τ).outcome := by
  simp only [resume, Machine.execAll_cons, h, ok_bind]
  split <;> rfl

theorem resume_cons_thrown {go : String → State R (Frame R W) → Ending R W} {i : Instr} {t : Terminator}
    {x : Value R} {τ : State R (Frame R W)} (h : (P.machine call).exec i σ = .error (.thrown x τ)) :
    P.resume call go (i :: rest) t σ = unwind go x τ := by
  simp only [resume, Machine.execAll_cons, h, error_bind]

theorem enter_block {n : Nat} {l : String} (h : f.block? l = some b) :
    P.enter call f (n + 1) l σ = P.resume call (P.enter call f n) b.instrs b.terminator σ := by
  simp only [enter, h]

/-- The run of a function ends as its run from each point that it comes to. -/
theorem Reaches.runFunction (h : P.Reaches call f args w σ past b rest) :
    ∃ k, ∀ n, (P.runFunction call (n + k) f args w).outcome =
      (P.resume call (P.enter call f n) rest b.terminator σ).outcome := by
  induction h with
  | @entry b hb hlength =>
      have hblock : f.block? b.label = some b := by
        obtain ⟨rest, hblocks⟩ := List.head?_eq_some_iff.1 hb
        simp [Function.block?, hblocks]
      refine ⟨1, fun n => ?_⟩
      simp only [Platform.runFunction, hb, if_pos hlength]
      exact congrArg Ending.outcome (enter_block hblock)
  | step _ hexec ih =>
      obtain ⟨k, hk⟩ := ih
      exact ⟨k, fun n => (hk n).trans (outcome_resume_cons hexec)⟩
  | @caught σ τ past b b' i rest x l handlers _ hexec hhandlers hblock ih =>
      obtain ⟨k, hk⟩ := ih
      refine ⟨k + 1, fun n => ?_⟩
      calc (P.runFunction call (n + (k + 1)) f args w).outcome
          = (P.runFunction call (n + 1 + k) f args w).outcome := by rw [Nat.add_right_comm, Nat.add_assoc]
        _ = (unwind (P.enter call f (n + 1)) x τ).outcome := by rw [hk, resume_cons_thrown hexec]
        _ = (P.enter call f (n + 1) l (caughtAt x handlers τ)).outcome := by
            simp only [unwind, hhandlers, caughtAt]
        _ = _ := congrArg Ending.outcome (enter_block hblock)
  | @leave σ past b b' l _ htarget hblock ih =>
      obtain ⟨k, hk⟩ := ih
      refine ⟨k + 1, fun n => ?_⟩
      calc (P.runFunction call (n + (k + 1)) f args w).outcome
          = (P.runFunction call (n + 1 + k) f args w).outcome := by rw [Nat.add_right_comm, Nat.add_assoc]
        _ = (P.leave (P.enter call f (n + 1)) b.terminator σ).outcome := hk (n + 1)
        _ = (P.enter call f (n + 1) l σ).outcome := by rw [P.leave_of_target? htarget]
        _ = _ := congrArg Ending.outcome (enter_block hblock)

/-! ## Handlers -/

/-- The frame that an effect leaves. -/
def effectFrame : Effect R (Frame R W) → Frame R W
  | .done _ φ | .failed _ φ | .thrown _ φ => φ

theorem handlers_inWorld (φ : Frame R W) (e : Effect R W) :
    (effectFrame (φ.inWorld e)).handlers = φ.handlers := by
  cases e <;> rfl

theorem handlers_returning (φ : Frame R W) (e : Ending R W) :
    (effectFrame (φ.returning e)).handlers = φ.handlers := by
  unfold Frame.returning
  cases e.outcome <;> rfl

/-- An instruction installs no handler but its own. -/
theorem handlers_step {i : Instr} {values : List (Value R)} {φ : Frame R W} {l : String}
    (hl : l ∈ (effectFrame (P.step call i values φ)).handlers) :
    l ∈ φ.handlers ∨ i.handler? = some l := by
  unfold step at hl
  split at hl
  case h_1 | h_3 | h_8 => exact .inl hl
  case h_2 | h_9 =>
    split at hl
    · exact .inl hl
    · exact .inl hl
  case h_4 =>
    rw [handlers_returning] at hl
    exact .inl hl
  case h_5 =>
    split at hl
    · rw [handlers_returning] at hl
      exact .inl hl
    · rw [handlers_inWorld] at hl
      exact .inl hl
  case h_6 =>
    rcases List.mem_cons.1 hl with rfl | hl
    · exact .inr rfl
    · exact .inl hl
  case h_7 => exact .inl (List.mem_of_mem_tail hl)
  case h_10 =>
    rw [handlers_inWorld] at hl
    exact .inl hl

theorem handlers_other {i : Instr} {l : String}
    (hl : l ∈ (effectFrame ((P.machine call).other i σ)).handlers) :
    l ∈ σ.rest.handlers ∨ i.handler? = some l := by
  simp only [machine] at hl
  split at hl
  · exact handlers_step hl
  · exact .inl hl

theorem handlers_exec {i : Instr} {τ : State R (Frame R W)} {l : String}
    (h : (P.machine call).exec i σ = .ok τ) (hl : l ∈ τ.rest.handlers) :
    l ∈ σ.rest.handlers ∨ i.handler? = some l := by
  obtain ⟨d, v, _, rfl⟩ | ⟨_, rfl⟩ | ⟨v, φ, hother, rfl⟩ := (P.machine call).exec_cases h
  · exact .inl hl
  · exact .inl hl
  · have hmem : l ∈ (effectFrame ((P.machine call).other i σ)).handlers := by
      rw [hother]
      exact hl
    exact handlers_other hmem

/-- What throws installs no handler. -/
theorem handlers_exec_thrown {i : Instr} {τ : State R (Frame R W)} {x : Value R} {l : String}
    (h : (P.machine call).exec i σ = .error (.thrown x τ)) (hl : l ∈ τ.rest.handlers) :
    l ∈ σ.rest.handlers := by
  obtain ⟨φ, hother, rfl⟩ := (P.machine call).exec_thrown h
  have hmem : l ∈ (effectFrame ((P.machine call).other i σ)).handlers := by
    rw [hother]
    exact hl
  rcases handlers_other hmem with hl | hi
  · exact hl
  · cases i with
    | setupTry label => cases hother
    | _ => cases hi

/-! ## Paths -/

/-- Remembers the state and the instructions that have been run. What is remembered at a handler can be
anything: the exception may come from a call. -/
def watch (P : Platform R W) (call : String → List (Value R) → W → Ending R W) (f : Function)
    (args : List (Value R)) (w : W) : Observer (State R (Frame R W) × List Instr) where
  start := (start f args w, [])
  after i x y := (P.machine call).exec i x.1 = .ok y.1 ∧ y.2 = i :: x.2
  caught _ _ := True

/-- A point on the paths of the function has installed the label as a handler. -/
def Installed {H : Type} (watch : Observer H) (f : Function) (l : String) : Prop :=
  ∃ x y b i rest, f.Comes watch x b (i :: rest) ∧ i.handler? = some l ∧ watch.after i x y

/-- A run follows the paths of its function. The induction needs to know that all open handlers have been
installed on the way, because an exception goes to the last of them from anywhere. -/
theorem Reaches.comes (h : P.Reaches call f args w σ past b rest) :
    f.Comes (P.watch call f args w) (σ, past) b rest ∧
      ∀ l ∈ σ.rest.handlers, Installed (P.watch call f args w) f l := by
  induction h with
  | entry hb _ => exact ⟨.entry hb, nofun⟩
  | @step σ τ past b i rest _ hexec ih =>
      obtain ⟨hcomes, hinstalled⟩ := ih
      have hafter : (P.watch call f args w).after i (σ, past) (τ, i :: past) := ⟨hexec, rfl⟩
      refine ⟨hcomes.step hafter, fun l hl => ?_⟩
      rcases handlers_exec hexec hl with hl | hl
      · exact hinstalled l hl
      · exact ⟨_, _, _, _, _, hcomes, hl, hafter⟩
  | @caught σ τ past b b' i rest x l handlers _ hexec hhandlers hblock ih =>
      obtain ⟨hcomes, hinstalled⟩ := ih
      have hthrown : ∀ l ∈ τ.rest.handlers, Installed (P.watch call f args w) f l :=
        fun l hl => hinstalled l (handlers_exec_thrown hexec hl)
      rw [hhandlers] at hthrown
      obtain ⟨hhere, hrest⟩ := List.forall_mem_cons.1 hthrown
      obtain ⟨_, _, _, _, _, hcomes, hl, hafter⟩ := hhere
      exact ⟨hcomes.handler hl hafter trivial hblock, hrest⟩
  | leave _ htarget hblock ih =>
      exact ⟨ih.1.leave (P.target?_mem_successors htarget) hblock, ih.2⟩

end ProtoScript.Ir.Platform
