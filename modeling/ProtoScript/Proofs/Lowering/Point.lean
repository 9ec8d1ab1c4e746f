import ProtoScript.Proofs.Lowering.Builder
import ProtoScript.Proofs.Machine.Follows

set_option autoImplicit false

/-!
# Running from a point of the builder

A point of the builder is a point of the finished function, and a run from there is a run of what is
still to be written (`Ends`). What lowering writes is followed step by step: an instruction
goes from the point before it to the point behind it, a terminator to a label, and a label to the
point where its block is started.
-/

namespace ProtoScript.Lowering

open Ir

/-- A finished function, and where it runs. -/
structure Target (R W : Type) where
  platform : Platform R W
  call : String → List (Value R) → W → Ending R W
  function : Function

namespace Target

variable {R W : Type} (T : Target R W)

/-- The machine on which the function runs. -/
def machine : Machine R (Frame R W) := T.platform.machine T.call

/-- Some run from the block with the label has the outcome. -/
def EndsAt (label : String) (σ : State R (Frame R W)) (o : Outcome R) : Prop :=
  ∃ n, (T.platform.enter T.call T.function n label σ).outcome = o

/-- Some run from the point of the builder has the outcome. -/
def Ends (b : Builder) (σ : State R (Frame R W)) (o : Outcome R) : Prop :=
  ∃ more term rest n, T.function.blocks = b.finished ++ ⟨b.label, b.code ++ more, term⟩ :: rest ∧
    (T.platform.resume T.call (T.platform.enter T.call T.function n) more term σ).outcome = o

/-- The run from one point comes to another. -/
def Reaches (b : Builder) (σ : State R (Frame R W)) (b' : Builder) (σ' : State R (Frame R W)) :
    Prop := ∀ o, T.Ends b' σ' o → T.Ends b σ o

/-- The run from a point comes to a label. -/
def ReachesLabel (b : Builder) (σ : State R (Frame R W)) (label : String)
    (σ' : State R (Frame R W)) : Prop := ∀ o, T.EndsAt label σ' o → T.Ends b σ o

variable {T} {b b' b'' : Builder} {σ σ' σ'' : State R (Frame R W)}

theorem Reaches.refl (b : Builder) (σ : State R (Frame R W)) : T.Reaches b σ b σ := fun _ ho => ho

theorem Reaches.trans (h : T.Reaches b σ b' σ') (h' : T.Reaches b' σ' b'' σ'') :
    T.Reaches b σ b'' σ'' := fun o ho => h o (h' o ho)

theorem Reaches.label (h : T.Reaches b σ b' σ') {label : String}
    (h' : T.ReachesLabel b' σ' label σ'') : T.ReachesLabel b σ label σ'' :=
  fun o ho => h o (h' o ho)

/-- What follows a computation of the source: a result with the given property, or the end of the
run with its failure. A computation that was cut off says nothing. -/
def Does {α : Type} (T : Target R W) (b : Builder) (σ : State R (Frame R W)) (x : Except Failure α)
    (post : α → Prop) : Prop :=
  match x with
  | .ok a => post a
  | .error f => f = .exhausted ∨ T.Ends b σ (.failed f)

section

variable {α β : Type} {x : Except Failure α}

theorem Does.bind {f : α → Except Failure β} {post : β → Prop}
    (h : T.Does b σ x fun a => T.Does b σ (f a) post) : T.Does b σ (x >>= f) post := by
  cases x with
  | ok a => exact h
  | error f => exact h

theorem Does.mono {post post' : α → Prop} (h : T.Does b σ x post)
    (hpost : ∀ a, x = .ok a → post a → post' a) : T.Does b σ x post' := by
  cases x with
  | ok a => exact hpost a rfl h
  | error f => exact h

/-- What follows from a point follows from every point that comes to it. -/
theorem Reaches.does (h : T.Reaches b σ b' σ') {post : α → Prop} (hx : T.Does b' σ' x post) :
    T.Does b σ x post := by
  cases x with
  | ok a => exact hx
  | error f =>
      rcases hx with hf | hends
      · exact .inl hf
      · exact .inr (h _ hends)

end

/-! ## Instructions -/

theorem reaches_emit {i : Instr} (h : T.machine.exec i σ = .ok σ') :
    T.Reaches b σ (b.emit i) σ' := by
  rintro o ⟨more, term, rest, n, hF, ho⟩
  refine ⟨i :: more, term, rest, n, ?_, ?_⟩
  · rw [hF]
    simp [Builder.emit]
  · rw [← ho]
    have hexec : (T.platform.machine T.call).exec i σ = .ok σ' := h
    simp only [Platform.resume, Machine.execAll_cons, hexec, ok_bind]
    cases (T.platform.machine T.call).execAll more σ' with
    | ok τ => rfl
    | error halt => cases halt <;> rfl

/-- An instruction that fails ends the run. -/
theorem ends_of_failed {i : Instr} {f : Failure} {φ : Frame R W}
    (hF : Extends T.function (b.emit i)) (h : T.machine.exec i σ = .error (.failed f φ)) :
    T.Ends b σ (.failed f) := by
  obtain ⟨more, term, rest, hF, _⟩ := hF
  refine ⟨i :: more, term, rest, 0, ?_, ?_⟩
  · rw [hF]
    simp [Builder.emit]
  · have hexec : (T.platform.machine T.call).exec i σ = .error (.failed f φ) := h
    simp only [Platform.resume, Machine.execAll_cons, hexec, error_bind]

/-! ## Terminators and labels -/

/-- At the end of a block the terminator decides. -/
theorem ends_of_leave {t : Terminator} {o : Outcome R} {n : Nat}
    (hF : Extends T.function (b.finish t))
    (h : (T.platform.leave (T.platform.enter T.call T.function n) t σ).outcome = o) :
    T.Ends b σ o := by
  obtain ⟨more, term, rest, hF, hended⟩ := hF
  obtain ⟨rfl, rfl⟩ := hended t rfl
  exact ⟨[], term, rest, n, hF, h⟩

theorem reachesLabel_jump {label : String} (hF : Extends T.function (b.finish (.jump label))) :
    T.ReachesLabel b σ label σ := by
  rintro o ⟨n, ho⟩
  exact ends_of_leave hF ho

theorem reachesLabel_branch {c : Temp} {thenLabel elseLabel : String} {v : Bool}
    (hF : Extends T.function (b.finish (.branch c thenLabel elseLabel)))
    (hc : σ.temps c = some (.scalar (.bool v))) :
    T.ReachesLabel b σ (if v then thenLabel else elseLabel) σ := by
  rintro o ⟨n, ho⟩
  refine ends_of_leave (n := n) hF ?_
  simp only [Platform.leave, hc]
  cases v with
  | true => exact ho
  | false => exact ho

theorem ends_ret {t : Temp} {v : Value R} (hF : Extends T.function (b.finish (.ret t)))
    (ht : σ.temps t = some v) : T.Ends b σ (.returned (some v)) := by
  refine ends_of_leave (n := 0) hF ?_
  simp only [Platform.leave, ht]

theorem ends_retVoid (hF : Extends T.function (b.finish .retVoid)) :
    T.Ends b σ (.returned none) :=
  ends_of_leave (n := 0) hF rfl

theorem ends_unreachable (hF : Extends T.function (b.finish .unreachable)) :
    T.Ends b σ (.failed .stuck) :=
  ends_of_leave (n := 0) hF rfl

/-- A label is where its block was started. -/
theorem endsAt_of_ends {label : String} {o : Outcome R} (hfree : label ∉ b.labels)
    (h : T.Ends (b.start label) σ o) : T.EndsAt label σ o := by
  obtain ⟨more, term, rest, n, hF, ho⟩ := h
  have hblock : T.function.block? label = some ⟨label, more, term⟩ := by
    unfold Function.block?
    rw [hF, List.find?_append]
    have hnone : (b.start label).finished.find? (fun x => x.label == label) = none := by
      rw [List.find?_eq_none]
      intro x hx hlabel
      refine hfree ?_
      have hmem : x.label ∈ b.labels := by
        have hmap := List.mem_map_of_mem (f := Block.label) hx
        simpa [Builder.start, Builder.blocks, Builder.labels] using hmap
      rwa [beq_iff_eq.1 hlabel] at hmem
    rw [hnone]
    simp [Builder.start]
  refine ⟨n + 1, ?_⟩
  simp only [Platform.enter, hblock]
  exact ho

/-- Control that comes to a label comes to the start of its block. -/
theorem ReachesLabel.start {label : String} (h : T.ReachesLabel b σ label σ')
    (hfree : label ∉ b'.labels) : T.Reaches b σ (b'.start label) σ' :=
  fun o ho => h o (endsAt_of_ends hfree ho)

end Target

/-! ## Single instructions -/

section

variable {R W : Type} {T : Target R W} {σ : State R (Frame R W)}

theorem exec_loadVar_none {d : Temp} {y : String} (h : σ.rest.vars y = none) :
    T.machine.exec (.loadVar d y) σ = .error (.failed .stuck σ.rest) := by
  have hother : (T.platform.machine T.call).other (.loadVar d y) σ = .failed .stuck σ.rest := by
    simp [Platform.machine, Instr.operands, State.readAll, Platform.step, h]
  simp [Target.machine, Machine.exec, Machine.runOther, Instr.operands, State.readAll, hother,
    State.after]

/-- Storing a temporary changes the variable and no temporary. -/
theorem exec_storeVar {y : String} {t : Temp} {v : Value R} (h : σ.temps t = some v) :
    ∃ σ', T.machine.exec (.storeVar y t) σ = .ok σ' ∧ σ'.temps = σ.temps ∧
      ∀ z, σ'.rest.vars z = if z = y then some v else σ.rest.vars z := by
  have hread : σ.readAll (Instr.storeVar y t).operands = .ok [v] := by
    simp [Instr.operands, State.readAll, State.read_of_some h]
  have hexec : T.machine.exec (.storeVar y t) σ =
      σ.after none (T.platform.step T.call (.storeVar y t) [v] σ.rest) := by
    simp only [Target.machine, Machine.exec, Machine.runOther]
    rw [hread, ok_bind, Platform.machine_other hread]
    rfl
  exact ⟨_, hexec, rfl, fun _ => rfl⟩

/-- A declaration takes the value of the variable away. -/
theorem exec_varDecl (y : String) (ty : Ty) :
    ∃ σ', T.machine.exec (.varDecl y ty) σ = .ok σ' ∧ σ'.temps = σ.temps ∧
      ∀ z, σ'.rest.vars z = if z = y then none else σ.rest.vars z := by
  have hread : σ.readAll (Instr.varDecl y ty).operands = .ok [] := rfl
  have hexec : T.machine.exec (.varDecl y ty) σ =
      σ.after none (T.platform.step T.call (.varDecl y ty) [] σ.rest) := by
    simp only [Target.machine, Machine.exec, Machine.runOther]
    rw [hread, ok_bind, Platform.machine_other hread]
    rfl
  exact ⟨_, hexec, rfl, fun _ => rfl⟩

end

/-! ## Variables and temporaries -/

/-- A variable of the function holds the value of a variable of the source. -/
def Holds {R W : Type} (σ : State R (Frame R W)) (y : String) (w : Option Constant) : Prop :=
  σ.rest.vars y = w.map .scalar

/-- The variables of the function hold the values of those of the source. -/
def Matches {R W : Type} (scopes : Frames String) (σ : State R (Frame R W)) (ρ : Env) : Prop :=
  Frames.Rel (Holds σ) scopes ρ

/-- What the builder has given out so far is as it was. -/
structure Undisturbed {R W : Type} (b : Builder) (σ σ' : State R (Frame R W)) : Prop where
  temps : ∀ t < b.nextTemp, σ'.temps t = σ.temps t
  vars : ∀ y ∈ b.used, σ'.rest.vars y = σ.rest.vars y

section

variable {R W : Type} {b b' : Builder} {σ σ' σ'' : State R (Frame R W)}

theorem Undisturbed.refl (b : Builder) (σ : State R (Frame R W)) : Undisturbed b σ σ :=
  ⟨fun _ _ => rfl, fun _ _ => rfl⟩

theorem Undisturbed.trans (h : Undisturbed b σ σ') (h' : Undisturbed b σ' σ'') :
    Undisturbed b σ σ'' where
  temps t ht := (h'.temps t ht).trans (h.temps t ht)
  vars y hy := (h'.vars y hy).trans (h.vars y hy)

/-- An earlier builder has given out less. -/
theorem Undisturbed.of_step (hs : Step b b') (h : Undisturbed b' σ σ') : Undisturbed b σ σ' where
  temps t ht := h.temps t (Nat.lt_of_lt_of_le ht hs.nextTemp)
  vars y hy := h.vars y (hs.used y hy)

theorem Undisturbed.write {t : Temp} (ht : b.nextTemp ≤ t) (v : Value R) :
    Undisturbed b σ (σ.write t v) where
  temps _ hu := State.write_temps_of_ne v (Nat.ne_of_lt (Nat.lt_of_lt_of_le hu ht))
  vars _ _ := rfl

/-- A variable that is new to the builder may be changed. -/
theorem Undisturbed.of_vars {y : String} (hy : y ∉ b.used) {w : Option (Value R)}
    (htemps : σ'.temps = σ.temps)
    (hvars : ∀ z, σ'.rest.vars z = if z = y then w else σ.rest.vars z) : Undisturbed b σ σ' where
  temps t _ := by rw [htemps]
  vars z hz := by
    rw [hvars z, if_neg]
    rintro rfl
    exact hy hz

/-- What the names of the source stand for is kept with the variables of the builder. -/
theorem Matches.undisturbed {scopes : Frames String} {ρ : Env} (h : Matches scopes σ ρ)
    (hused : ∀ y ∈ Frames.values scopes, y ∈ b.used) (hu : Undisturbed b σ σ') :
    Matches scopes σ' ρ := by
  refine Frames.Rel.mono h fun y hy w hw => ?_
  unfold Holds at *
  rw [hu.vars y (hused y hy), hw]

end

end ProtoScript.Lowering
