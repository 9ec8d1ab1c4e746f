import ProtoScript.Optimize.Checks
import ProtoScript.Proofs.Machine.Heap

set_option autoImplicit false

/-!
# Dropping repeated checks keeps the meaning of blocks

A block behaves the same before and after repeated checks are dropped, on every machine whose
instructions without side effects leave the containers alone. The invariant is that every check
in `seen` passes in the current state (`Passed`). It is lost in one of two ways. A temporary
that the check reads may be defined anew, which no check may suffer (`checksFollowDefs`). Or a
container may change, which only an instruction with side effects does, and then the checks on
containers are no longer among `seen`.
-/

namespace ProtoScript.Ir

/-! ## Checks and definitions -/

/-- Every check reads temporaries that are defined before it, or are not defined after it. -/
def checksFollowDefs (defined : List Temp) : List Instr → Bool
  | [] => true
  | i :: rest =>
    (!i.isCheck || i.operands.all fun t =>
      defined.contains t || !(rest.filterMap Instr.dest?).contains t) &&
      checksFollowDefs (i.dest?.toList ++ defined) rest

namespace Machine

variable {R S : Type} (M : Machine R S)

/-! ## Conditions that stay true -/

/-- The condition of a check stays as it is while the containers do. -/
theorem holds?_of_keeps {s s' : S} {c : Check} {values : List (Value R)} {b : Bool}
    (hs : M.Keeps s s') (h : M.holds? s c values = some b) : M.holds? s' c values = some b := by
  unfold holds? at h ⊢
  split at h
  case h_5 object i =>
    obtain ⟨n, hn, rfl⟩ := Option.map_eq_some_iff.1 h
    simp only [hs.length hn, Option.map_some]
  case h_6 map key => exact hs.hasKey h
  all_goals exact h

/-- The condition of a check on numbers does not depend on the containers. -/
theorem holds?_of_not_dependsOnContainer {c : Check} (hc : c.dependsOnContainer = false) (s s' : S)
    (values : List (Value R)) : M.holds? s c values = M.holds? s' c values := by
  unfold holds?
  split
  case h_5 => cases hc
  case h_6 => cases hc
  all_goals rfl

theorem runCheck_eq_ok {c : Check} {σ τ : State R S} :
    M.runCheck c σ = .ok τ ↔
      τ = σ ∧ ∃ values, σ.readAll c.operands = .ok values ∧ M.holds? σ.rest c values = some true := by
  constructor
  · intro h
    have hτ := M.eq_of_runCheck h
    obtain ⟨values, hv, h⟩ := bind_eq_ok.1 h
    refine ⟨hτ, values, hv, ?_⟩
    split at h
    case h_1 hholds => exact hholds
    case h_2 => cases h
    case h_3 => cases h
  · rintro ⟨rfl, values, hv, hholds⟩
    simp [runCheck, hv, hholds]

/-- A check that passes goes on passing if its temporaries are not defined anew and, where it speaks of
a container, the containers do not change. -/
theorem runCheck_exec (hM : M.Quiet) {c : Check} {i : Instr} {σ τ : State R S}
    (hc : M.runCheck c σ = .ok σ) (hi : M.exec i σ = .ok τ)
    (htemps : ∀ t ∈ c.operands, i.dest? ≠ some t)
    (heffect : i.hasSideEffects = true → c.dependsOnContainer = false) :
    M.runCheck c τ = .ok τ := by
  obtain ⟨-, values, hv, hholds⟩ := M.runCheck_eq_ok.1 hc
  refine M.runCheck_eq_ok.2 ⟨rfl, values, ?_, ?_⟩
  · rw [← hv]
    exact State.readAll_congr fun t ht => M.exec_temps hi (htemps t ht)
  · cases hside : i.hasSideEffects with
    | false => exact M.holds?_of_keeps (M.exec_keeps hM hi hside) hholds
    | true => rw [M.holds?_of_not_dependsOnContainer (heffect hside) τ.rest σ.rest, hholds]

/-! ## Runs -/

/-- Every one of the checks passes. -/
def Passed (seen : List Check) (σ : State R S) : Prop := ∀ c ∈ seen, M.runCheck c σ = .ok σ

/-- The checks that remain after an instruction pass after it. -/
theorem Passed.exec (hM : M.Quiet) {seen : List Check} {i : Instr} {σ τ : State R S}
    (hseen : M.Passed seen σ) (hi : M.exec i σ = .ok τ)
    (htemps : ∀ c ∈ seen, ∀ t ∈ c.operands, i.dest? ≠ some t) :
    M.Passed (if i.hasSideEffects then seen.filter fun c => !c.dependsOnContainer else seen) τ := by
  intro c hc
  cases hside : i.hasSideEffects with
  | false =>
      rw [hside, if_neg Bool.false_ne_true] at hc
      exact M.runCheck_exec hM (hseen c hc) hi (htemps c hc) fun h => by simp [hside] at h
  | true =>
      rw [hside, if_pos rfl, List.mem_filter] at hc
      exact M.runCheck_exec hM (hseen c hc.1) hi (htemps c hc.1) fun _ => by simpa using hc.2

/-- Dropping the checks that are among those passed. The induction is on the instructions; beside the
invariant it carries that no temporary of a passed check is defined later on. -/
theorem execAll_dropRepeatedChecks (hM : M.Quiet) {instrs : List Instr} {seen : List Check}
    {defined : List Temp} {σ : State R S} (hseen : M.Passed seen σ)
    (hstable : ∀ c ∈ seen, ∀ t ∈ c.operands, t ∉ instrs.filterMap Instr.dest?)
    (hnodup : (instrs.filterMap Instr.dest?).Nodup)
    (hdefined : ∀ t ∈ defined, t ∉ instrs.filterMap Instr.dest?)
    (hchecks : checksFollowDefs defined instrs) :
    M.execAll (dropRepeatedChecks seen instrs).1 σ = M.execAll instrs σ := by
  induction instrs generalizing seen defined σ with
  | nil => rfl
  | cons i rest ih =>
      simp only [checksFollowDefs, Bool.and_eq_true] at hchecks
      obtain ⟨hcheck, hrest⟩ := hchecks
      have hstable' : ∀ c ∈ seen, ∀ t ∈ c.operands, t ∉ rest.filterMap Instr.dest? :=
        fun c hc t ht hd => hstable c hc t ht (mem_dests_cons.2 (.inr hd))
      have hnodup' := nodup_dests_tail hnodup
      have hdefined' : ∀ t ∈ i.dest?.toList ++ defined, t ∉ rest.filterMap Instr.dest? := by
        intro t ht
        rcases List.mem_append.1 ht with ht | ht
        · exact not_mem_dests_of_nodup hnodup (Option.mem_toList.1 ht)
        · exact fun hd => hdefined t ht (mem_dests_cons.2 (.inr hd))
      unfold dropRepeatedChecks
      split
      case h_1 c =>
        split
        case isTrue hmem =>
          -- The check is one of those that pass: leaving it out changes nothing.
          have hpass : M.exec (.check c) σ = .ok σ := hseen c (by simpa using hmem)
          rw [execAll_cons, hpass, ok_bind]
          exact ih hseen hstable' hnodup' hdefined' hrest
        case isFalse =>
          simp only [execAll_cons]
          cases hc : M.exec (.check c) σ with
          | error h => rfl
          | ok τ =>
              have hτ : τ = σ := M.eq_of_runCheck hc
              subst hτ
              refine ih ?_ ?_ hnodup' hdefined' hrest
              · intro c' hc'
                rcases List.mem_append.1 hc' with hc' | hc'
                · exact hseen c' hc'
                · rw [List.mem_singleton.1 hc']
                  exact hc
              · intro c' hc' t ht
                rcases List.mem_append.1 hc' with hc' | hc'
                · exact hstable' c' hc' t ht
                · rw [List.mem_singleton.1 hc'] at ht
                  simp only [Instr.isCheck, Bool.not_true, Bool.false_or, List.all_eq_true] at hcheck
                  have hor := hcheck t ht
                  simp only [Bool.or_eq_true, List.contains_iff_mem, Bool.not_eq_true',
                    ← Bool.not_eq_true] at hor
                  rcases hor with hor | hor
                  · exact hdefined' t (List.mem_append_right _ hor)
                  · exact hor
      case h_2 =>
        simp only [execAll_cons]
        cases hi : M.exec i σ with
        | error h => rfl
        | ok τ =>
            have htemps : ∀ c ∈ seen, ∀ t ∈ c.operands, i.dest? ≠ some t :=
              fun c hc t ht hd => hstable c hc t ht (mem_dests_cons.2 (.inl hd))
            refine ih (hseen.exec M hM hi htemps) ?_ hnodup' hdefined' hrest
            intro c hc
            refine hstable' c ?_
            split at hc
            · exact (List.mem_filter.1 hc).1
            · exact hc

end Machine

/-! ## Blocks -/

/-- Dropping repeated checks keeps the meaning of every block of a function that defines each temporary
at most once, if the block checks no temporary before it defines it. From every state both blocks end
in the same way: with the same failed check, the same exception or the same final state. -/
theorem Block.execAll_dropChecks {R S : Type} (M : Machine R S) (hM : M.Quiet) {f : Function}
    {b : Block} (hb : b ∈ f.blocks) (hdefs : (f.instrs.filterMap Instr.dest?).Nodup)
    (hchecks : checksFollowDefs [] b.instrs) (σ : State R S) :
    b.dropChecks.1.label = b.label ∧ b.dropChecks.1.terminator = b.terminator ∧
      M.execAll b.dropChecks.1.instrs σ = M.execAll b.instrs σ := by
  refine ⟨rfl, rfl, ?_⟩
  refine M.execAll_dropRepeatedChecks hM ?_ ?_ (hdefs.sublist (Function.dests_sublist hb)) ?_ hchecks
  · intro c hc
    cases hc
  · intro c hc
    cases hc
  · intro t ht
    cases ht

/-- Reads an item of a list twice, and once more after the list was cleared. -/
def readThrice : Block where
  label := "entry"
  instrs :=
    [.const 0 (.int 0), .makeList 1 .int [0], .check (.indexBounds 1 0), .indexGet 2 1 0,
      .check (.indexBounds 1 0), .indexGet 3 1 0, .listClear 1, .check (.indexBounds 1 0),
      .indexGet 4 1 0]
  terminator := .retVoid

/-- The second check goes and the third stays: the run stops there. -/
theorem execAll_dropChecks_readThrice :
    readThrice.dropChecks.2 = 1 ∧
      ∃ φ, Heap.machine.execAll readThrice.dropChecks.1.instrs
        (Platform.start ⟨"f", [], .void, [readThrice]⟩ [] .empty) =
          .error (.failed (.stopped .indexBounds) φ) := by
  refine ⟨rfl, ?_⟩
  have hsame := Block.execAll_dropChecks Heap.machine (Heap.quiet_machine _)
    (f := ⟨"f", [], .void, [readThrice]⟩) (b := readThrice) (by simp) (by decide) (by decide)
    (Platform.start ⟨"f", [], .void, [readThrice]⟩ [] .empty)
  rw [hsame.2.2]
  exact ⟨_, rfl⟩

/-- Checks a temporary before and after the only instruction that defines it. -/
def checkedEarly : Block where
  label := "entry"
  instrs := [.check (.divZero 0), .const 0 (.int 0), .check (.divZero 0)]
  terminator := .retVoid

/-- That each temporary of the function is defined once is not enough. In a state where the temporary has
a value already, nothing undefined is read; the second check fails, and it is dropped. -/
theorem execAll_dropChecks_checkedEarly :
    Heap.machine.Quiet ∧
      ((Function.mk "f" [] .void [checkedEarly]).instrs.filterMap Instr.dest?).Nodup ∧
      ∃ σ : State Nat (Frame Nat Heap),
        Heap.machine.execAll checkedEarly.instrs σ = .error (.failed (.stopped .divZero) σ.rest) ∧
        ∃ τ, Heap.machine.execAll checkedEarly.dropChecks.1.instrs σ = .ok τ := by
  refine ⟨Heap.quiet_machine _, by decide, ?_⟩
  let entry : State Nat (Frame Nat Heap) :=
    (Platform.start ⟨"f", [], .void, [checkedEarly]⟩ [] .empty).write 0 (.scalar (.int 1))
  exact ⟨entry, rfl, _, rfl⟩

end ProtoScript.Ir
