import ProtoScript.Proofs.Machine.Heap
import ProtoScript.Proofs.Machine.Reaches

set_option autoImplicit false

/-!
# Positions in containers

An index that is in bounds stays so until an instruction runs that may change how many items a container
has (`Instr.resizes`), provided that the platform changes no number of items otherwise (`Platform.Sized`).
The platform with lists and maps is such a one (`Heap.sized`).
-/

namespace ProtoScript.Ir

/-- The instruction may change how many items some container has. A write to a map may add a key, and calls
may run anything. -/
def Instr.resizes : Instr → Bool
  | indexSet .. | listPush .. | listPop .. | listClear _ | mapRemove .. | callStatic .. | callMethod ..
  | callForeign .. => true
  | _ => false

/-- The instruction checks the bounds of the container for the index. -/
def Instr.checksBounds (object index : Temp) : Instr → Bool
  | check (.indexBounds o i) => o == object && i == index
  | _ => false

theorem Instr.eq_of_checksBounds {object index : Temp} {i : Instr} (h : i.checksBounds object index) :
    i = .check (.indexBounds object index) := by
  unfold Instr.checksBounds at h
  split at h
  · simp only [Bool.and_eq_true, beq_iff_eq] at h
    obtain ⟨rfl, rfl⟩ := h
    rfl
  · cases h

/-- The instructions that have been run since the bounds were checked, the last first. -/
def sinceCheck (object index : Temp) (past : List Instr) : List Instr :=
  past.takeWhile fun i => !i.checksBounds object index

namespace Platform

variable {R W : Type}

/-- No container changes its number of items but by an instruction that says so. -/
structure Sized (P : Platform R W) : Prop where
  notice : ∀ {i : Instr} {values : List (Value R)} {w : W} {r : Value R} {n : Nat},
    P.length? w r = some n → P.length? (P.notice i values w) r = some n
  other : ∀ {i : Instr} {values : List (Value R)} {w w' : W} {v : Option (Value R)} {r : Value R} {n : Nat},
    i.resizes = false → P.other i values w = .done v w' → P.length? w r = some n →
      P.length? w' r = some n

/-- The index is at least zero and below the number of items of the container. -/
def InBounds (P : Platform R W) (σ : State R (Frame R W)) (object index : Temp) : Prop :=
  ∃ r k n, σ.temps object = some r ∧ σ.temps index = some (.scalar (.int k)) ∧
    P.length? σ.rest.world r = some n ∧ 0 ≤ k.toInt ∧ k.toInt < n

variable {P : Platform R W} {call : String → List (Value R) → W → Ending R W} {σ τ : State R (Frame R W)}
  {i : Instr}

theorem Sized.step (hP : P.Sized) (hi : i.resizes = false) {values : List (Value R)} {φ φ' : Frame R W}
    {v : Option (Value R)} (h : P.step call i values φ = .done v φ') {r : Value R} {n : Nat}
    (hn : P.length? φ.world r = some n) : P.length? φ'.world r = some n := by
  unfold Platform.step at h
  split at h
  case h_1 | h_3 =>
    obtain ⟨_, rfl⟩ := Effect.done.inj h
    exact hP.notice hn
  case h_2 | h_9 =>
    split at h
    · obtain ⟨_, rfl⟩ := Effect.done.inj h
      exact hn
    · cases h
  case h_4 | h_5 => cases hi
  case h_6 | h_7 =>
    obtain ⟨_, rfl⟩ := Effect.done.inj h
    exact hn
  case h_8 => cases h
  case h_10 =>
    cases hother : P.other i values φ.world with
    | done v' w =>
        rw [hother] at h
        obtain ⟨_, rfl⟩ := Effect.done.inj h
        exact hP.other hi hother hn
    | failed f w =>
        rw [hother] at h
        cases h
    | thrown x w =>
        rw [hother] at h
        cases h

theorem Sized.exec (hP : P.Sized) (hi : i.resizes = false) (h : (P.machine call).exec i σ = .ok τ)
    {r : Value R} {n : Nat} (hn : P.length? σ.rest.world r = some n) :
    P.length? τ.rest.world r = some n := by
  obtain ⟨d, v, _, rfl⟩ | ⟨_, rfl⟩ | ⟨v, φ, hother, rfl⟩ := (P.machine call).exec_cases h
  · exact hn
  · exact hn
  · simp only [machine] at hother
    split at hother
    · exact hP.step hi hother hn
    · cases hother

/-- An index stays in bounds. -/
theorem InBounds.exec {object index : Temp} (h : P.InBounds σ object index) (hP : P.Sized)
    (hi : i.resizes = false) (hobject : i.dest? ≠ some object) (hindex : i.dest? ≠ some index)
    (hexec : (P.machine call).exec i σ = .ok τ) : P.InBounds τ object index := by
  obtain ⟨r, k, n, hr, hk, hn, hbounds⟩ := h
  refine ⟨r, k, n, ?_, ?_, hP.exec hi hexec hn, hbounds⟩
  · rw [(P.machine call).exec_temps hexec hobject, hr]
  · rw [(P.machine call).exec_temps hexec hindex, hk]

/-- The bounds of a container are checked for an integer. -/
theorem holds?_indexBounds {M : Machine R (Frame R W)} {φ : Frame R W} {object index : Temp} {r x : Value R}
    (h : M.holds? φ (.indexBounds object index) [r, x] = some true) :
    ∃ k n, x = .scalar (.int k) ∧ M.length? φ r = some n ∧ 0 ≤ k.toInt ∧ k.toInt < n := by
  cases x with
  | ref r => cases h
  | scalar c =>
      cases c with
      | int k =>
          obtain ⟨n, hn, hbounds⟩ := Option.map_eq_some_iff.1 h
          simp only [Bool.and_eq_true, decide_eq_true_eq] at hbounds
          exact ⟨k, n, rfl, hn, hbounds⟩
      | _ => cases h

/-- Behind a check of the bounds the index is in bounds. -/
theorem inBounds_of_check {object index : Temp}
    (h : (P.machine call).exec (.check (.indexBounds object index)) σ = .ok τ) :
    P.InBounds τ object index := by
  obtain rfl := (P.machine call).eq_of_runCheck h
  obtain ⟨values, hvalues, hholds⟩ := bind_eq_ok.1 h
  obtain ⟨r, hr, hvalues⟩ := bind_eq_ok.1 hvalues
  obtain ⟨rest, hrest, hvalues⟩ := bind_eq_ok.1 hvalues
  obtain ⟨x, hx, hrest⟩ := bind_eq_ok.1 hrest
  cases hrest
  cases hvalues
  rw [State.read_eq_ok] at hr hx
  split at hholds
  · rename_i hcond
    obtain ⟨k, n, rfl, hn, hbounds⟩ := holds?_indexBounds hcond
    exact ⟨r, k, n, hr, hx, hn, hbounds⟩
  · cases hholds
  · cases hholds

end Platform

namespace Heap

theorem resizes_of_update? {i : Instr} {args : List (Value Nat)} {c : Cell}
    {u : Cell × Option (Value Nat)} (h : c.update? i args = some u) : i.resizes = true := by
  unfold Cell.update? at h
  split at h
  case h_7 => cases h
  all_goals rfl

/-- All containers are as they were, and there may be one more. -/
theorem cells_of_step_done {i : Instr} {values : List (Value Nat)} {h h' : Heap} {v : Option (Value Nat)}
    (hi : i.resizes = false) (hs : h.step i values = .done v h') : ∃ new, h'.cells = h.cells ++ new := by
  unfold step at hs
  split at hs
  case h_1 | h_2 =>
    obtain ⟨_, rfl⟩ := Effect.done.inj hs
    exact ⟨_, rfl⟩
  case h_3 =>
    obtain ⟨_, rfl⟩ := Effect.done.inj hs
    exact ⟨[], (List.append_nil _).symm⟩
  case h_4 =>
    split at hs
    case h_1 =>
      obtain ⟨_, rfl⟩ := Effect.done.inj hs
      exact ⟨[], (List.append_nil _).symm⟩
    case h_2 hu =>
      obtain ⟨_, _, hu⟩ := Option.bind_eq_some_iff.1 hu
      rw [resizes_of_update? hu] at hi
      cases hi
    case h_3 => cases hs
  case h_5 => cases hs

theorem sized : platform.Sized where
  notice h := h
  other := by
    intro i values h h' v r n hi hs hn
    obtain ⟨new, hcells⟩ := cells_of_step_done hi hs
    have hlength : h'.length? r = length? { h with cells := h.cells ++ new } r := by
      cases r with
      | scalar c => rfl
      | ref r =>
          unfold length? cell?
          rw [hcells]
    exact hlength.trans (length?_append hn new)

end Heap

end ProtoScript.Ir
