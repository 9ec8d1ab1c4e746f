import ProtoScript.Proofs.Machine.Standard

set_option autoImplicit false

/-!
# A platform with lists and maps

Containers live in a heap and are shared by reference: a value refers to a container by its number,
and every holder of the number sees each change. The heap also keeps what was printed. Objects,
windows, loops over containers and foreign functions are beyond this platform; what it has no
meaning for is stuck.

The main result is that the instructions without side effects change no container (`quiet_machine`).
-/

namespace ProtoScript.Ir

/-! ## Containers -/

/-- A container. -/
inductive Cell where
  | list (items : List (Value Nat))
  | map (entries : List (Value Nat × Value Nat))

/-- The containers by number, and what was printed, the last first. -/
structure Heap where
  cells : List Cell
  output : List (Value Nat)

/-- Equality of values; containers are equal if they are one. -/
def Value.same : Value Nat → Value Nat → Bool
  | scalar a, scalar b => a.same b
  | ref r, ref r' => r == r'
  | _, _ => false

/-- The entries of a map from keys and values that take turns. -/
def pairs {α : Type} : List α → List (α × α)
  | k :: v :: rest => (k, v) :: pairs rest
  | _ => []

/-- What an instruction makes of the container it works on, and its value. -/
def Cell.update? : Instr → List (Value Nat) → Cell → Option (Cell × Option (Value Nat))
  | .indexSet .., [.scalar (.int i), x], list items => some (list (items.set i.toInt.toNat x), none)
  | .indexSet .., [key, x], map entries =>
    some (map ((key, x) :: entries.filter fun e => !e.1.same key), none)
  | .listPush .., [x], list items => some (list (items ++ [x]), none)
  | .listPop .., [], list items => items.getLast?.map fun x => (list items.dropLast, some x)
  | .listClear _, [], list _ => some (list [], none)
  | .mapRemove .., [key], map entries => some (map (entries.filter fun e => !e.1.same key), none)
  | _, _, _ => none

/-- What an instruction reads from the container it works on. -/
def Cell.get? : Instr → List (Value Nat) → Cell → Option (Value Nat)
  | .indexGet .., [.scalar (.int i)], list items => items[i.toInt.toNat]?
  | .indexGet .., [key], map entries => (entries.find? fun e => e.1.same key).map Prod.snd
  | .mapHas .., [key], map entries => some (.scalar (.bool (entries.any fun e => e.1.same key)))
  | .length .., [], list items => some (.scalar (.int (.ofNat items.length)))
  | .length .., [], map entries => some (.scalar (.int (.ofNat entries.length)))
  | _, _, _ => none

namespace Heap

/-- The container a value refers to. -/
def cell? (h : Heap) : Value Nat → Option Cell
  | .ref r => h.cells[r]?
  | .scalar _ => none

def length? (h : Heap) (v : Value Nat) : Option Nat :=
  match h.cell? v with
  | some (.list items) => some items.length
  | some (.map entries) => some entries.length
  | none => none

def hasKey? (h : Heap) (v key : Value Nat) : Option Bool :=
  match h.cell? v with
  | some (.map entries) => some (entries.any fun e => e.1.same key)
  | _ => none

/-- A new container. -/
def alloc (h : Heap) (c : Cell) : Effect Nat Heap :=
  .done (some (.ref h.cells.length)) { h with cells := h.cells ++ [c] }

/-- Puts a container in the place of another. -/
def put (h : Heap) (v : Value Nat) (c : Cell) : Heap :=
  match v with
  | .ref r => { h with cells := h.cells.set r c }
  | .scalar _ => h

/-- Any instruction beyond variables and calls. -/
def step (i : Instr) (values : List (Value Nat)) (h : Heap) : Effect Nat Heap :=
  match i, values with
  | .makeList .., items => h.alloc (.list items)
  | .makeMap .., values => h.alloc (.map (pairs values))
  | .print _, [v] => .done none { h with output := v :: h.output }
  | i, v :: args =>
    match (h.cell? v).bind (Cell.get? i args), (h.cell? v).bind (Cell.update? i args) with
    | some x, _ => .done (some x) h
    | none, some (c, x) => .done x (h.put v c)
    | none, none => .failed .stuck h
  | _, [] => .failed .stuck h

/-- The platform. -/
def platform : Platform Nat Heap where
  binary _ _ _ := .error .stuck
  unary _ _ := .error .stuck
  cast _ _ := .error .stuck
  length? := length?
  hasKey? := hasKey?
  hasNext? _ _ := none
  method? _ _ _ := none
  notice _ _ h := h
  other := step

def empty : Heap := ⟨[], []⟩

/-- The machine for code that calls no function. -/
def machine : Machine Nat (Frame Nat Heap) := platform.machine fun _ _ h => ⟨.failed .stuck, h⟩

/-! ## Instructions that change no container -/

theorem cell?_append {h : Heap} {v : Value Nat} {c : Cell} (hv : h.cell? v = some c)
    (new : List Cell) : cell? { h with cells := h.cells ++ new } v = some c := by
  cases v with
  | scalar a => cases hv
  | ref r =>
      have hr : h.cells[r]? = some c := hv
      have hlt : r < h.cells.length := (List.getElem?_eq_some_iff.1 hr).1
      simp only [cell?]
      rw [List.getElem?_append_left hlt, hr]

/-- A container that changes does so by an instruction with side effects. -/
theorem hasSideEffects_of_update? {i : Instr} {args : List (Value Nat)} {c : Cell}
    {u : Cell × Option (Value Nat)} (h : c.update? i args = some u) : i.hasSideEffects = true := by
  unfold Cell.update? at h
  split at h
  case h_7 => cases h
  all_goals rfl

/-- What an instruction without side effects leaves: the heap as it was, or with a container more. -/
theorem eq_of_step_done {i : Instr} {values : List (Value Nat)} {h h' : Heap}
    {v : Option (Value Nat)} (hi : i.hasSideEffects = false) (hs : h.step i values = .done v h') :
    ∃ new, h' = { h with cells := h.cells ++ new } := by
  unfold step at hs
  split at hs
  case h_1 => exact ⟨_, (Effect.done.inj hs).2.symm⟩
  case h_2 => exact ⟨_, (Effect.done.inj hs).2.symm⟩
  case h_3 => cases hi
  case h_4 i v args _ _ _ =>
    split at hs
    case h_1 =>
      refine ⟨[], ?_⟩
      rw [List.append_nil]
      exact (Effect.done.inj hs).2.symm
    case h_2 c x _ hu =>
      obtain ⟨_, _, hu⟩ := Option.bind_eq_some_iff.1 hu
      rw [hasSideEffects_of_update? hu] at hi
      cases hi
    case h_3 => cases hs
  case h_5 => cases hs

theorem length?_append {h : Heap} {v : Value Nat} {n : Nat} (hn : h.length? v = some n)
    (new : List Cell) : length? { h with cells := h.cells ++ new } v = some n := by
  unfold length? at hn ⊢
  cases hv : h.cell? v with
  | none => simp [hv] at hn
  | some c =>
      rw [cell?_append hv]
      rw [hv] at hn
      exact hn

theorem hasKey?_append {h : Heap} {v key : Value Nat} {b : Bool} (hb : h.hasKey? v key = some b)
    (new : List Cell) : hasKey? { h with cells := h.cells ++ new } v key = some b := by
  unfold hasKey? at hb ⊢
  cases hv : h.cell? v with
  | none => simp [hv] at hb
  | some c =>
      rw [cell?_append hv]
      rw [hv] at hb
      exact hb

/-- On this platform an instruction without side effects changes no length and no keys, whatever the
functions do that are called. -/
theorem quiet_machine (call : String → List (Value Nat) → Heap → Ending Nat Heap) :
    (platform.machine call).Quiet := by
  intro i σ v φ hi hother
  have hkeeps : ∀ {values : List (Value Nat)} {v : Option (Value Nat)} {φ : Frame Nat Heap},
      σ.rest.inWorld (step i values σ.rest.world) = .done v φ →
      (platform.machine call).Keeps σ.rest φ := by
    intro values v φ hw
    cases hs : step i values σ.rest.world with
    | done x h' =>
        rw [hs] at hw
        obtain ⟨new, rfl⟩ := eq_of_step_done hi hs
        obtain ⟨_, rfl⟩ := Effect.done.inj hw
        exact ⟨fun hn => length?_append hn new, fun hb => hasKey?_append hb new⟩
    | failed f h' =>
        rw [hs] at hw
        cases hw
    | thrown x h' =>
        rw [hs] at hw
        cases hw
  simp only [Platform.machine] at hother
  split at hother
  case h_2 => cases hother
  case h_1 values hvalues =>
    unfold Platform.step at hother
    split at hother
    case h_2 =>
      split at hother
      · obtain ⟨_, rfl⟩ := Effect.done.inj hother
        exact Machine.Keeps.refl _ _
      · cases hother
    case h_9 =>
      split at hother
      · obtain ⟨_, rfl⟩ := Effect.done.inj hother
        exact Machine.Keeps.refl _ _
      · cases hother
    case h_10 => exact hkeeps hother
    all_goals cases hi

end Heap

end ProtoScript.Ir
