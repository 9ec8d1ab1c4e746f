import ProtoScript.Proofs.Constant.Integer
import ProtoScript.Proofs.Machine.Heap

set_option autoImplicit false

/-!
# Constant propagation keeps the meaning of blocks

A block behaves the same before and after constant propagation, on every machine. The invariant is
that a temporary which is known to hold a constant does hold it (`Known.Holds`). It survives because
no temporary is defined twice: an entry of the known constants is never out of date.

A dropped check needs an argument of its own. `Check.passes` asks whether constants have a result; the
check asks whether the exact result is in range. For operands of the type that the check names the one
implies the other (`fits_of_binary?`).
-/

namespace ProtoScript

/-! ## Results in range -/

/-- Where constants of a type have a result, it is in range: the constant that they give is the exact
result. -/
theorem fits_of_binary? {op : BinaryOp} {ty : Ty} {a b : Constant} (ha : a.ty = ty) (hb : b.ty = ty)
    (h : (Constant.binary? op a b).isSome) : op.fits ty a b = true := by
  unfold BinaryOp.fits
  split
  · next x y hx hy =>
    rw [Option.all_eq_true]
    intro n hn
    have hanswers := Constant.answers_binary? ⟨ha, hx⟩ ⟨hb, hy⟩ op
    obtain ⟨c, hc⟩ := Option.isSome_iff_exists.1 h
    rw [hc] at hanswers
    generalize hr : op.answer? ty x y = answer at hanswers
    cases hanswers with
    | some hanswer =>
      rw [BinaryOp.answer_eq_number hn hr] at hanswer
      exact hanswer.inRange
  · rfl

/-- Where a constant can be negated, the result is in range. -/
theorem inRange_neg_of_unary? {a : Constant} (h : (Constant.unary? .neg a).isSome) :
    (a.toInt?.all fun x => a.ty.inRange (-x)) = true := by
  rw [Option.all_eq_true]
  intro x hx
  rwa [← (Constant.answers_neg ⟨rfl, hx⟩).isSome_bounded?]

namespace Ir

variable {R S : Type}

/-! ## Known constants -/

/-- The known constants are what the temporaries hold. -/
def Known.Holds (known : Known) (σ : State R S) : Prop :=
  ∀ t v, known.get? t = some v → σ.temps t = some (.scalar v)

theorem Known.get?_cons (known : Known) (d t : Temp) (v : Constant) :
    Known.get? ((d, v) :: known) t = if t = d then some v else known.get? t := by
  by_cases h : t = d
  · simp [Known.get?, h]
  · simp [Known.get?, List.lookup_cons, h, beq_eq_false_iff_ne.2 h]

theorem Known.holds_nil (σ : State R S) : Known.Holds [] σ := by
  intro t v h
  simp [Known.get?] at h

/-- A constant just written is known. -/
theorem Known.Holds.write {known : Known} {σ : State R S} (h : known.Holds σ) (d : Temp)
    (v : Constant) : Known.Holds ((d, v) :: known) (σ.write d (.scalar v)) := by
  intro t w ht
  rw [Known.get?_cons] at ht
  by_cases htd : t = d
  · simp only [htd, if_true, Option.some.injEq] at ht
    rw [htd, State.write_temps_self, ht]
  · rw [if_neg htd] at ht
    rw [State.write_temps_of_ne _ htd]
    exact h t w ht

/-- What is known stays true as long as it is not redefined. -/
theorem Known.Holds.exec (M : Machine R S) {known : Known} {σ τ : State R S} {i : Instr}
    (h : known.Holds σ) (hfresh : ∀ d, i.dest? = some d → known.get? d = none)
    (hi : M.exec i σ = .ok τ) : known.Holds τ := by
  intro t v ht
  have hne : i.dest? ≠ some t := by
    intro hd
    rw [hfresh t hd] at ht
    cases ht
  rw [M.exec_temps hi hne]
  exact h t v ht

/-! ## Dropped checks -/

/-- A check that is sure to pass does, unless its operands have another type than it names. -/
theorem runCheck_of_passes (M : Machine R S) {known : Known} {σ : State R S} {c : Check}
    (hk : known.Holds σ) (hp : c.passes known) (hm : ∀ c', M.runCheck c σ ≠ .error (.mistyped c')) :
    M.runCheck c σ = .ok σ := by
  cases c with
  | overflow op l r ty =>
      simp only [Check.passes] at hp
      split at hp
      case h_2 => cases hp
      case h_1 a b ha hb =>
        simp only [Bool.and_eq_true] at hp
        have hl := State.read_of_some (hk l a ha)
        have hr := State.read_of_some (hk r b hb)
        simp only [Machine.runCheck, Check.operands, State.readAll, hl, hr, ok_bind, pure_eq_ok,
          Machine.holds?] at hm ⊢
        by_cases hty : a.ty = ty ∧ b.ty = ty
        · simp [hty, fits_of_binary? hty.1 hty.2 hp.2]
        · exact absurd (by simp [hty, Check.ty?]) (hm (.overflow op l r ty))
  | negOverflow t ty =>
      simp only [Check.passes] at hp
      cases ha : known.get? t with
      | none => simp [ha] at hp
      | some a =>
          simp only [ha, Option.bind_some] at hp
          have ht := State.read_of_some (hk t a ha)
          simp only [Machine.runCheck, Check.operands, State.readAll, ht, ok_bind, pure_eq_ok,
            Machine.holds?] at hm ⊢
          by_cases hty : a.ty = ty
          · subst hty
            simp [inRange_neg_of_unary? hp]
          · exact absurd (by simp [hty, Check.ty?]) (hm (.negOverflow t ty))
  | divZero t =>
      simp only [Check.passes] at hp
      cases ha : known.get? t with
      | none => simp [ha] at hp
      | some a =>
          simp only [ha, Option.bind_some] at hp
          cases hx : a.toInt? with
          | none => simp [hx] at hp
          | some x =>
              have ht := State.read_of_some (hk t a ha)
              simp only [hx, Option.any_some] at hp
              simp [Machine.runCheck, Check.operands, State.readAll, ht, Machine.holds?, hx, hp]
  | shiftRange t w =>
      simp only [Check.passes] at hp
      cases ha : known.get? t with
      | none => simp [ha] at hp
      | some a =>
          simp only [ha, Option.bind_some] at hp
          cases hx : a.toInt? with
          | none => simp [hx] at hp
          | some x =>
              have ht := State.read_of_some (hk t a ha)
              simp only [hx, Option.any_some] at hp
              simp only [Machine.runCheck, Check.operands, State.readAll, ht, ok_bind, pure_eq_ok,
                Machine.holds?, hx, Option.map_some, hp]
  | indexBounds o i => simp [Check.passes] at hp
  | mapKey m k => simp [Check.passes] at hp

/-! ## Steps -/

/-- An operation on known constants yields the constant it is replaced by. -/
theorem exec_of_constantResult? (M : Machine R S) {known : Known} {σ : State R S} {i : Instr}
    {d : Temp} {v : Constant} (hk : known.Holds σ) (h : i.constantResult? known = some (d, v)) :
    M.exec i σ = .ok (σ.write d (.scalar v)) := by
  unfold Instr.constantResult? at h
  split at h
  case h_1 dest s =>
    obtain ⟨a, ha, hv⟩ := Option.map_eq_some_iff.1 h
    cases hv
    simp [Machine.exec, State.read_of_some (hk s v ha)]
  case h_2 dest op l r =>
    obtain ⟨a, ha, h⟩ := Option.bind_eq_some_iff.1 h
    obtain ⟨b, hb, h⟩ := Option.bind_eq_some_iff.1 h
    obtain ⟨c, hc, h⟩ := Option.bind_eq_some_iff.1 h
    cases h
    simp [Machine.exec, State.read_of_some (hk l a ha), State.read_of_some (hk r b hb),
      M.binary_scalar hc, State.attempt]
  case h_3 dest op t =>
    obtain ⟨c, hc, hv⟩ := Option.map_eq_some_iff.1 h
    cases hv
    obtain ⟨a, ha, hc⟩ := Option.bind_eq_some_iff.1 hc
    simp [Machine.exec, State.read_of_some (hk t a ha), M.unary_scalar hc, State.attempt]
  case h_4 dest s ty =>
    obtain ⟨c, hc, hv⟩ := Option.map_eq_some_iff.1 h
    cases hv
    obtain ⟨a, ha, hc⟩ := Option.bind_eq_some_iff.1 hc
    simp [Machine.exec, State.read_of_some (hk s a ha), M.cast_scalar hc, State.attempt]
  case h_5 => cases h

/-- The temporary of a known result is the one the instruction defines. -/
theorem dest?_of_constantResult? {known : Known} {i : Instr} {d : Temp} {v : Constant}
    (h : i.constantResult? known = some (d, v)) : i.dest? = some d := by
  unfold Instr.constantResult? at h
  split at h
  case h_1 dest s =>
    obtain ⟨a, _, hv⟩ := Option.map_eq_some_iff.1 h
    cases hv
    rfl
  case h_2 dest op l r =>
    obtain ⟨a, _, h⟩ := Option.bind_eq_some_iff.1 h
    obtain ⟨b, _, h⟩ := Option.bind_eq_some_iff.1 h
    obtain ⟨c, _, h⟩ := Option.bind_eq_some_iff.1 h
    cases h
    rfl
  case h_3 dest op t =>
    obtain ⟨c, _, hv⟩ := Option.map_eq_some_iff.1 h
    cases hv
    rfl
  case h_4 dest s ty =>
    obtain ⟨c, _, hv⟩ := Option.map_eq_some_iff.1 h
    cases hv
    rfl
  case h_5 => cases h

/-- A selection by a known condition reads the chosen temporary; the run has read both. -/
theorem exec_select_of_known (M : Machine R S) {known : Known} {σ : State R S} {d c a b : Temp}
    {cond : Bool} (hk : known.Holds σ) (hc : (known.get? c).bind Constant.toBool? = some cond)
    (hu : ∀ t, M.exec (.select d c a b) σ ≠ .error (.undefined t)) :
    M.exec (.select d c a b) σ = M.exec (.copy d (if cond then a else b)) σ := by
  obtain ⟨w, hknown, hbool⟩ := Option.bind_eq_some_iff.1 hc
  have hw : w = .bool cond := by
    cases w <;> simp_all [Constant.toBool?]
  subst hw
  have hcond := State.read_of_some (hk c _ hknown)
  simp only [Machine.exec, hcond, ok_bind] at hu ⊢
  cases ha : σ.temps a with
  | none => exact absurd (by simp [State.read_of_none ha]) (hu a)
  | some x =>
      rw [State.read_of_some ha] at hu ⊢
      cases hb : σ.temps b with
      | none => exact absurd (by simp [State.read_of_none hb]) (hu b)
      | some y =>
          rw [State.read_of_some hb]
          cases cond with
          | true => simp [State.read_of_some ha]
          | false => simp [State.read_of_some hb]

/-- One step of propagation: the instruction that remains does the same, and afterwards the known
constants are what the temporaries hold. -/
theorem exec_fold (M : Machine R S) {known : Known} {σ : State R S} {i : Instr}
    (hk : known.Holds σ) (hfresh : ∀ d, i.dest? = some d → known.get? d = none)
    (hu : ∀ t, M.exec i σ ≠ .error (.undefined t))
    (hm : ∀ c, M.exec i σ ≠ .error (.mistyped c)) :
    M.execAll (i.fold known).2.1.toList σ = M.exec i σ ∧
      ∀ τ, M.exec i σ = .ok τ → (i.fold known).1.Holds τ := by
  have hkeep : ∀ τ, M.exec i σ = .ok τ → known.Holds τ := fun τ hτ => hk.exec M hfresh hτ
  unfold Instr.fold
  split
  case h_1 d v =>
    refine ⟨M.execAll_singleton _ σ, fun τ hτ => ?_⟩
    cases hτ
    exact hk.write d v
  case h_2 d c a b =>
    split
    case h_1 => exact ⟨M.execAll_singleton _ σ, hkeep⟩
    case h_2 cond hc =>
      have hsel := exec_select_of_known M hk hc hu
      simp only
      split
      case h_1 v hv =>
        have hcopy : M.exec (.copy d (if cond then a else b)) σ = .ok (σ.write d (.scalar v)) :=
          exec_of_constantResult? M hk (by simp [Instr.constantResult?, hv])
        rw [hsel, hcopy]
        refine ⟨M.execAll_singleton _ σ, fun τ hτ => ?_⟩
        cases hτ
        exact hk.write d v
      case h_2 =>
        refine ⟨?_, hkeep⟩
        rw [hsel]
        exact M.execAll_singleton _ σ
  case h_3 c =>
    split
    case isTrue hp =>
      refine ⟨?_, hkeep⟩
      exact (runCheck_of_passes M hk hp hm).symm
    case isFalse => exact ⟨M.execAll_singleton _ σ, hkeep⟩
  case h_4 =>
    split
    case h_1 d v hv =>
      rw [exec_of_constantResult? M hk hv]
      refine ⟨M.execAll_singleton _ σ, fun τ hτ => ?_⟩
      cases hτ
      exact hk.write d v
    case h_2 => exact ⟨M.execAll_singleton _ σ, hkeep⟩

/-- What is known afterwards beside what was known is the temporary of the instruction. -/
theorem get?_fold_of_ne {known : Known} {i : Instr} {t : Temp} (ht : i.dest? ≠ some t) :
    (i.fold known).1.get? t = known.get? t := by
  have hcons : ∀ {d : Temp} {v : Constant}, i.dest? = some d →
      Known.get? ((d, v) :: known) t = known.get? t := by
    intro d v hd
    have hne : t ≠ d := by
      rintro rfl
      exact ht hd
    rw [Known.get?_cons, if_neg hne]
  unfold Instr.fold
  split
  case h_1 d v => exact hcons rfl
  case h_2 d c a b =>
    split
    case h_1 => rfl
    case h_2 cond hc =>
      simp only
      split
      case h_1 v hv => exact hcons rfl
      case h_2 => rfl
  case h_3 c => split <;> rfl
  case h_4 =>
    split
    case h_1 d v hv => exact hcons (dest?_of_constantResult? hv)
    case h_2 => rfl

/-! ## Runs -/

/-- Propagation through instructions that define each temporary once, and none that is known. The
induction is on the instructions; the step lemma restores the invariant for what follows. -/
theorem execAll_foldInstrs (M : Machine R S) {instrs : List Instr} {known : Known} {σ : State R S}
    (hk : known.Holds σ) (hnodup : (instrs.filterMap Instr.dest?).Nodup)
    (hfresh : ∀ d ∈ instrs.filterMap Instr.dest?, known.get? d = none)
    (hu : ∀ t, M.execAll instrs σ ≠ .error (.undefined t))
    (hm : ∀ c, M.execAll instrs σ ≠ .error (.mistyped c)) :
    M.execAll (foldInstrs known instrs).1 σ = M.execAll instrs σ := by
  induction instrs generalizing known σ with
  | nil => rfl
  | cons i rest ih =>
      have hdest : ∀ d, i.dest? = some d → known.get? d = none := by
        intro d hd
        exact hfresh d (mem_dests_cons.2 (.inl hd))
      have hui : ∀ t, M.exec i σ ≠ .error (.undefined t) := by
        intro t ht
        exact hu t (by rw [M.execAll_cons, ht, error_bind])
      have hmi : ∀ c, M.exec i σ ≠ .error (.mistyped c) := by
        intro c hc
        exact hm c (by rw [M.execAll_cons, hc, error_bind])
      obtain ⟨hstep, hknown⟩ := exec_fold M hk hdest hui hmi
      simp only [foldInstrs]
      rw [M.execAll_append, hstep, M.execAll_cons]
      cases hτ : M.exec i σ with
      | error h => rfl
      | ok τ =>
          rw [M.execAll_cons, hτ, ok_bind] at hu hm
          rw [ok_bind, ok_bind]
          refine ih (hknown τ hτ) ?_ ?_ hu hm
          · exact nodup_dests_tail hnodup
          · intro d hd
            have hne : i.dest? ≠ some d := fun hid => not_mem_dests_of_nodup hnodup hid hd
            rw [get?_fold_of_ne hne]
            exact hfresh d (mem_dests_cons.2 (.inr hd))

/-! ## Blocks -/

/-- Constant propagation keeps the meaning of every block of a function that defines each temporary at
most once. Started in any state in which the block reads no undefined temporary and applies its checks
to operands of the types they name, both blocks end in the same way: with the same failed check, the
same exception or the same final state. -/
theorem Block.execAll_fold (M : Machine R S) {f : Function} {b : Block} (hb : b ∈ f.blocks)
    (hdefs : (f.instrs.filterMap Instr.dest?).Nodup) {σ : State R S}
    (hu : ∀ t, M.execAll b.instrs σ ≠ .error (.undefined t))
    (hm : ∀ c, M.execAll b.instrs σ ≠ .error (.mistyped c)) :
    b.fold.1.label = b.label ∧ b.fold.1.terminator = b.terminator ∧
      M.execAll b.fold.1.instrs σ = M.execAll b.instrs σ := by
  refine ⟨rfl, rfl, ?_⟩
  refine execAll_foldInstrs M (Known.holds_nil σ) ?_ (fun _ _ => rfl) hu hm
  exact hdefs.sublist (Function.dests_sublist hb)

/-- Adds the largest bytes whose sum is one, and divides by what a selection yields. -/
def byteSum : Block where
  label := "entry"
  instrs :=
    [.const 0 (.byte 200), .const 1 (.byte 55), .check (.overflow .add 0 1 .byte),
      .binary 2 .add 0 1, .const 3 (.bool true), .loadVar 4 "x", .select 5 3 4 2,
      .check (.divZero 2), .check (.divZero 5), .binary 6 .div 2 5]
  terminator := .ret 6

/-- The sum is computed, two checks are dropped, and the check on the variable stays: where it is zero
the run stops there as before. -/
theorem execAll_fold_byteSum :
    byteSum.fold.2 = ⟨2, 2⟩ ∧
      ∃ φ, Heap.machine.execAll byteSum.fold.1.instrs
        (Platform.start ⟨"f", [⟨"x", .byte⟩], .byte, [byteSum]⟩ [.scalar (.byte 0)] .empty) =
          .error (.failed (.stopped .divZero) φ) := by
  refine ⟨rfl, ?_⟩
  have hrun : ∃ φ, Heap.machine.execAll byteSum.instrs
      (Platform.start ⟨"f", [⟨"x", .byte⟩], .byte, [byteSum]⟩ [.scalar (.byte 0)] .empty) =
        .error (.failed (.stopped .divZero) φ) := ⟨_, rfl⟩
  have hsame := Block.execAll_fold Heap.machine
    (f := ⟨"f", [⟨"x", .byte⟩], .byte, [byteSum]⟩) (b := byteSum) (by simp) (by decide)
    (σ := Platform.start ⟨"f", [⟨"x", .byte⟩], .byte, [byteSum]⟩ [.scalar (.byte 0)] .empty)
    (fun t ht => by
      obtain ⟨φ, hφ⟩ := hrun
      rw [hφ] at ht
      cases ht)
    (fun c hc => by
      obtain ⟨φ, hφ⟩ := hrun
      rw [hφ] at hc
      cases hc)
  rw [hsame.2.2]
  exact hrun

end Ir

end ProtoScript
