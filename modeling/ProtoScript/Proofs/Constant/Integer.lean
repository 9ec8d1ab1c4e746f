import Mathlib.Data.Int.Bitwise
import ProtoScript.Optimize.Fold
import ProtoScript.Proofs.Machine.Basic

set_option autoImplicit false

/-!
# Integer arithmetic on constants is exact

What an operation on numbers gives is said in whole numbers, for both integer types at once
(`BinaryOp.answer?`): the number itself where it has to fit, the number reduced to the width of the type
where bits are shifted out. Constant arithmetic gives that answer and no other, and has none where there is
none (`answers_binary?`). A safety check on constant operands is decided by the same functions, so it
is dropped exactly if what it guards holds (`integer_arithmetic_exact`).
-/

namespace ProtoScript

/-! ## Answers -/

/-- What an operation on integers gives. -/
inductive Answer where
  | number (n : Int)
  | truth (b : Bool)

/-- The constant is the answer, a number as one of the given type. -/
def Constant.IsAnswer (ty : Ty) (c : Constant) : Answer → Prop
  | .number n => c.ty = ty ∧ c.toInt? = some n
  | .truth b => c = .bool b

namespace Ty

/-- The number of bits of an integer type. -/
def width (ty : Ty) : Nat := if ty = .byte then 8 else 64

/-- The number as an answer, if it is in range. -/
def bounded? (ty : Ty) (n : Int) : Option Answer := if ty.inRange n then some (.number n) else none

/-- The number of the type with the same lowest bits; an `int` has a sign. -/
def reduce (ty : Ty) (n : Int) : Int :=
  if ty = .byte then n.emod (twoPow 8) else n.bmod (twoPow 64)

end Ty

/-- The answer of a binary operation on two numbers of an integer type. -/
def BinaryOp.answer? (op : BinaryOp) (ty : Ty) (a b : Int) : Option Answer :=
  let noQuotient := b = 0 ∨ (ty = .int ∧ a = Int64.minValue.toInt ∧ b = -1)
  let noShift := ¬ (0 ≤ b ∧ b < ty.width)
  match op with
  | .add => ty.bounded? (a + b)
  | .sub => ty.bounded? (a - b)
  | .mul => ty.bounded? (a * b)
  | .div => if noQuotient then none else some (.number (a.tdiv b))
  | .mod => if noQuotient then none else some (.number (a.tmod b))
  | .bitAnd => some (.number (a.land b))
  | .bitOr => some (.number (a.lor b))
  | .bitXor => some (.number (a.xor b))
  | .shiftLeft => if noShift then none else some (.number (ty.reduce (a * twoPow b.toNat)))
  | .shiftRight => if noShift then none else some (.number (a.fdiv (twoPow b.toNat)))
  | .equal => some (.truth (a = b))
  | .notEqual => some (.truth (a ≠ b))
  | .less => some (.truth (a < b))
  | .lessEqual => some (.truth (a ≤ b))
  | .greater => some (.truth (b < a))
  | .greaterEqual => some (.truth (b ≤ a))
  | .and | .or => none

/-- An answer of an operation that can overflow is its exact result. -/
theorem BinaryOp.answer_eq_number {op : BinaryOp} {ty : Ty} {a b n : Int} {r : Answer}
    (hexact : op.exactResult? a b = some n) (hr : op.answer? ty a b = some r) : r = .number n := by
  have hbounded {m : Int} (hm : ty.bounded? m = some r) : r = .number m := by
    unfold Ty.bounded? at hm
    split at hm
    · exact (Option.some.inj hm).symm
    · cases hm
  cases op with
  | add | sub | mul =>
      cases hexact
      exact hbounded hr
  | div =>
      simp only [answer?] at hr
      split at hr
      · cases hr
      · next hq =>
        rw [exactResult?, if_neg fun hb => hq (.inl hb)] at hexact
        cases hexact
        exact (Option.some.inj hr).symm
  | _ => cases hexact

namespace Constant

/-- There is an answer where there is a result, and the result is it. -/
abbrev Answers (ty : Ty) : Option Constant → Option Answer → Prop := Option.Rel (IsAnswer ty)

/-! ## Numbers that fit -/

theorem inRange_int_iff {n : Int} : Ty.int.inRange n ↔ -2 ^ 63 ≤ n ∧ n < 2 ^ 63 := by
  have hmin : Int64.minValue.toInt = -2 ^ 63 := by decide
  have hmax : Int64.maxValue.toInt = 2 ^ 63 - 1 := by decide
  simp only [Ty.int, Ty.inRange, hmin, hmax, Bool.and_eq_true, decide_eq_true_eq]
  omega

theorem inRange_byte_iff {n : Int} : Ty.byte.inRange n ↔ 0 ≤ n ∧ n < 2 ^ 8 := by
  simp [Ty.byte, Ty.inRange, UInt8.size]

theorem inRange_toInt (v : Int64) : Ty.int.inRange v.toInt := inRange_int_iff.2 ⟨v.le_toInt, v.toInt_lt⟩

theorem inRange_toNat (v : UInt8) : Ty.byte.inRange v.toNat :=
  inRange_byte_iff.2 ⟨Int.natCast_nonneg _, by exact_mod_cast v.toNat_lt⟩

theorem toInt_of_fitInt? {n : Int} {v : Int64} (h : fitInt? n = some v) : v.toInt = n := by
  have hn : Ty.int.inRange n := by rw [← isSome_fitInt?, h]; rfl
  rw [inRange_int_iff] at hn
  unfold fitInt? at h
  split at h
  · cases h
    exact Int64.toInt_ofInt_of_le hn.1 hn.2
  · cases h

theorem toNat_of_fitByte? {n : Int} {v : UInt8} (h : fitByte? n = some v) : (v.toNat : Int) = n := by
  unfold fitByte? at h
  split at h
  · next hn =>
    cases h
    simp only [UInt8.size] at hn
    simp
    omega
  · cases h

theorem answers_fitInt? (n : Int) : Answers .int ((fitInt? n).map int) (Ty.int.bounded? n) := by
  unfold Ty.bounded?
  rw [← isSome_fitInt?]
  cases h : fitInt? n with
  | none => exact .none
  | some v => exact .some ⟨rfl, congrArg some (toInt_of_fitInt? h)⟩

theorem answers_fitByte? (n : Int) : Answers .byte ((fitByte? n).map byte) (Ty.byte.bounded? n) := by
  unfold Ty.bounded?
  rw [← isSome_fitByte?]
  cases h : fitByte? n with
  | none => exact .none
  | some v => exact .some ⟨rfl, congrArg some (toNat_of_fitByte? h)⟩

/-! ## Quotients -/

/-- The only quotient of two `int`s that is none is that of the least by minus one. -/
theorem inRange_tdiv_iff {a b : Int} (ha : Ty.int.inRange a) (hb : b ≠ 0) :
    Ty.int.inRange (a.tdiv b) ↔ ¬ (a = Int64.minValue.toInt ∧ b = -1) := by
  have hmin : Int64.minValue.toInt = -2 ^ 63 := by decide
  rw [hmin]
  rw [inRange_int_iff] at ha ⊢
  constructor
  · rintro hrange ⟨rfl, rfl⟩
    revert hrange
    decide
  · intro hne
    by_cases hone : b.natAbs = 1
    · rcases Int.natAbs_eq_iff.1 hone with rfl | rfl
      · simpa using ha
      · simp only [Nat.cast_one, Int.tdiv_neg, Int.tdiv_one]
        omega
    · have hhalf : (a.tdiv b).natAbs ≤ a.natAbs / 2 := by
        rw [Int.natAbs_tdiv]
        exact Nat.div_le_div_left (by omega) (by decide)
      omega

theorem inRange_tmod {a b : Int} (hb : Ty.int.inRange b) (hne : b ≠ 0) : Ty.int.inRange (a.tmod b) := by
  rw [inRange_int_iff] at hb ⊢
  have hlt : (a.tmod b).natAbs < b.natAbs := by
    rw [Int.natAbs_tmod]
    exact Nat.mod_lt _ (by omega)
  omega

/-! ## Bits -/

/-- The bits of a number of a given width are the lowest bits of the number. -/
theorem getLsbD_ofInt {w : Nat} (n : Int) (i : Nat) :
    (BitVec.ofInt w n).getLsbD i = (decide (i < w) && n.testBit i) := by
  cases n with
  | ofNat n => simp [Int.testBit, BitVec.getLsbD_ofNat]
  | negSucc n =>
      rw [BitVec.ofInt_negSucc_eq_not_ofNat, BitVec.getLsbD_not, BitVec.getLsbD_ofNat]
      by_cases hi : i < w <;> simp [Int.testBit, hi]

theorem testBit_toInt {w : Nat} (x : BitVec w) {i : Nat} (hi : i < w) :
    x.toInt.testBit i = x.getLsbD i := by
  have hbit := getLsbD_ofInt (w := w) x.toInt i
  rw [BitVec.ofInt_toInt] at hbit
  simpa [hi] using hbit.symm

theorem natBitwise_bounds {f : Bool → Bool → Bool} {a b w : Nat} (ha : a < 2 ^ w) (hb : b < 2 ^ w) :
    -2 ^ w ≤ Int.natBitwise f a b ∧ Int.natBitwise f a b < 2 ^ w := by
  have hlt : ∀ g : Bool → Bool → Bool, (Nat.bitwise g a b : Int) < 2 ^ w := fun g => by
    exact_mod_cast Nat.bitwise_lt_two_pow ha hb
  unfold Int.natBitwise
  cases f false false with
  | false =>
    have := hlt f
    simp only [cond_false]
    omega
  | true =>
    have := hlt fun x y => !f x y
    simp only [cond_true]
    omega

/-- An operation on the bits of two numbers stays within their width. -/
theorem bitwise_bounds {f : Bool → Bool → Bool} {a b : Int} {w : Nat} (ha : -2 ^ w ≤ a ∧ a < 2 ^ w)
    (hb : -2 ^ w ≤ b ∧ b < 2 ^ w) : -2 ^ w ≤ Int.bitwise f a b ∧ Int.bitwise f a b < 2 ^ w := by
  have hcast : (2 : Int) ^ w = (2 ^ w : Nat) := by norm_cast
  have hnat : ∀ n : Int, -2 ^ w ≤ n ∧ n < 2 ^ w →
      ∃ k < 2 ^ w, n = .ofNat k ∨ n = .negSucc k := by
    rw [hcast]
    rintro (k | k) hk
    · have hlt : (k : Int) < (2 ^ w : Nat) := hk.2
      exact ⟨k, by omega, .inl rfl⟩
    · exact ⟨k, by omega, .inr rfl⟩
  obtain ⟨m, hm, rfl | rfl⟩ := hnat a ha <;> obtain ⟨n, hn, rfl | rfl⟩ := hnat b hb
  · exact natBitwise_bounds hm hn
  · exact natBitwise_bounds (f := fun x y => f x !y) hm hn
  · exact natBitwise_bounds (f := fun x y => f (!x) y) hm hn
  · exact natBitwise_bounds (f := fun x y => f (!x) !y) hm hn

/-- A number made bit by bit of two numbers. -/
theorem toInt_of_bits {f : Bool → Bool → Bool} {a b c : Int64}
    (h : ∀ i < 64, c.toBitVec.getLsbD i = f (a.toBitVec.getLsbD i) (b.toBitVec.getLsbD i)) :
    c.toInt = Int.bitwise f a.toInt b.toInt := by
  have hc : c.toBitVec = BitVec.ofInt 64 (Int.bitwise f a.toInt b.toInt) := by
    refine BitVec.eq_of_getLsbD_eq fun i hi => ?_
    rw [h i hi, getLsbD_ofInt, Int.testBit_bitwise]
    simp only [hi, decide_true, Bool.true_and]
    rw [← testBit_toInt _ hi, ← testBit_toInt _ hi]
    rfl
  have hbounds : ∀ v : Int64, -2 ^ 63 ≤ v.toInt ∧ v.toInt < 2 ^ 63 := fun v =>
    ⟨v.le_toInt, v.toInt_lt⟩
  obtain ⟨hlow, hhigh⟩ := bitwise_bounds (f := f) (hbounds a) (hbounds b)
  rw [← Int64.toInt_toBitVec, hc]
  exact BitVec.toInt_ofInt_eq_self (by decide) hlow hhigh

theorem toInt_and (a b : Int64) : (a &&& b).toInt = a.toInt.land b.toInt := by
  rw [← Int.bitwise_and]
  exact toInt_of_bits fun i _ => by simp

theorem toInt_or (a b : Int64) : (a ||| b).toInt = a.toInt.lor b.toInt := by
  rw [← Int.bitwise_or]
  exact toInt_of_bits fun i _ => by simp

theorem toInt_xor (a b : Int64) : (a ^^^ b).toInt = a.toInt.xor b.toInt := by
  rw [← Int.bitwise_xor]
  exact toInt_of_bits fun i _ => by simp

/-! ## Shifts -/

theorem twoPow_eq (n : Nat) : twoPow n = 2 ^ n := rfl

/-- An amount in range is taken as it is. -/
theorem toNat_shiftAmount {b : Int64} (h : 0 ≤ b.toInt ∧ b.toInt < 64) :
    (b.toBitVec.smod 64).toNat = b.toInt.toNat := by
  have hb : b.toBitVec.toInt = b.toInt := b.toInt_toBitVec
  have hmod : (b.toBitVec.smod 64#64).toInt = b.toInt := by
    rw [BitVec.toInt_smod, hb]
    have h64 : (64#64).toInt = 64 := by decide
    rw [h64, Int.fmod_eq_emod_of_nonneg _ (by decide)]
    omega
  have hcases := BitVec.toInt_eq_toNat_cond (b.toBitVec.smod 64#64)
  have hlt := (b.toBitVec.smod 64#64).isLt
  change (b.toBitVec.smod 64#64).toNat = _
  split at hcases <;> omega

theorem toInt_shiftLeft {a b : Int64} (h : 0 ≤ b.toInt ∧ b.toInt < 64) :
    (a <<< b).toInt = (a.toInt * twoPow b.toInt.toNat).bmod (twoPow 64) := by
  rw [← Int64.toInt_toBitVec, Int64.toBitVec_shiftLeft, BitVec.shiftLeft_eq', toNat_shiftAmount h,
    BitVec.toInt_shiftLeft, ← Int64.toInt_toBitVec a, BitVec.toInt_eq_toNat_bmod a.toBitVec]
  simp only [twoPow_eq]
  rw [Int.bmod_mul_bmod, Nat.shiftLeft_eq, Nat.cast_mul]

theorem toInt_shiftRight {a b : Int64} (h : 0 ≤ b.toInt ∧ b.toInt < 64) :
    (a >>> b).toInt = a.toInt.fdiv (twoPow b.toInt.toNat) := by
  rw [← Int64.toInt_toBitVec, Int64.toBitVec_shiftRight, BitVec.sshiftRight_eq', toNat_shiftAmount h,
    BitVec.toInt_sshiftRight, Int64.toInt_toBitVec, Int.shiftRight_eq_div_pow,
    Int.fdiv_eq_ediv_of_nonneg]
  · rfl
  · exact Int.natCast_nonneg _

theorem toNat_shiftLeft {a b : UInt8} (h : b < 8) :
    ((a <<< b).toNat : Int) = Ty.byte.reduce (a.toNat * twoPow (b.toNat : Int).toNat) := by
  have hb : b.toNat < 8 := UInt8.lt_iff_toNat_lt.1 h
  have hreduce : Ty.byte.reduce = fun n => n % 2 ^ 8 := rfl
  rw [UInt8.toNat_shiftLeft, Nat.mod_eq_of_lt hb, Nat.shiftLeft_eq, hreduce, Int.toNat_natCast, twoPow_eq]
  norm_cast

theorem toNat_shiftRight {a b : UInt8} (h : b < 8) :
    ((a >>> b).toNat : Int) = (a.toNat : Int).fdiv (twoPow (b.toNat : Int).toNat) := by
  have hb : b.toNat < 8 := UInt8.lt_iff_toNat_lt.1 h
  rw [UInt8.toNat_shiftRight, Nat.mod_eq_of_lt hb, Nat.shiftRight_eq_div_pow, Int.toNat_natCast, twoPow_eq,
    Int.fdiv_eq_ediv_of_nonneg]
  · norm_cast
  · exact Int.natCast_nonneg _

/-! ## Comparisons -/

/-- A comparison says of two numbers what their order says. -/
theorem answers_compared? (ty : Ty) (op : BinaryOp) (hop : op.isComparison) {a b : Int}
    {order : Ordering} (hlt : order = .lt ↔ a < b) (hgt : order = .gt ↔ b < a) :
    Answers ty (compared? op order) (op.answer? ty a b) := by
  have heq : order = .eq ↔ a = b := by
    cases order <;> simp at hlt hgt ⊢ <;> omega
  have hle : order ≠ .gt ↔ a ≤ b := by rw [Ne, hgt, Int.not_lt]
  have hge : order ≠ .lt ↔ b ≤ a := by rw [Ne, hlt, Int.not_lt]
  have hsome : ∀ {c d : Bool}, (c = true ↔ d = true) → Answers ty (some (bool c)) (some (.truth d)) :=
    fun h => .some (congrArg bool (Bool.eq_iff_iff.2 h))
  cases op with
  | equal | notEqual | less | lessEqual | greater | greaterEqual =>
      refine hsome ?_
      simp only [beq_iff_eq, bne_iff_ne, decide_eq_true_eq]
      first | assumption | exact not_congr heq
  | _ => cases hop

/-! ## Operators -/

theorem answers_intBinary? (op : BinaryOp) (a b : Int64) :
    Answers .int (intBinary? op a b) (op.answer? .int a.toInt b.toInt) := by
  have hzero : b = 0 ↔ b.toInt = 0 := by rw [← Int64.toInt_inj, Int64.toInt_zero]
  have hwidth : Ty.int.width = 64 := rfl
  have hcompare (op : BinaryOp) (hop : op.isComparison) :
      Answers .int (compared? op (compare a.toInt b.toInt)) (op.answer? .int a.toInt b.toInt) :=
    answers_compared? .int op hop Int.compare_eq_lt Int.compare_eq_gt
  cases op with
  | add | sub | mul => exact answers_fitInt? _
  | div =>
      simp only [intBinary?, BinaryOp.answer?, hzero, true_and]
      by_cases hb0 : b.toInt = 0
      · simp only [hb0, if_true, true_or]
        exact .none
      · have hfits := answers_fitInt? (a.toInt.tdiv b.toInt)
        simpa only [Ty.bounded?, hb0, if_false, false_or, inRange_tdiv_iff (inRange_toInt a) hb0, ite_not] using hfits
  | mod =>
      simp only [intBinary?, BinaryOp.answer?, hzero, true_and]
      by_cases hb0 : b.toInt = 0
      · simp only [hb0, if_true, true_or]
        exact .none
      · -- The remainder is there with the quotient, and it always fits.
        simp only [hb0, if_false, false_or]
        have hfits := (isSome_fitInt? _).trans (Bool.eq_iff_iff.2 ((inRange_tdiv_iff (inRange_toInt a) hb0).trans
          decide_eq_true_iff.symm))
        cases hq : fitInt? (a.toInt.tdiv b.toInt) with
        | none =>
            rw [hq] at hfits
            rw [if_pos (not_not.1 (of_decide_eq_false hfits.symm))]
            exact .none
        | some q =>
            rw [hq] at hfits
            obtain ⟨hlow, hhigh⟩ := inRange_int_iff.1 (inRange_tmod (a := a.toInt) (inRange_toInt b) hb0)
            rw [if_neg (of_decide_eq_true hfits.symm)]
            exact .some ⟨rfl, congrArg some (Int64.toInt_ofInt_of_le hlow hhigh)⟩
  | bitAnd => exact .some ⟨rfl, congrArg some (toInt_and a b)⟩
  | bitOr => exact .some ⟨rfl, congrArg some (toInt_or a b)⟩
  | bitXor => exact .some ⟨rfl, congrArg some (toInt_xor a b)⟩
  | shiftLeft =>
      simp only [intBinary?, BinaryOp.answer?, hwidth, Nat.cast_ofNat, ite_not]
      split
      · exact .some ⟨rfl, congrArg some (toInt_shiftLeft ‹_›)⟩
      · exact .none
  | shiftRight =>
      simp only [intBinary?, BinaryOp.answer?, hwidth, Nat.cast_ofNat, ite_not]
      split
      · exact .some ⟨rfl, congrArg some (toInt_shiftRight ‹_›)⟩
      · exact .none
  | equal => exact hcompare .equal rfl
  | notEqual => exact hcompare .notEqual rfl
  | less => exact hcompare .less rfl
  | lessEqual => exact hcompare .lessEqual rfl
  | greater => exact hcompare .greater rfl
  | greaterEqual => exact hcompare .greaterEqual rfl
  | and | or => exact .none

theorem answers_byteBinary? (op : BinaryOp) (a b : UInt8) :
    Answers .byte (byteBinary? op a b) (op.answer? .byte a.toNat b.toNat) := by
  have hzero : b = 0 ↔ (b.toNat : Int) = 0 := by
    rw [← UInt8.toNat_inj, UInt8.toNat_zero, Int.natCast_eq_zero]
  have hamount : b < 8 ↔ 0 ≤ (b.toNat : Int) ∧ (b.toNat : Int) < Ty.byte.width := by
    rw [UInt8.lt_iff_toNat_lt]
    change b.toNat < 8 ↔ 0 ≤ (b.toNat : Int) ∧ (b.toNat : Int) < 8
    omega
  have hbyte : ¬ Ty.byte = Ty.int := nofun
  have hcompare (op : BinaryOp) (hop : op.isComparison) :
      Answers .byte (compared? op (compare a.toNat b.toNat)) (op.answer? .byte a.toNat b.toNat) :=
    answers_compared? .byte op hop (Nat.compare_eq_lt.trans Int.ofNat_lt.symm)
      (Nat.compare_eq_gt.trans Int.ofNat_lt.symm)
  cases op with
  | add => exact answers_fitByte? (a.toNat + b.toNat)
  | sub => exact answers_fitByte? (a.toNat - b.toNat)
  | mul => exact answers_fitByte? (a.toNat * b.toNat)
  | div =>
      simp only [byteBinary?, BinaryOp.answer?, hzero, hbyte, false_and, or_false]
      by_cases hb0 : (b.toNat : Int) = 0
      · rw [if_pos hb0, if_pos hb0]
        exact .none
      · rw [if_neg hb0, if_neg hb0]
        exact .some ⟨rfl, congrArg (fun n : Nat => some (n : Int)) (UInt8.toNat_div a b)⟩
  | mod =>
      simp only [byteBinary?, BinaryOp.answer?, hzero, hbyte, false_and, or_false]
      by_cases hb0 : (b.toNat : Int) = 0
      · rw [if_pos hb0, if_pos hb0]
        exact .none
      · rw [if_neg hb0, if_neg hb0]
        exact .some ⟨rfl, congrArg (fun n : Nat => some (n : Int)) (UInt8.toNat_mod a b)⟩
  | bitAnd => exact .some ⟨rfl, congrArg (fun n : Nat => some (n : Int)) (UInt8.toNat_and a b)⟩
  | bitOr => exact .some ⟨rfl, congrArg (fun n : Nat => some (n : Int)) (UInt8.toNat_or a b)⟩
  | bitXor => exact .some ⟨rfl, congrArg (fun n : Nat => some (n : Int)) (UInt8.toNat_xor a b)⟩
  | shiftLeft =>
      simp only [byteBinary?, BinaryOp.answer?, ← hamount, ite_not]
      by_cases hb8 : b < 8
      · rw [if_pos hb8, if_pos hb8]
        exact .some ⟨rfl, congrArg some (toNat_shiftLeft hb8)⟩
      · rw [if_neg hb8, if_neg hb8]
        exact .none
  | shiftRight =>
      simp only [byteBinary?, BinaryOp.answer?, ← hamount, ite_not]
      by_cases hb8 : b < 8
      · rw [if_pos hb8, if_pos hb8]
        exact .some ⟨rfl, congrArg some (toNat_shiftRight hb8)⟩
      · rw [if_neg hb8, if_neg hb8]
        exact .none
  | equal => exact hcompare .equal rfl
  | notEqual => exact hcompare .notEqual rfl
  | less => exact hcompare .less rfl
  | lessEqual => exact hcompare .lessEqual rfl
  | greater => exact hcompare .greater rfl
  | greaterEqual => exact hcompare .greaterEqual rfl
  | and | or => exact .none

variable {ty : Ty} {x y : Constant} {a b : Int}

/-- A number is an `int` or a `byte`. -/
theorem IsAnswer.int_or_byte (hx : x.IsAnswer ty (.number a)) :
    (∃ v : Int64, x = int v ∧ ty = .int ∧ a = v.toInt) ∨
      ∃ v : UInt8, x = byte v ∧ ty = .byte ∧ a = v.toNat := by
  obtain ⟨rfl, ha⟩ := hx
  cases x with
  | int v => exact .inl ⟨v, rfl, rfl, (Option.some.inj ha).symm⟩
  | byte v => exact .inr ⟨v, rfl, rfl, (Option.some.inj ha).symm⟩
  | _ => cases ha

theorem IsAnswer.inRange (hx : x.IsAnswer ty (.number a)) : ty.inRange a := by
  rcases hx.int_or_byte with ⟨v, -, rfl, rfl⟩ | ⟨v, -, rfl, rfl⟩
  · exact inRange_toInt v
  · exact inRange_toNat v

/-- Constant arithmetic on two numbers of one type gives the exact answer. -/
theorem answers_binary? (hx : x.IsAnswer ty (.number a)) (hy : y.IsAnswer ty (.number b)) (op : BinaryOp) :
    Answers ty (binary? op x y) (op.answer? ty a b) := by
  rcases hx.int_or_byte with ⟨v, rfl, rfl, rfl⟩ | ⟨v, rfl, rfl, rfl⟩ <;>
    rcases hy.int_or_byte with ⟨w, rfl, hw, rfl⟩ | ⟨w, rfl, hw, rfl⟩
  · exact answers_intBinary? op v w
  · cases hw
  · cases hw
  · exact answers_byteBinary? op v w

theorem answers_neg (hx : x.IsAnswer ty (.number a)) : Answers ty (unary? .neg x) (ty.bounded? (-a)) := by
  rcases hx.int_or_byte with ⟨v, rfl, rfl, rfl⟩ | ⟨v, rfl, rfl, rfl⟩
  · exact answers_fitInt? _
  · exact answers_fitByte? _

theorem answers_cast? (hx : x.IsAnswer ty (.number a)) {target : Ty} (htarget : target.isInteger) :
    Answers target (cast? x target) (target.bounded? a) := by
  have hint (v : Int64) : Answers .int (some (int v)) (Ty.int.bounded? v.toInt) := by
    rw [Ty.bounded?, if_pos (inRange_toInt v)]
    exact .some ⟨rfl, rfl⟩
  have hbyte (v : UInt8) : Answers .byte (some (byte v)) (Ty.byte.bounded? v.toNat) := by
    rw [Ty.bounded?, if_pos (inRange_toNat v)]
    exact .some ⟨rfl, rfl⟩
  have htarget : target = .int ∨ target = .byte := by
    unfold Ty.isInteger at htarget
    cases target with
    | prim p => cases p <;> first | exact .inl rfl | exact .inr rfl | cases htarget
    | _ => cases htarget
  rcases hx.int_or_byte with ⟨v, rfl, rfl, rfl⟩ | ⟨v, rfl, rfl, rfl⟩ <;> rcases htarget with rfl | rfl
  · exact hint v
  · exact answers_fitByte? _
  · exact answers_fitInt? _
  · exact hbyte v

/-- A result is there exactly where an answer is. -/
theorem Answers.isSome_eq {c : Option Constant} {r : Option Answer} (h : Answers ty c r) :
    c.isSome = r.isSome := by
  cases h <;> rfl

theorem Answers.isSome_bounded? {c : Option Constant} {n : Int} (h : Answers ty c (ty.bounded? n)) :
    c.isSome = ty.inRange n := by
  rw [h.isSome_eq, Ty.bounded?]
  cases ty.inRange n <;> rfl

end Constant

namespace Ir.Check

open Constant

variable {known : Known} {ty : Ty} {x y : Constant} {a b : Int} {s t : Temp}

/-! ## Checks -/

theorem passes_overflow (hs : known.get? s = some x) (ht : known.get? t = some y)
    (hx : x.IsAnswer ty (.number a)) (hy : y.IsAnswer ty (.number b)) (op : BinaryOp) :
    (overflow op s t ty).passes known = (op.answer? ty a b).isSome := by
  have hty : ty.isInteger := by
    rcases hx.int_or_byte with ⟨_, -, rfl, -⟩ | ⟨_, -, rfl, -⟩ <;> rfl
  simp only [passes, hs, ht, hty, Bool.true_and]
  exact (answers_binary? hx hy op).isSome_eq

theorem passes_negOverflow (hs : known.get? s = some x) (hx : x.IsAnswer ty (.number a)) :
    (negOverflow s ty).passes known = ty.inRange (-a) := by
  simp only [passes, hs, Option.bind_some]
  exact (answers_neg hx).isSome_bounded?

theorem passes_divZero (ht : known.get? t = some y) (hy : y.IsAnswer ty (.number b)) :
    (divZero t).passes known ↔ b ≠ 0 := by
  simp [passes, ht, hy.2]

theorem passes_shiftRange (ht : known.get? t = some y) (hy : y.IsAnswer ty (.number b)) (w : Nat) :
    (shiftRange t w).passes known ↔ 0 ≤ b ∧ b < w := by
  simp [passes, ht, hy.2]

end Ir.Check

/-- Constant arithmetic on integers is exact, and a check on integer constants is dropped exactly if what it
guards holds. -/
theorem Ir.integer_arithmetic_exact {ty : Ty} {x y : Constant} {a b : Int}
    (hx : x.IsAnswer ty (.number a)) (hy : y.IsAnswer ty (.number b)) :
    (∀ op : BinaryOp, Constant.Answers ty (Constant.binary? op x y) (op.answer? ty a b)) ∧
      Constant.Answers ty (Constant.unary? .neg x) (ty.bounded? (-a)) ∧
      (∀ target : Ty, target.isInteger →
        Constant.Answers target (Constant.cast? x target) (target.bounded? a)) ∧
      ∀ (known : Known) (s t : Temp), known.get? s = some x → known.get? t = some y →
        (∀ op : BinaryOp, (Check.overflow op s t ty).passes known = (op.answer? ty a b).isSome) ∧
        (Check.negOverflow s ty).passes known = ty.inRange (-a) ∧
        ((Check.divZero t).passes known ↔ b ≠ 0) ∧
        ∀ w : Nat, (Check.shiftRange t w).passes known ↔ 0 ≤ b ∧ b < w := by
  refine ⟨Constant.answers_binary? hx hy, Constant.answers_neg hx,
    fun _ htarget => Constant.answers_cast? hx htarget, fun known s t hs ht => ?_⟩
  exact ⟨Check.passes_overflow hs ht hx hy, Check.passes_negOverflow hs hx,
    Check.passes_divZero ht hy, Check.passes_shiftRange ht hy⟩

/-- The least `int` has no quotient by minus one, and a check on the division stays. -/
theorem Ir.integer_arithmetic_least :
    let least := Constant.int Int64.minValue
    let known : Known := [(0, least), (1, .int (-1))]
    least.IsAnswer .int (.number Int64.minValue.toInt) ∧ (Constant.int (-1)).IsAnswer .int (.number (-1)) ∧
      (Constant.binary? .div least (.int (-1))).isSome = false ∧
      (Check.overflow .div 0 1 .int).passes known = false ∧ (Check.divZero 1).passes known := by
  intro least known
  have hleast : least.IsAnswer .int (.number Int64.minValue.toInt) := ⟨rfl, rfl⟩
  have hone : (Constant.int (-1)).IsAnswer .int (.number (-1)) := ⟨rfl, rfl⟩
  have hexact := integer_arithmetic_exact hleast hone
  obtain ⟨hover, -, hzero, -⟩ := hexact.2.2.2 known 0 1 rfl rfl
  refine ⟨hleast, hone, (hexact.1 .div).isSome_eq.trans (by decide), (hover .div).trans (by decide),
    hzero.2 (by decide)⟩

end ProtoScript
