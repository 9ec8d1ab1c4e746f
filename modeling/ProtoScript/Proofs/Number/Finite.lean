import Mathlib

set_option autoImplicit false

/-!
# Floats that stay finite

The operations on floats take a float apart, compute on its mantissa and exponent, round and put the
result together again. A result is put together as an infinity exactly if its exponent is beyond 971,
so it is finite as soon as its exponent can be bounded. The bounds are rough: rounding adds at most one
bit to a mantissa, whatever it has dropped.
-/

namespace ProtoScript

open Float.Model (Format UnpackedFloat totalExponent)
open Float.Model.UnpackedFloat

/-! ## Taking apart and putting together -/

/-- The unpacked float is zero, or a number whose exponent and whose size a float can have. -/
def Representable : UnpackedFloat → Prop
  | .zero _ => True
  | .finite _ mantissa exponent _ => exponent ≤ 971 ∧ totalExponent mantissa exponent ≤ 1024
  | _ => False

theorem exponent_le_of_ne_ones {e : BitVec 11} (h : e ≠ -1#_) : e.toNat ≤ 2046 := by
  have := e.isLt
  rcases Nat.lt_or_ge e.toNat 2047 with hlt | hge
  · exact Nat.le_of_lt_succ hlt
  · exact absurd (BitVec.eq_of_toNat_eq (by simp; omega)) h

theorem log2_le_of_lt {m k : Nat} (h : m < 2 ^ (k + 1)) : m.log2 ≤ k := by
  rcases Nat.eq_zero_or_pos m with rfl | hpos
  · simp
  · exact Nat.le_of_lt_succ ((Nat.log2_lt (Nat.ne_of_gt hpos)).2 h)

/-- A float that is finite is taken apart into a number that a float can have. -/
theorem representable_unpack {x : Float} (h : x.isFinite = true) :
    Representable x.toModel.unpack := by
  have hfinite : (Float.Model.unpack x.toModel).isFinite = true := h
  unfold Float.Model.unpack UnpackedFloat.unpack at hfinite ⊢
  dsimp only at hfinite ⊢
  have hmantissa := (@unpackMantissa .binary64 x.toModel.toBits.toBitVec).isLt
  have hbias : Format.binary64.exponentBias = 1023 := rfl
  split
  · next hones =>
    rw [if_pos hones] at hfinite
    split at hfinite <;> cases hfinite
  next hones =>
  have hexponent := exponent_le_of_ne_ones hones
  split
  · next hzero =>
    split
    · trivial
    · have hlog := log2_le_of_lt (k := 51) hmantissa
      simp only [Representable, totalExponent, hzero, hbias]
      simp
      omega
  · have hlog := log2_le_of_lt (k := 52)
      (1#1 ++ @unpackMantissa .binary64 x.toModel.toBits.toBitVec).isLt
    simp only [Representable, totalExponent, hbias]
    omega

theorem isFinite_packComponents {sign : Sign} {exponent : BitVec 11} {mantissa : BitVec 52}
    (h : exponent ≠ -1#_) :
    (unpack .binary64 (packComponents .binary64 sign exponent mantissa)).isFinite = true := by
  unfold UnpackedFloat.unpack
  simp only [unpackExponent_packComponents, unpackMantissa_packComponents, if_neg h]
  split
  · split <;> rfl
  · rfl

theorem isInf_packedInfinity {sign : Sign} :
    (unpack .binary64 (packedInfinity .binary64 sign)).isInf = true := by
  simp [UnpackedFloat.unpack, packedInfinity, UnpackedFloat.isInf]

theorem isFinite_packedInfinity {sign : Sign} :
    (unpack .binary64 (packedInfinity .binary64 sign)).isFinite = false := by
  simp [UnpackedFloat.unpack, packedInfinity, UnpackedFloat.isFinite]

/-- What is not the float that is no number is put together as a finite float, or it was too great for
one and is put together as an infinity. -/
theorem isFinite_pack_or {u : UnpackedFloat} (h : u ≠ .notANumber) :
    (Float.ofModel (.pack u)).isFinite = true ∨
      (Float.ofModel (.pack u)).isInf = true ∧ ¬ Representable u := by
  change (unpack .binary64 (UnpackedFloat.pack .binary64 u)).isFinite = true ∨
    (unpack .binary64 (UnpackedFloat.pack .binary64 u)).isInf = true ∧ ¬ Representable u
  cases u with
  | notANumber => exact absurd rfl h
  | infinity sign => exact .inr ⟨isInf_packedInfinity, id⟩
  | zero sign => exact .inl (isFinite_packComponents (by decide))
  | finite sign mantissa exponent hpos =>
      unfold UnpackedFloat.pack
      have hbias : Format.binary64.exponentBias = 1023 := rfl
      dsimp only
      split
      · next hbig =>
        refine .inr ⟨isInf_packedInfinity, fun hu => ?_⟩
        have := hu.1
        omega
      next hbig =>
      split
      · refine .inl (isFinite_packComponents fun hones => ?_)
        have := congrArg BitVec.toNat hones
        simp at this
        omega
      · exact .inl (isFinite_packComponents (by decide))

theorem isFinite_pack {u : UnpackedFloat} (h : Representable u) :
    (Float.ofModel (.pack u)).isFinite = true := by
  refine (isFinite_pack_or ?_).resolve_right fun hinf => hinf.2 h
  rintro rfl
  exact h

theorem isFinite_pack_of_not_isInf {u : UnpackedFloat} (hnan : u ≠ .notANumber)
    (h : (Float.ofModel (.pack u)).isInf = false) : (Float.ofModel (.pack u)).isFinite = true :=
  (isFinite_pack_or hnan).resolve_right fun hinf => by simp [hinf.1] at h

/-! ## Rounding -/

theorem mantissa_shiftRight (m : ExtendedMantissa) (n : Nat) :
    (m >>> n).mantissa = m.mantissa / 2 ^ n := by
  induction n with
  | zero => simp [HShiftRight.hShiftRight, Nat.repeat]
  | succ n ih =>
      change (m >>> n).mantissa / 2 = _
      rw [ih, Nat.div_div_eq_div_mul, Nat.pow_succ]

theorem mantissa_ofMantissaAndAccuracy (m : Nat) (a : Accuracy) :
    (ExtendedMantissa.ofMantissaAndAccuracy m a).mantissa = m := by
  cases a with
  | exact => rfl
  | inexact o => cases o <;> rfl

theorem log2_div_le (m n : Nat) : (m / 2 ^ n).log2 ≤ m.log2 - n := by
  refine log2_le_of_lt ?_
  rw [Nat.div_lt_iff_lt_mul (Nat.two_pow_pos n), ← Nat.pow_add]
  exact Nat.lt_of_lt_of_le Nat.lt_log2_self (Nat.pow_le_pow_right (by decide) (by omega))

theorem le_roundedMantissa (m : ExtendedMantissa) : m.mantissa ≤ m.roundedMantissa := by
  obtain ⟨mantissa, roundBit, stickyBit⟩ := m
  cases roundBit <;> cases stickyBit <;>
    simp [ExtendedMantissa.roundedMantissa, ExtendedMantissa.accuracy, Accuracy.roundToNearestEven]

theorem roundedMantissa_le (m : ExtendedMantissa) : m.roundedMantissa ≤ m.mantissa + 1 := by
  obtain ⟨mantissa, roundBit, stickyBit⟩ := m
  cases roundBit <;> cases stickyBit <;>
    simp [ExtendedMantissa.roundedMantissa, ExtendedMantissa.accuracy, Accuracy.roundToNearestEven]
  omega

/-- Rounding makes a mantissa one bit longer at most. -/
theorem log2_roundedMantissa_le (m : ExtendedMantissa) :
    m.roundedMantissa.log2 ≤ m.mantissa.log2 + 1 := by
  have hround := roundedMantissa_le m
  have hlog := Nat.lt_log2_self (n := m.mantissa)
  refine log2_le_of_lt ?_
  rw [Nat.pow_succ]
  omega

/-- Shifting to the exponent that a number should have makes neither the exponent nor the number
greater than floats have them. -/
theorem shiftToTargetExponent_le {m : Nat} {e t : Int} {a : Accuracy} (he : e ≤ 971)
    (hm : totalExponent m e ≤ t) (hlow : 972 ≤ t) (hhigh : t ≤ 1024) :
    (shiftToTargetExponent .binary64 m e a).2 ≤ 971 ∧
      totalExponent (shiftToTargetExponent .binary64 m e a).1.mantissa
        (shiftToTargetExponent .binary64 m e a).2 ≤ t := by
  have htarget : Format.binary64.targetExponent (totalExponent m e) ≤ 971 := by
    simp only [Format.targetExponent, Format.mantissaBits, Format.minExponent]
    omega
  simp only [shiftToTargetExponent, shiftToExponent, mantissa_shiftRight,
    mantissa_ofMantissaAndAccuracy]
  have hdiv := log2_div_le m (Format.binary64.targetExponent (totalExponent m e) - e).toNat
  simp only [totalExponent] at *
  omega

/-- A number below the greatest float, with an exponent that floats have, is rounded to a number that a
float can have. -/
theorem representable_roundWithAccuracy {sign : Sign} {m : Nat} {e : Int} {a : Accuracy}
    (he : e ≤ 971) (hm : totalExponent m e ≤ 1023) :
    Representable (roundWithAccuracy .binary64 sign m e a) := by
  have hfirst := shiftToTargetExponent_le (a := a) he hm (by decide) (by decide)
  have hround := log2_roundedMantissa_le (shiftToTargetExponent .binary64 m e a).1
  have hsecond := shiftToTargetExponent_le (a := .exact)
    (m := (shiftToTargetExponent .binary64 m e a).1.roundedMantissa) (t := 1024) hfirst.1
    (by simp only [totalExponent] at *; omega) (by decide) (by decide)
  simp only [roundWithAccuracy]
  split
  · trivial
  · exact hsecond

/-! ## Long mantissas

A mantissa of 53 bits or more is cut to 53 bits, so that the result is taken apart as it was put
together. -/

theorem log2_div (m n : Nat) (h : n ≤ m.log2) : (m / 2 ^ n).log2 = m.log2 - n := by
  refine Nat.le_antisymm (log2_div_le m n) ?_
  rcases Nat.eq_zero_or_pos m with rfl | hpos
  · simp
  have hself := Nat.log2_self_le (Nat.ne_of_gt hpos)
  have hle : 2 ^ (m.log2 - n) ≤ m / 2 ^ n := by
    rwa [Nat.le_div_iff_mul_le (Nat.two_pow_pos n), ← Nat.pow_add, Nat.sub_add_cancel h]
  exact (Nat.le_log2 (Nat.ne_of_gt (Nat.lt_of_lt_of_le (Nat.two_pow_pos _) hle))).2 hle

theorem shiftToTargetExponent_of_long {m : Nat} {e : Int} {a : Accuracy} (hm : 52 ≤ m.log2)
    (he : -1074 ≤ e) :
    (shiftToTargetExponent .binary64 m e a).1.mantissa.log2 = 52 ∧
      (shiftToTargetExponent .binary64 m e a).2 = e + (m.log2 - 52 : Nat) := by
  have hshift : (Format.binary64.targetExponent (totalExponent m e) - e).toNat = m.log2 - 52 := by
    simp only [Format.targetExponent, Format.mantissaBits, Format.minExponent, totalExponent]
    omega
  simp only [shiftToTargetExponent, shiftToExponent, mantissa_shiftRight,
    mantissa_ofMantissaAndAccuracy, hshift, and_true]
  rw [log2_div m _ (Nat.sub_le _ _)]
  omega

/-- A long mantissa is rounded to one of 53 bits, and the number becomes no smaller. -/
theorem roundWithAccuracy_of_long {sign : Sign} {m : Nat} {e : Int} {a : Accuracy}
    (hm : 52 ≤ m.log2) (he : -1074 ≤ e) :
    ∃ n k hn, roundWithAccuracy .binary64 sign m e a = .finite sign n k hn ∧ n.log2 = 52 ∧
      e + (m.log2 - 52 : Nat) ≤ k := by
  obtain ⟨hlog, hexponent⟩ := shiftToTargetExponent_of_long (a := a) hm he
  have hround : 52 ≤ (shiftToTargetExponent .binary64 m e a).1.roundedMantissa.log2 := by
    have hle := le_roundedMantissa (shiftToTargetExponent .binary64 m e a).1
    have hpow : 2 ^ 52 ≤ (shiftToTargetExponent .binary64 m e a).1.mantissa :=
      (Nat.le_log2 (by rintro h; simp [h] at hlog)).1 (Nat.le_of_eq hlog.symm)
    exact (Nat.le_log2 (by omega)).2 (Nat.le_trans hpow hle)
  obtain ⟨hlog', hexponent'⟩ := shiftToTargetExponent_of_long (a := .exact)
    (e := (shiftToTargetExponent .binary64 m e a).2) hround (by omega)
  simp only [roundWithAccuracy]
  rw [dif_neg (by intro h; simp [h] at hlog')]
  exact ⟨_, _, _, rfl, hlog', by omega⟩

theorem unpack_packComponents_of_normal {sign : Sign} {exponent : BitVec 11} {mantissa : BitVec 52}
    (hones : exponent ≠ -1#_) (hzero : exponent ≠ 0#_) :
    ∃ s n hn, unpack .binary64 (packComponents .binary64 sign exponent mantissa) =
      .finite s n (exponent.toNat - 1075) hn ∧ n.log2 = 52 := by
  -- The leading bit, which is not stored, is put back.
  have hlead : (1#1 ++ mantissa).toNat = 2 ^ 52 + mantissa.toNat := by
    rw [BitVec.toNat_append, ← Nat.shiftLeft_add_eq_or_of_lt mantissa.isLt]
    rfl
  have hlt := mantissa.isLt
  unfold UnpackedFloat.unpack
  simp only [unpackExponent_packComponents, unpackMantissa_packComponents]
  rw [if_neg hones, if_neg hzero]
  refine ⟨_, (1#1 ++ mantissa).toNat, by omega, rfl, ?_⟩
  rw [hlead, Nat.log2_eq_iff (by omega)]
  omega

/-- A finite float that was put together with a mantissa of 53 bits is taken apart the same way. -/
theorem unpack_pack_of_long {sign : Sign} {m : Nat} {e : Int} {hm : 0 < m} (hlog : m.log2 = 52)
    (he : -1074 ≤ e) (h : (Float.ofModel (.pack (.finite sign m e hm))).isFinite = true) :
    ∃ s n hn, (Float.Model.pack (.finite sign m e hm)).unpack = .finite s n e hn ∧ n.log2 = 52 := by
  change (unpack .binary64 (UnpackedFloat.pack .binary64 (.finite sign m e hm))).isFinite = true at h
  change ∃ s n hn,
    unpack .binary64 (UnpackedFloat.pack .binary64 (.finite sign m e hm)) = .finite s n e hn ∧
      n.log2 = 52
  obtain ⟨b, rfl⟩ : ∃ b : Nat, e = b - 1075 := ⟨(e + 1075).toNat, by omega⟩
  have hbias : ((b - 1075 : Int) + Format.binary64.exponentBias + (52 : Nat)).toNat = b := by
    change ((b - 1075 : Int) + 1023 + 52).toNat = b
    omega
  unfold UnpackedFloat.pack at h ⊢
  simp only [hbias, hlog] at h ⊢
  split at h
  · rw [isFinite_packedInfinity] at h
    cases h
  next hsmall =>
  have hlong : 52 + 1 = Format.binary64.mantissaBits := rfl
  rw [if_neg hsmall, if_pos hlong]
  have hb : (BitVec.ofNat 11 b).toNat = b := by rw [BitVec.toNat_ofNat, Nat.mod_eq_of_lt (by omega)]
  have := @unpack_packComponents_of_normal sign (.ofNat 11 b) (.ofNat 52 m)
    (fun hones => by simp [hones] at hb; omega) (fun hzero => by simp [hzero] at hb; omega)
  rwa [hb] at this

/-! ## The operations that read a number -/

theorem isFinite_neg {x : Float} (h : x.isFinite = true) : (-x).isFinite = true := by
  refine isFinite_pack (u := x.toModel.unpack.neg) ?_
  have hx := representable_unpack h
  generalize x.toModel.unpack = u at hx
  cases u <;> exact hx

theorem log2_shiftLeft_le (m n : Nat) : (m <<< n).log2 ≤ m.log2 + n := by
  refine log2_le_of_lt ?_
  rw [Nat.shiftLeft_eq, Nat.add_right_comm, Nat.pow_add]
  exact Nat.mul_lt_mul_of_pos_right Nat.lt_log2_self (Nat.two_pow_pos _)

/-- A whole number of 64 bits is rounded to a number that a float can have. -/
theorem representable_round {sign : Sign} {m : Nat} (h : m < 2 ^ 64) :
    Representable (UnpackedFloat.round .binary64 sign m 0) := by
  have hm := log2_le_of_lt (k := 63) h
  have hshift := log2_shiftLeft_le m
    (0 - Format.binary64.targetExponent (totalExponent m 0)).toNat
  refine representable_roundWithAccuracy ?_ ?_
  · omega
  · simp only [totalExponent] at *
    omega

theorem representable_normalize {n : Int} (h : n.natAbs < 2 ^ 64) :
    Representable (UnpackedFloat.normalize .binary64 n 0 .positive) := by
  unfold UnpackedFloat.normalize
  split
  · exact representable_round (by omega)
  · trivial
  · exact representable_round (by omega)

theorem isFinite_ofUInt64 (n : UInt64) : n.toFloat.isFinite = true :=
  isFinite_pack (u := .ofUInt64 .binary64 n) (representable_normalize (by have := n.toNat_lt; omega))

/-- A product that is not infinite is finite. -/
theorem isFinite_mul {x y : Float} (hx : x.isFinite = true) (hy : y.isFinite = true)
    (h : (x * y).isInf = false) : (x * y).isFinite = true := by
  refine isFinite_pack_of_not_isInf (u := .mul .binary64 x.toModel.unpack y.toModel.unpack) ?_ h
  have hx := representable_unpack hx
  have hy := representable_unpack hy
  generalize x.toModel.unpack = u at hx
  generalize y.toModel.unpack = v at hy
  cases u <;> cases v <;> simp [UnpackedFloat.mul, roundWithAccuracy, Representable] at hx hy ⊢
  split <;> simp

/-! ## Powers of ten -/

/-- The powers of ten beyond the table of the small ones are rounded from their exact values. -/
theorem ofScientific_eq {k : Nat} (h : 22 < k) (hk : k ≤ 308) :
    Float.ofScientific 1 false k = .ofModel (.pack
      (roundWithAccuracy .binary64 .positive ((1 <<< 53) * 10 ^ k) (-53) .exact)) := by
  have hlarge : ¬ (1 < 2 ^ 53 ∧ k ≤ 22) := by omega
  have hover : ¬ (Int.ofNat k > 2 ^ Format.binary64.exponentBits) := by
    change ¬ ((k : Int) > 2048)
    omega
  have hunder : ¬ (Int.ofNat k < -((2 ^ Format.binary64.exponentBits : Int) + (1 : Nat).log2)) := by
    change ¬ ((k : Int) < -(2048 + 0))
    omega
  have hexact : ofScientific .binary64 1 (Int.ofNat k) =
      roundWithAccuracy .binary64 .positive ((1 <<< 53) * 10 ^ k) (-53) .exact := by
    unfold UnpackedFloat.ofScientific
    rw [dif_neg (by decide), if_neg hover, if_neg hunder,
      if_pos (show 0 ≤ Int.ofNat k from Int.natCast_nonneg k)]
    rfl
  rw [Float.ofScientific, dif_neg hlarge, ← hexact]
  rfl

/-- The number is at least two, but for its sign. -/
def atLeastTwo : UnpackedFloat → Bool
  | .finite _ m e _ => 2 ≤ totalExponent m e
  | _ => false

theorem ofScientific_of_small : ∀ k : Fin 23, (Float.ofScientific 1 false k).isFinite = true ∧
    (0 < k → atLeastTwo (Float.ofScientific 1 false k).toModel.unpack = true) := by
  decide +kernel

theorem isFinite_ofScientific {k : Nat} (h : k ≤ 308) : (Float.ofScientific 1 false k).isFinite = true := by
  rcases Nat.lt_or_ge 22 k with hlarge | hsmall
  · rcases Nat.lt_or_eq_of_le h with hlt | rfl
    · rw [ofScientific_eq hlarge h]
      have hpow := Nat.pow_le_pow_right (show 0 < 10 by decide) (Nat.le_of_lt_succ hlt)
      have hlog : ((1 <<< 53) * 10 ^ k).log2 ≤ 1072 := by
        refine log2_le_of_lt ?_
        exact Nat.lt_of_le_of_lt (Nat.mul_le_mul_left _ hpow) (by decide +kernel)
      refine isFinite_pack (representable_roundWithAccuracy (by decide) ?_)
      simp only [totalExponent]
      omega
    -- The greatest power is within one bit of the greatest float, so its rounding is computed.
    · decide +kernel
  · exact (ofScientific_of_small ⟨k, by omega⟩).1

theorem atLeastTwo_ofScientific {k : Nat} (hpos : 0 < k) (h : k ≤ 308) :
    atLeastTwo (Float.ofScientific 1 false k).toModel.unpack = true := by
  rcases Nat.lt_or_ge 22 k with hlarge | hsmall
  · have hfinite := isFinite_ofScientific h
    rw [ofScientific_eq hlarge h] at hfinite ⊢
    have hpow : 10 ^ 1 ≤ 10 ^ k := Nat.pow_le_pow_right (by decide) hpos
    have hlog : 54 ≤ ((1 <<< 53) * 10 ^ k).log2 := by
      rw [Nat.le_log2 (by omega)]
      omega
    obtain ⟨m, e, hm, hround, hlong, he⟩ := @roundWithAccuracy_of_long .positive _ (-53) .exact
      (Nat.le_trans (by decide) hlog) (by decide)
    rw [hround] at hfinite ⊢
    obtain ⟨s, n, hn, hunpack, hlong'⟩ := unpack_pack_of_long hlong (by omega) hfinite
    refine (congrArg atLeastTwo hunpack).trans (decide_eq_true ?_)
    simp only [totalExponent]
    omega
  · exact (ofScientific_of_small ⟨k, by omega⟩).2 hpos

theorem log2_quotient_le (m : Nat) {n : Nat} (hn : 0 < n) : (m / n).log2 ≤ m.log2 - n.log2 := by
  refine Nat.le_trans ?_ (log2_div_le m n.log2)
  refine log2_le_of_lt (Nat.lt_of_le_of_lt ?_ Nat.lt_log2_self)
  exact Nat.div_le_div_left (Nat.log2_self_le (Nat.ne_of_gt hn)) (Nat.two_pow_pos _)

/-- A finite float divided by a positive power of ten is finite: the quotient has at most the bits of
the float. -/
theorem isFinite_div_ofScientific {x : Float} {k : Nat} (hx : x.isFinite = true) (hpos : 0 < k)
    (hk : k ≤ 308) : (x / Float.ofScientific 1 false k).isFinite = true := by
  have hx := representable_unpack hx
  have htwo := atLeastTwo_ofScientific hpos hk
  refine isFinite_pack (u := .div .binary64 x.toModel.unpack
    (Float.ofScientific 1 false k).toModel.unpack) ?_
  generalize x.toModel.unpack = u at hx
  generalize (Float.ofScientific 1 false k).toModel.unpack = v at htwo
  cases v with
  | finite s₂ m₂ e₂ hm₂ =>
      cases u with
      | finite s₁ m₁ e₁ hm₁ =>
          have htwo : 2 ≤ totalExponent m₂ e₂ := of_decide_eq_true htwo
          simp only [UnpackedFloat.div, divCore]
          generalize hshift : (e₁ - e₂ - min (e₁ - e₂) (Format.binary64.targetExponent
            (totalExponent m₁ e₁ - totalExponent m₂ e₂))).toNat = shift
          have hlog := log2_quotient_le (m₁ <<< shift) hm₂
          have hlog' := log2_shiftLeft_le m₁ shift
          simp only [Representable, totalExponent, Format.targetExponent, Format.mantissaBits,
            Format.minExponent] at *
          refine representable_roundWithAccuracy ?_ ?_
          · omega
          · simp only [totalExponent]
            omega
      | zero => trivial
      | _ => exact hx.elim
  | _ => cases htwo

end ProtoScript
