import Mathlib.Data.List.Basic
import Mathlib.Data.List.TakeWhile
import Mathlib.Tactic.IntervalCases
import ProtoScript.Json.Draft

set_option autoImplicit false

/-!
# Numbers in JSON

The decimal digits of a whole number are read as that number if it fits 64 bits. Whatever has a
value as a number follows the grammar of numbers, and so consists of characters of words.
-/

namespace ProtoScript.Json

/-! ## Whole numbers -/

theorem le_ofDigitChars (cs : List Char) (n : Nat) : n ≤ Nat.ofDigitChars 10 cs n := by
  rw [Nat.ofDigitChars_eq_ofDigitChars_zero]
  have hpow : 0 < 10 ^ cs.length := Nat.pow_pos (by decide)
  have hmul : n ≤ 10 ^ cs.length * n := Nat.le_mul_of_pos_left n hpow
  omega

/-- All digits are taken if their number is not too great. -/
theorem absorb_eq {cs : List Char} {n : Nat} (taken : Nat)
    (h : Nat.ofDigitChars 10 cs n ≤ maxSignificand) :
    absorb n taken cs = (Nat.ofDigitChars 10 cs n, taken + cs.length) := by
  induction cs generalizing n taken with
  | nil => simp [absorb]
  | cons c cs ih =>
      rw [Nat.ofDigitChars_cons] at h ⊢
      have hnext := Nat.le_trans (le_ofDigitChars cs _) h
      rw [absorb, if_pos hnext, ih _ h]
      simp [Nat.add_comm, Nat.add_left_comm]

/-- Only zero is written with a leading zero. -/
theorem head_toDigits {n : Nat} (h : (Nat.toDigits 10 n).head? = some '0') : n = 0 := by
  induction n using Nat.strongRecOn with
  | _ n ih =>
      by_cases hn : n < 10
      · rw [Nat.toDigits_of_lt_base hn] at h
        interval_cases n <;> simp_all
      · rw [Nat.toDigits_of_base_le (by decide) (by omega),
          List.head?_append_of_ne_nil _ Nat.toDigits_ne_nil] at h
        have hzero := ih (n / 10) (by omega) h
        omega

theorem digits_all (n : Nat) : ∀ c ∈ Nat.toDigits 10 n, c.isDigit = true :=
  fun _ hc => Nat.isDigit_of_mem_toDigits (by decide) (by decide) hc

/-- The digits of a number that fits are a number without a sign. -/
theorem magnitude?_toDigits {n : Nat} (h : n ≤ maxSignificand) :
    magnitude? (Nat.toDigits 10 n) = some (.inl n) := by
  have hwhole : (Nat.toDigits 10 n).takeWhile Char.isDigit = Nat.toDigits 10 n :=
    List.takeWhile_eq_self_iff.2 (digits_all n)
  have hrest : (Nat.toDigits 10 n).dropWhile Char.isDigit = [] :=
    List.dropWhile_eq_nil_iff.2 (digits_all n)
  have hguard : ¬ ((Nat.toDigits 10 n).isEmpty ∨
      ((Nat.toDigits 10 n).head? = some '0' ∧ 1 < (Nat.toDigits 10 n).length)) := by
    rintro (hempty | ⟨hzero, hlong⟩)
    · exact Nat.toDigits_ne_nil (List.isEmpty_iff.1 hempty)
    · rw [head_toDigits hzero] at hlong
      exact absurd hlong (by decide)
  have htaken : absorb 0 0 (Nat.toDigits 10 n) = (n, (Nat.toDigits 10 n).length) := by
    have hvalue := @Nat.ofDigitChars_toDigits 10 n (by decide) (by decide)
    rw [absorb_eq 0 (by rwa [hvalue]), hvalue, Nat.zero_add]
  unfold magnitude?
  simp only [hwhole, hrest, htaken]
  rw [if_neg hguard]
  simp

theorem toDigits_ne_minus (n : Nat) (cs : List Char) : Nat.toDigits 10 n ≠ '-' :: cs := by
  intro h
  have hdigit := digits_all n '-' (by simp [h])
  cases hdigit

theorem toList_toString_ofNat (n : Nat) :
    (toString (Int.ofNat n)).toList = Nat.toDigits 10 n := by
  simp [toString, Int.repr, Nat.repr]

theorem toList_toString_negSucc (n : Nat) :
    (toString (Int.negSucc n)).toList = '-' :: Nat.toDigits 10 (n + 1) := by
  simp [toString, Int.repr, Nat.repr]

/-- A whole number of at most 64 bits is read back. -/
theorem number?_toString {n : Int} (hlow : -(2 ^ 63) ≤ n) (hhigh : n < 2 ^ 64) :
    number? (toString n).toList = some (.int n) := by
  have hmax : maxSignificand = 2 ^ 64 - 1 := rfl
  cases n with
  | ofNat n =>
      have hn : n ≤ maxSignificand := by
        rw [Int.ofNat_eq_natCast] at hhigh
        omega
      rw [toList_toString_ofNat, number?, magnitude?_toDigits hn]
      · rfl
      · exact toDigits_ne_minus n
  | negSucc n =>
      have hn : n + 1 ≤ 2 ^ 63 := by
        rw [Int.negSucc_eq] at hlow
        omega
      rw [toList_toString_negSucc, number?, magnitude?_toDigits (by omega)]
      have hfits : ¬ (n + 1 = 0 ∨ UInt64.size / 2 < n + 1) := by
        have hhalf : UInt64.size / 2 = 2 ^ 63 := rfl
        omega
      simp only [if_neg hfits]
      rfl

/-! ## The grammar -/

theorem isWordChar_of_isDigit {c : Char} (h : c.isDigit = true) : isWordChar c = true := by
  simp [isWordChar, Char.isAlphanum, h]

/-- A text is a run of digits and what follows it. -/
theorem all_of_split {cs : List Char} {P : Char → Prop} (hdigit : ∀ c, c.isDigit = true → P c)
    (hrest : ∀ c ∈ cs.dropWhile Char.isDigit, P c) : ∀ c ∈ cs, P c := by
  intro c hc
  rw [← List.takeWhile_append_dropWhile (p := Char.isDigit) (l := cs), List.mem_append] at hc
  rcases hc with hc | hc
  · exact hdigit c (List.mem_takeWhile_imp hc)
  · exact hrest c hc

theorem wordChars_skipSign {signs cs : List Char} (hsigns : ∀ c ∈ signs, isWordChar c = true)
    (h : ∀ c ∈ skipSign signs cs, isWordChar c = true) : ∀ c ∈ cs, isWordChar c = true := by
  cases cs with
  | nil => simp
  | cons c cs =>
      simp only [skipSign] at h
      split at h
      case isTrue hsign =>
        intro d hd
        rcases List.mem_cons.1 hd with rfl | hd
        · exact hsigns d (by simpa using hsign)
        · exact h d hd
      case isFalse => exact h

theorem wordChars_of_isExponent {cs : List Char} (h : isExponent cs = true) :
    ∀ c ∈ cs, isWordChar c = true := by
  cases cs with
  | nil => simp
  | cons c cs =>
      simp only [isExponent, isDigits, Bool.and_eq_true, Bool.or_eq_true, beq_iff_eq,
        List.all_eq_true] at h
      obtain ⟨hmark, -, hdigits⟩ := h
      have hc : isWordChar c = true := by rcases hmark with rfl | rfl <;> rfl
      have hcs := wordChars_skipSign (List.all_eq_true.1 rfl) fun d hd => isWordChar_of_isDigit (hdigits d hd)
      simpa [hc] using hcs

/-- A number is written in characters of words. -/
theorem wordChars_of_isNumber {cs : List Char} (h : isNumber cs = true) :
    ∀ c ∈ cs, isWordChar c = true := by
  refine @wordChars_skipSign ['-'] cs (List.all_eq_true.1 rfl) ?_
  refine all_of_split (fun c => isWordChar_of_isDigit) ?_
  simp only [isNumber, Bool.and_eq_true] at h
  obtain ⟨-, h⟩ := h
  split at h
  case h_1 more hmore =>
    rw [hmore]
    simp only [Bool.and_eq_true] at h
    have hmore := all_of_split (fun c => isWordChar_of_isDigit) (wordChars_of_isExponent h.2)
    intro c hc
    rcases List.mem_cons.1 hc with rfl | hc
    · rfl
    · exact hmore c hc
  case h_2 => exact wordChars_of_isExponent h

/-! ## What has a value -/

theorem isExponent_of_exponent? {c : Char} {tail digits : List Char} {negative : Bool}
    (hc : ¬ (c ≠ 'e' ∧ c ≠ 'E')) (h : exponent? tail = some (negative, digits)) :
    isExponent (c :: tail) = true := by
  have hmark : (c == 'e' || c == 'E') = true := by
    simp only [Bool.or_eq_true, beq_iff_eq]
    tauto
  have hdigits : isDigits (skipSign ['+', '-'] tail) = true := by
    unfold exponent? at h
    split at h <;> split at h <;> try contradiction
    case h_1.isTrue ds hds => exact hds
    case h_2.isTrue ds hds => exact hds
    case h_3.isTrue hplus hminus hds =>
      cases tail with
      | nil => exact hds
      | cons d ds =>
          have hd : d ≠ '+' ∧ d ≠ '-' := ⟨by rintro rfl; exact hplus ds rfl,
            by rintro rfl; exact hminus ds rfl⟩
          simpa [skipSign, hd.1, hd.2, isDigits] using hds
  simp [isExponent, hmark, hdigits]

/-- A number that is no whole number of the reader: a significand and an exponent. -/
def IsScaled (x : Nat ⊕ Float) : Prop :=
  ∃ y significand shift negative digits,
    floatOf? significand shift negative digits = some y ∧ x = .inr y

theorem isScaled_of_bind {significand : Nat} {shift : Int} {negative : Bool} {digits : List Char}
    {x : Nat ⊕ Float}
    (h : (floatOf? significand shift negative digits).bind (fun y => some (.inr y)) = some x) :
    IsScaled x := by
  obtain ⟨y, hy, hx⟩ := Option.bind_eq_some_iff.1 h
  exact ⟨y, significand, shift, negative, digits, hy, (Option.some.inj hx).symm⟩

/-- The exponent at the end of a number. -/
theorem isScaled_of_exponent {c : Char} {tail : List Char} {significand : Nat} {shift : Int}
    {x : Nat ⊕ Float} (hc : ¬ (c ≠ 'e' ∧ c ≠ 'E'))
    (h : ((exponent? tail).bind fun e =>
      (floatOf? significand shift e.1 e.2).bind fun y => some (.inr y)) = some x) :
    isExponent (c :: tail) = true ∧ IsScaled x := by
  obtain ⟨⟨negative, digits⟩, he, hy⟩ := Option.bind_eq_some_iff.1 h
  exact ⟨isExponent_of_exponent? hc he, isScaled_of_bind hy⟩

/-- What a number without its sign is: a text of the grammar, and either a whole number or a float
made of a significand and an exponent. -/
theorem magnitude?_cases {cs signed : List Char} {x : Nat ⊕ Float} (h : magnitude? cs = some x)
    (hskip : skipSign ['-'] signed = cs) :
    isNumber signed = true ∧ ((∃ n, x = .inl n) ∨ IsScaled x) := by
  unfold magnitude? at h
  simp only [] at h
  split at h
  · cases h
  next hwhole =>
  -- The grammar asks of the digits in front what the guard has just said of them.
  have hfront : (!(cs.takeWhile Char.isDigit).isEmpty &&
      ((cs.takeWhile Char.isDigit).length == 1 ||
        (cs.takeWhile Char.isDigit).head? != some '0')) = true := by
    generalize cs.takeWhile Char.isDigit = whole at hwhole
    rw [not_or, not_and, Nat.not_lt] at hwhole
    cases whole with
    | nil => exact absurd rfl hwhole.1
    | cons d ds =>
        by_cases hd : d = '0'
        · have hnone : ds = [] := by simpa using hwhole.2 (by simp [hd])
          simp [hnone]
        · simp [hd]
  unfold isNumber
  simp only [hskip, hfront, Bool.true_and]
  split at h
  · next hrest =>
    rw [hrest]
    refine ⟨rfl, ?_⟩
    split at h
    · exact .inl ⟨_, (Option.some.inj h).symm⟩
    · exact .inr (isScaled_of_bind h)
  · next more hrest =>
    rw [hrest]
    split at h
    · cases h
    next hfraction =>
    simp only [hfraction, Bool.not_false, Bool.true_and]
    split at h
    · next hmore =>
      rw [hmore]
      exact ⟨rfl, .inr (isScaled_of_bind h)⟩
    · next c tail hmore =>
      rw [hmore]
      split at h
      · cases h
      next hc =>
      exact (isScaled_of_exponent hc h).imp_right .inr
  · next c tail hpoint hrest =>
    rw [hrest]
    split at h
    · cases h
    next hc =>
    obtain ⟨hexp, hscaled⟩ := isScaled_of_exponent hc h
    refine ⟨?_, .inr hscaled⟩
    split
    · next heq =>
      cases heq
      exact (hpoint rfl).elim
    · exact hexp

/-- What a number is read as. -/
theorem number?_cases {cs : List Char} {j : Json} (h : number? cs = some j) :
    isNumber cs = true ∧ ((∃ n, j = .int n) ∨ (∃ n : Nat, j = .float (-(UInt64.ofNat n).toFloat)) ∨
      ∃ x, IsScaled (.inr x) ∧ (j = .float x ∨ j = .float (-x))) := by
  unfold number? at h
  split at h
  case h_1 cs =>
    have hskip : skipSign ['-'] ('-' :: cs) = cs := rfl
    split at h
    case h_1 n hn =>
      refine ⟨(magnitude?_cases hn hskip).1, ?_⟩
      split at h
      · exact .inr (.inl ⟨n, (Option.some.inj h).symm⟩)
      · exact .inl ⟨_, (Option.some.inj h).symm⟩
    case h_2 x hx =>
      obtain ⟨hgrammar, ⟨n, hn⟩ | hscaled⟩ := magnitude?_cases hx hskip
      · cases hn
      · exact ⟨hgrammar, .inr (.inr ⟨x, hscaled, .inr (Option.some.inj h).symm⟩)⟩
    case h_3 => cases h
  case h_2 hsign =>
    have hskip : skipSign ['-'] cs = cs := by
      cases cs with
      | nil => rfl
      | cons c cs =>
          have hc : c ≠ '-' := by
            rintro rfl
            exact hsign cs rfl
          simp [skipSign, hc]
    split at h
    case h_1 n hn =>
      exact ⟨(magnitude?_cases hn hskip).1, .inl ⟨n, (Option.some.inj h).symm⟩⟩
    case h_2 x hx =>
      obtain ⟨hgrammar, ⟨n, hn⟩ | hscaled⟩ := magnitude?_cases hx hskip
      · cases hn
      · exact ⟨hgrammar, .inr (.inr ⟨x, hscaled, .inl (Option.some.inj h).symm⟩)⟩
    case h_3 => cases h

end ProtoScript.Json
