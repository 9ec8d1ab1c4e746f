set_option autoImplicit false

/-!
# Hexadecimal digits

Numbers that stand for characters are written in base sixteen.
-/

namespace ProtoScript

/-- The value of a hexadecimal digit. -/
def hexDigit? (c : Char) : Option Nat :=
  if '0' ≤ c ∧ c ≤ '9' then some (c.toNat - '0'.toNat)
  else if 'a' ≤ c ∧ c ≤ 'f' then some (c.toNat - 'a'.toNat + 10)
  else if 'A' ≤ c ∧ c ≤ 'F' then some (c.toNat - 'A'.toNat + 10)
  else none

/-- The value of a run of hexadecimal digits behind the value of those before. -/
def hexValue? (before : Nat) : List Char → Option Nat
  | [] => some before
  | c :: cs => (hexDigit? c).bind fun d => hexValue? (16 * before + d) cs

/-- The character whose number the hexadecimal digits are. -/
def hexChar? (digits : List Char) : Option Char := do
  let n ← hexValue? 0 digits
  if n.isValidChar then some (Char.ofNat n) else none

end ProtoScript
