import ProtoScript.Json.Basic

set_option autoImplicit false

/-!
# Numbers in JSON

A number is read as a significand of at most 64 bits, the digits beyond being dropped, that is
multiplied or divided once by a power of ten. A whole number that fits 64 bits is kept exactly.
`isNumber` is the grammar of numbers alone; `number?` also gives the value, which a number beyond the
range of floats has not.
-/

namespace ProtoScript.Json

/-! ## Grammar -/

/-- The text behind a sign, if there is one of the given characters. -/
def skipSign (signs : List Char) : List Char → List Char
  | c :: cs => if signs.contains c then cs else c :: cs
  | [] => []

/-- The text is a run of digits. -/
def isDigits (cs : List Char) : Bool := !cs.isEmpty && cs.all Char.isDigit

/-- The text is nothing, or an exponent mark with a number. -/
def isExponent : List Char → Bool
  | [] => true
  | c :: cs => (c == 'e' || c == 'E') && isDigits (skipSign ['+', '-'] cs)

/-- The text is a number: digits without a needless leading zero, then perhaps a fraction and an
exponent. -/
def isNumber (cs : List Char) : Bool :=
  let cs := skipSign ['-'] cs
  let whole := cs.takeWhile Char.isDigit
  !whole.isEmpty && (whole.length == 1 || whole.head? != some '0') &&
    match cs.dropWhile Char.isDigit with
    | '.' :: more =>
      !(more.takeWhile Char.isDigit).isEmpty && isExponent (more.dropWhile Char.isDigit)
    | more => isExponent more

/-! ## Values -/

/-- The greatest significand. -/
def maxSignificand : Nat := UInt64.size - 1

/-- Takes digits into the significand until one does not fit; returns the significand and the number of
digits taken. -/
def absorb (significand taken : Nat) : List Char → Nat × Nat
  | [] => (significand, taken)
  | c :: cs =>
    let next := 10 * significand + (c.toNat - '0'.toNat)
    if next ≤ maxSignificand then absorb next (taken + 1) cs else (significand, taken)

/-- `x · 10 ^ e`, if it is finite. Powers beyond `10 ^ 308` are divided out in steps; a few steps bring
every significand down to zero, so `fuel` is small. -/
def scale? (fuel : Nat) (x : Float) (e : Int) : Option Float :=
  if 0 ≤ e then
    if e ≤ 308 then
      let y := x * Float.ofScientific 1 false e.toNat
      if y.isInf then none else some y
    else if x == 0.0 then some x
    else none
  else if -308 ≤ e then some (x / Float.ofScientific 1 false (-e).toNat)
  else if x == 0.0 then some x
  else
    match fuel with
    | 0 => some 0.0
    | fuel + 1 => scale? fuel (x / 1e308) (e + 308)

/-- The greatest magnitude of a written exponent. -/
def maxExponent : Nat := 2147483647

/-- The value of a digit string. -/
def digitsValue (digits : List Char) : Nat :=
  digits.foldl (fun n c => 10 * n + (c.toNat - '0'.toNat)) 0

/-- The float with the given significand, the exponent left over from its digits, and the written
exponent, which is its sign and digits. -/
def floatOf? (significand : Nat) (shift : Int) (negative : Bool) (digits : List Char) :
    Option Float :=
  let e := digitsValue digits
  if maxExponent < e then
    if significand ≠ 0 ∧ !negative then none else some 0.0
  else
    scale? 5 (UInt64.ofNat significand).toFloat (if negative then shift - e else shift + e)

/-- The sign and the digits of a written exponent, which is everything that is left. -/
def exponent? : List Char → Option (Bool × List Char)
  | '+' :: ds => if !ds.isEmpty && ds.all Char.isDigit then some (false, ds) else none
  | '-' :: ds => if !ds.isEmpty && ds.all Char.isDigit then some (true, ds) else none
  | ds => if !ds.isEmpty && ds.all Char.isDigit then some (false, ds) else none

/-- A number without its sign, as a whole number if it is written as one and fits. -/
def magnitude? (cs : List Char) : Option (Nat ⊕ Float) := do
  let whole := cs.takeWhile Char.isDigit
  let rest := cs.dropWhile Char.isDigit
  -- A number has digits, and a leading zero stands alone.
  if whole.isEmpty ∨ (whole.head? = some '0' ∧ 1 < whole.length) then none
  let (significand, taken) := absorb 0 0 whole
  let dropped : Int := whole.length - taken
  match rest with
  | [] =>
    if dropped = 0 then return .inl significand
    else return .inr (← floatOf? significand dropped false [])
  | '.' :: more =>
    let fraction := more.takeWhile Char.isDigit
    if fraction.isEmpty then none
    let (significand, taken) := absorb significand 0 fraction
    let shift := dropped - taken
    match more.dropWhile Char.isDigit with
    | [] => return .inr (← floatOf? significand shift false [])
    | c :: tail =>
      if c ≠ 'e' ∧ c ≠ 'E' then none
      let (negative, digits) ← exponent? tail
      return .inr (← floatOf? significand shift negative digits)
  | c :: tail =>
    if c ≠ 'e' ∧ c ≠ 'E' then none
    let (negative, digits) ← exponent? tail
    return .inr (← floatOf? significand dropped negative digits)

/-- A number. Minus zero, and a negative whole number below the 64-bit range, are floats. -/
def number? : List Char → Option Json
  | '-' :: cs =>
    match magnitude? cs with
    | some (.inl n) =>
      if n = 0 ∨ UInt64.size / 2 < n then some (float (-(UInt64.ofNat n).toFloat)) else some (int (-n))
    | some (.inr x) => some (float (-x))
    | none => none
  | cs =>
    match magnitude? cs with
    | some (.inl n) => some (int n)
    | some (.inr x) => some (float x)
    | none => none

end ProtoScript.Json
