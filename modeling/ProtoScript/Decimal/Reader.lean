import ProtoScript.Decimal.Binary64

set_option autoImplicit false

/-!
# Reading decimal text as a float

`readFloat?` reads a decimal number and rounds it once to the nearest double. The grammar is an
optional sign, digits with an optional point among or around them, and an optional exponent; the words
`inf`, `infinity` and `nan` are read in any mixture of cases.
-/

namespace ProtoScript.Decimal

/-- The number written by a run of digits. -/
def numeral (digits : List Char) : Nat :=
  digits.foldl (fun n c => 10 * n + (c.toNat - '0'.toNat)) 0

/-- The double nearest to `n · 10 ^ e`. Exponents far outside the range of doubles are settled
without computing the power: a nonzero `n` of `d` digits lies between `10 ^ (d - 1)` and
`10 ^ d`. -/
def nearest (n : Nat) (e : Int) : Float :=
  let size : Int := (Nat.toDigits 10 n).length
  if n = 0 ∨ size + e < -330 then 0.0
  else if 400 < size + e then 1.0 / 0.0
  else if 0 ≤ e then Float.ofScientific (n * tenPow e.toNat) false 0
  else Float.ofScientific n true (-e).toNat

/-- An exponent mark with its number at the end of the text, or nothing. -/
def readExponent? : List Char → Option Int
  | [] => some 0
  | c :: rest =>
    if c = 'e' ∨ c = 'E' then
      let (negative, digits) :=
        match rest with
        | '-' :: ds => (true, ds)
        | '+' :: ds => (false, ds)
        | ds => (false, ds)
      if digits.isEmpty || !digits.all Char.isDigit then none
      else some (if negative then -(numeral digits : Int) else numeral digits)
    else none

/-- A number without its sign. -/
def readMagnitude? (cs : List Char) : Option Float :=
  let word := String.ofList (cs.map Char.toLower)
  if word = "inf" ∨ word = "infinity" then some (1.0 / 0.0)
  else if word = "nan" then some (0.0 / 0.0)
  else
    let whole := cs.takeWhile Char.isDigit
    let rest := cs.dropWhile Char.isDigit
    let (fraction, rest) :=
      match rest with
      | '.' :: ds => (ds.takeWhile Char.isDigit, ds.dropWhile Char.isDigit)
      | ds => ([], ds)
    if whole.isEmpty && fraction.isEmpty then none
    else
      (readExponent? rest).map fun e =>
        nearest (numeral (whole ++ fraction)) (e - fraction.length)

/-- Reads a decimal number. -/
def readFloat? (text : String) : Option Float :=
  match text.toList with
  | '-' :: cs => (readMagnitude? cs).map (- ·)
  | '+' :: cs => readMagnitude? cs
  | cs => readMagnitude? cs

end ProtoScript.Decimal
