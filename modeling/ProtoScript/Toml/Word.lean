import ProtoScript.Decimal.Reader
import ProtoScript.Text.Hex
import ProtoScript.Toml.Basic

set_option autoImplicit false

/-!
# Values without quotes

Booleans, integers, floats and moments are words: runs of letters, digits and a few marks. The four
kinds have no word in common.
-/

namespace ProtoScript.Toml

/-- The characters of words. -/
def isWordChar (c : Char) : Bool :=
  c.isAlphanum || c == '_' || c == '-' || c == '+' || c == '.' || c == ':'

/-! ## Numbers -/

/-- The value of digits in a base; underscores stand between digits only. -/
def digits? (base : Nat) (cs : List Char) : Option Nat := do
  let groups := (String.ofList cs).splitOn "_"
  if groups.any String.isEmpty then none
  (groups.flatMap String.toList).foldlM (fun n c => do
    let d ← hexDigit? c
    if d < base then some (base * n + d) else none) 0

/-- An integer without its sign; a leading zero stands alone. -/
def natural? : List Char → Option Nat
  | ['0'] => some 0
  | '0' :: _ => none
  | cs => digits? 10 cs

/-- The text behind a sign, if there is one. -/
def unsigned : List Char → List Char
  | '+' :: cs => cs
  | '-' :: cs => cs
  | cs => cs

/-- An integer. One in another base than ten has no sign. -/
def integer? : List Char → Option Int
  | '-' :: cs => (natural? cs).map fun n => -(n : Int)
  | '+' :: cs => (natural? cs).map Int.ofNat
  | '0' :: 'x' :: cs => (digits? 16 cs).map Int.ofNat
  | '0' :: 'o' :: cs => (digits? 8 cs).map Int.ofNat
  | '0' :: 'b' :: cs => (digits? 2 cs).map Int.ofNat
  | cs => (natural? cs).map Int.ofNat

/-- The characters of a run of digits. -/
def isDigitOrGap (c : Char) : Bool := c.isDigit || c == '_'

/-- The text is an exponent. -/
def isExponent : List Char → Bool
  | c :: cs => (c == 'e' || c == 'E') && (digits? 10 (unsigned cs)).isSome
  | [] => false

/-- The text is a fraction, perhaps with an exponent. -/
def isFraction : List Char → Bool
  | '.' :: cs =>
    let rest := cs.dropWhile isDigitOrGap
    (digits? 10 (cs.takeWhile isDigitOrGap)).isSome && (rest.isEmpty || isExponent rest)
  | _ => false

/-- The text is a decimal number with a fraction or an exponent. -/
def isDecimal (cs : List Char) : Bool :=
  let cs := unsigned cs
  let rest := cs.dropWhile isDigitOrGap
  (natural? (cs.takeWhile isDigitOrGap)).isSome && (isExponent rest || isFraction rest)

/-- The text is one of the words for what is not a finite number. -/
def isSpecial (cs : List Char) : Bool :=
  let cs := unsigned cs
  cs == "inf".toList || cs == "nan".toList

/-- A float. A number may be too small, but not too large. -/
def float? (cs : List Char) : Option Float :=
  if isSpecial cs then Decimal.readFloat? (String.ofList cs)
  else if isDecimal cs then
    (Decimal.readFloat? (String.ofList (cs.filter (· != '_')))).bind fun x =>
      if x.isInf && 0 < x then none else some x
  else none

/-! ## Words -/

/-- An integer of 64 bits. -/
def word64? (cs : List Char) : Option Int :=
  (integer? cs).bind fun n =>
    if Int64.minValue.toInt ≤ n ∧ n ≤ Int64.maxValue.toInt then some n else none

/-- The value of a word. -/
def word? (cs : List Char) : Option Value :=
  if cs = "true".toList then some (.bool true)
  else if cs = "false".toList then some (.bool false)
  else
    match Moment.read? cs with
    | some m => some (.moment m)
    | none =>
      match word64? cs with
      | some n => some (.int n)
      | none => (float? cs).map .float

/-- The text starts like a time of day. -/
def startsTime : List Char → Bool
  | a :: b :: ':' :: _ => a.isDigit && b.isDigit
  | _ => false

/-- A value without quotes at the start of a text. The time of a moment may stand a space behind its
date. -/
def wordValue? (cs : List Char) : Option (Value × List Char) :=
  let text := cs.takeWhile isWordChar
  let rest := cs.drop text.length
  match Date.read? text, rest with
  | some date, ' ' :: more =>
    let next := more.takeWhile isWordChar
    if startsTime next then
      (Moment.withTime? date next).map fun m => (.moment m, more.drop next.length)
    else some (.moment (.date date), rest)
  | _, _ => (word? text).map (·, rest)

end ProtoScript.Toml
