import ProtoScript.Decimal.Binary64

set_option autoImplicit false

/-!
# Decimal text of floats

A `FloatStyle` collects the decisions of a decimal format: which exponents are written
positionally, whether a positive exponent has a plus sign, which way ties go, and the words for what
is not a number. `FloatStyle.render` writes the shortest digits by it. A whole number keeps `.0`, and an
exponent has no padding.
-/

namespace ProtoScript

/-!
## Shortest decimal digits

The fewest significant digits that read back as a given positive double, and of these the nearest
ones. The doubles nearest to `m · 2 ^ q` leave an interval of reals that are read as it; the search
tries grids of one, two, … significant digits until a grid point next to the value lies inside.
All tests are comparisons of natural numbers.
-/

/-- What to do when two digit strings are equally near. -/
inductive Tie where
  | up
  | toEven
  deriving DecidableEq, Repr

/-- The number `0.d₁d₂… · 10 ^ exponent`, by its digits. -/
structure Decimal where
  digits : List Nat
  exponent : Int
  deriving DecidableEq, Repr

namespace Decimal

/-- A positive real as a fraction together with the interval of reals that are read as it, all over
one denominator. -/
structure Target where
  value : Nat
  low : Nat
  high : Nat
  denominator : Nat
  /-- The ends belong to the interval. -/
  closed : Bool

/-- The interval around `m · 2 ^ q`: half the distance to each neighbour. The neighbour below a power
of two is nearer, except at the bottom of the range. -/
def Target.ofBinary (m : Nat) (q : Int) : Target :=
  let below := if m = twoPow 52 ∧ q ≠ -1074 then 1 else 2
  let scale := twoPow (q - 2).toNat
  { value := 4 * m * scale
    low := (4 * m - below) * scale
    high := (4 * m + 2) * scale
    denominator := twoPow (2 - q).toNat
    closed := m % 2 == 0 }

/-- The grid point `n / scaleDown · scaleUp` lies in the interval. -/
def Target.accepts (t : Target) (n scaleUp scaleDown : Nat) : Bool :=
  let point := n * scaleUp * t.denominator
  let low := t.low * scaleDown
  let high := t.high * scaleDown
  if t.closed then low ≤ point && point ≤ high else low < point && point < high

/-- The least `k ≥ start` with `value < 10 ^ k`, searched for at most `fuel` steps; negative powers
are moved to the other side of the comparison. -/
def Target.magnitude (t : Target) : Nat → Int → Int
  | 0, k => k
  | fuel + 1, k =>
    if t.value * tenPow (-k).toNat < t.denominator * tenPow k.toNat then k
    else t.magnitude fuel (k + 1)

/-- The grid point of `count` digits to take for the value, if one next to it is read back; `k` is
the power of ten just above the value. -/
def Target.pick (t : Target) (tie : Tie) (k : Int) (count : Nat) : Option Nat :=
  let unit := k - count
  let up := tenPow unit.toNat
  let down := tenPow (-unit).toNat
  let whole := t.value * down
  let one := t.denominator * up
  let n := whole / one
  let rest := whole % one
  -- An exact grid point needs no neighbour.
  if rest = 0 then some n
  else
    match t.accepts n up down, t.accepts (n + 1) up down with
    | true, false => some n
    | false, true => some (n + 1)
    | false, false => none
    | true, true =>
      if 2 * rest < one then some n
      else if one < 2 * rest then some (n + 1)
      else
        match tie with
        | .up => some (n + 1)
        | .toEven => if n % 2 = 0 then some n else some (n + 1)

/-- Tries grids of `count`, `count + 1`, … digits, `fuel` of them. -/
def Target.search (t : Target) (tie : Tie) (k : Int) : Nat → Nat → Nat × Nat
  | 0, count =>
    (t.value * tenPow (count - k).toNat / (t.denominator * tenPow (k - count).toNat), count)
  | fuel + 1, count =>
    match t.pick tie k count with
    | some n => (n, count)
    | none => t.search tie k fuel (count + 1)

/-- The decimal digits of a natural number, most significant first, with `fuel` at least their
number. -/
def digitsOf (fuel : Nat) (n : Nat) (done : List Nat) : List Nat :=
  match fuel with
  | 0 => done
  | fuel + 1 => if n = 0 then done else digitsOf fuel (n / 10) (n % 10 :: done)

/-- Drops the zeros at the end. -/
def dropZeros (digits : List Nat) : List Nat :=
  (digits.reverse.dropWhile (· == 0)).reverse

/-- The shortest digits of the positive number `m · 2 ^ q`. Seventeen digits always read back. -/
def shortest (tie : Tie) (m : Nat) (q : Int) : Decimal :=
  let t := Target.ofBinary m q
  let k := t.magnitude 700 (-330)
  let (n, count) := t.search tie k 17 1
  let digits := digitsOf 20 n []
  -- Rounding up may have carried into one more digit.
  { digits := dropZeros digits, exponent := k + digits.length - count }

end Decimal

/-! ## Formats -/

/-- The decisions of a decimal format. The exponent meant is that of the leading digit. -/
structure FloatStyle where
  /-- The least exponent written positionally. -/
  minPositional : Int
  /-- The greatest exponent written positionally. -/
  maxPositional : Int
  /-- What stands in front of a positive exponent. -/
  plus : String
  tie : Tie
  nan : String
  infinity : String
  negativeInfinity : String

namespace FloatStyle

/-- The text of decimal digits. -/
def digitText (digits : List Nat) : String :=
  String.ofList (digits.map Nat.digitChar)

/-- Digits with the point after the first `point` of them; zeros fill a gap on either side. -/
def positional (digits : List Nat) (point : Int) : String :=
  if point ≤ 0 then "0." ++ digitText (List.replicate (-point).toNat 0 ++ digits)
  else
    let n := point.toNat
    let whole := digits.take n ++ List.replicate (n - digits.length) 0
    let rest := digits.drop n
    digitText whole ++ "." ++ digitText (if rest.isEmpty then [0] else rest)

/-- One digit, the others behind the point, and the exponent, a positive one behind `plus`. -/
def scientific (plus : String) (digits : List Nat) (exponent : Int) : String :=
  let rest := digits.drop 1
  digitText (digits.take 1) ++ (if rest.isEmpty then "" else "." ++ digitText rest) ++ "e" ++
    (if 0 < exponent then plus else "") ++ toString exponent

/-- The decimal text of a float. -/
def render (style : FloatStyle) (x : Float) : String :=
  match Binary64.ofFloat x with
  | .nan => style.nan
  | .infinite negative => if negative then style.negativeInfinity else style.infinity
  | .finite negative m q =>
    let sign := if negative then "-" else ""
    if m = 0 then sign ++ "0.0"
    else
      let d := Decimal.shortest style.tie m q
      let leading := d.exponent - 1
      if style.minPositional ≤ leading ∧ leading ≤ style.maxPositional then
        sign ++ positional d.digits d.exponent
      else sign ++ scientific style.plus d.digits leading

/-- Floats in constants, listings and generated code: positional from `0.0001` to below `10 ^ 16`,
and a tie goes up. -/
def literal : FloatStyle :=
  ⟨-4, 15, "", .up, "NaN", "inf", "-inf"⟩

/-- Floats in JSON: positional from `0.00001` to below `10 ^ 16`, a positive exponent has its sign, a tie
goes to the even digit, and what is not a finite number is `null`. -/
def json : FloatStyle :=
  ⟨-5, 15, "+", .toEven, "null", "null", "null"⟩

end FloatStyle

end ProtoScript
