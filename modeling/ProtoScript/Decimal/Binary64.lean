import ProtoScript.Number.Basic

set_option autoImplicit false

/-!
# The exact value of a float

A finite double is `± m · 2 ^ q` for natural `m` and integer `q`. Everything the compiler does
with floats beyond the four basic operations (remainders, exact conversion to integers, decimal
text) is computed on `m` and `q`, in exact arithmetic.
-/

namespace ProtoScript

/-- A double taken apart. -/
inductive Binary64 where
  | nan
  | infinite (negative : Bool)
  /-- The number `m · 2 ^ q`, negated if `negative`; zero has a sign too. -/
  | finite (negative : Bool) (m : Nat) (q : Int)
  deriving DecidableEq, Repr

namespace Binary64

/-- The value of a bit pattern: one sign bit, eleven exponent bits, fifty-two fraction bits. -/
def ofBits (bits : Nat) : Binary64 :=
  let negative := bits / twoPow 63 % 2 == 1
  let exponent : Nat := bits / twoPow 52 % twoPow 11
  let fraction : Nat := bits % twoPow 52
  if exponent = 2047 then
    if fraction = 0 then infinite negative else nan
  else if exponent = 0 then finite negative fraction (-1074)
  else finite negative (twoPow 52 + fraction) (Int.ofNat exponent - 1075)

/-- Takes a float apart. -/
def ofFloat (x : Float) : Binary64 := ofBits x.toBits.toNat

/-- The whole number that a finite float equals, if there is one. -/
def toInt? : Binary64 → Option Int
  | nan | infinite _ => none
  | finite negative m q =>
    let sign : Int := if negative then -1 else 1
    if 0 ≤ q then some (sign * (m * twoPow q.toNat : Nat))
    else if m % twoPow (-q).toNat = 0 then some (sign * (m / twoPow (-q).toNat : Nat))
    else none

end Binary64

/-- The remainder of `x` by `y` with the sign of `x`: both are written over the same power of two
and divided as whole numbers, so nothing is rounded. It is not a number if `x` is not finite, if
`y` is zero, or if either is not a number; by an infinite `y` it is `x`. -/
def floatRemainder (x y : Float) : Float :=
  match Binary64.ofFloat x, Binary64.ofFloat y with
  | .finite _ _ _, .infinite _ => x
  | .finite negative m p, .finite _ n q =>
    if n = 0 then 0.0 / 0.0
    else
      let low := min p q
      let r := (m * twoPow (p - low).toNat) % (n * twoPow (q - low).toNat)
      let magnitude := Float.scaleB (Float.ofNat r) low
      if negative then -magnitude else magnitude
  | _, _ => 0.0 / 0.0

end ProtoScript
