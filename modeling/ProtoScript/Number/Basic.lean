set_option autoImplicit false

/-!
# Powers and sums

The few functions on natural numbers that several modules share.
-/

namespace ProtoScript

/-- A power of two. -/
def twoPow (n : Nat) : Nat := Nat.pow 2 n

/-- A power of ten. -/
def tenPow (n : Nat) : Nat := Nat.pow 10 n

/-- The sum of some numbers. -/
def total : List Nat → Nat
  | [] => 0
  | n :: rest => n + total rest

end ProtoScript
