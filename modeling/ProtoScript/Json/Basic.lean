set_option autoImplicit false

/-!
# JSON values

The value trees in which modules, libraries and reports are exchanged. A number is a whole number or a
float. An object keeps its entries in order, and of two entries with one key the later counts.
-/

namespace ProtoScript

/-- A JSON value. -/
inductive Json where
  | null
  | bool (value : Bool)
  | int (value : Int)
  | float (value : Float)
  | str (value : String)
  | arr (items : List Json)
  | obj (entries : List (String × Json))
  deriving Inhabited

namespace Json

/-- The last value under a key. -/
def lastUnder? (key : String) : List (String × Json) → Option Json
  | [] => none
  | (k, v) :: rest =>
    match lastUnder? key rest with
    | some found => some found
    | none => if k = key then some v else none

/-- The value under a key, if the value is an object that has the key. -/
def get? (j : Json) (key : String) : Option Json :=
  match j with
  | obj entries => lastUnder? key entries
  | _ => none

def str? : Json → Option String
  | str s => some s
  | _ => none

def arr? : Json → Option (List Json)
  | arr items => some items
  | _ => none

def bool? : Json → Option Bool
  | bool b => some b
  | _ => none

def int? : Json → Option Int
  | int n => some n
  | _ => none

/-- A natural number below `bound`. -/
def natBelow? (bound : Nat) (j : Json) : Option Nat := do
  let n ← j.int?
  if 0 ≤ n ∧ n < bound then some n.toNat else none

/-- An optional value; nothing is `null`. -/
def ofOption {α : Type} (f : α → Json) : Option α → Json
  | none => null
  | some a => f a

def ofNat (n : Nat) : Json := int n

/-- A list of texts. -/
def ofTexts (texts : List String) : Json := arr (texts.map str)

end Json

end ProtoScript
