import ProtoScript.Decimal.Format
import ProtoScript.Text.Quoted
import ProtoScript.Ty.Basic

set_option autoImplicit false

/-!
# Constants

The values known while compiling: one for each scalar type. Integers are machine words, so a
constant always fits its type.
-/

namespace ProtoScript

/-- A value of a scalar type. -/
inductive Constant where
  | bool (value : Bool)
  | byte (value : UInt8)
  | int (value : Int64)
  | float (value : Float)
  | glyph (value : Char)
  | str (value : String)
  deriving Repr, Inhabited

namespace Constant

/-- Equality of constants; floats are compared as numbers, so not-a-number differs from itself and
the two zeros agree. -/
def same : Constant → Constant → Bool
  | bool a, bool b => a == b
  | byte a, byte b => a == b
  | int a, int b => a == b
  | float a, float b => a == b
  | glyph a, glyph b => a == b
  | str a, str b => a == b
  | _, _ => false

instance : BEq Constant := ⟨same⟩

/-- The type of a constant. -/
def ty : Constant → Ty
  | bool _ => .bool
  | byte _ => .byte
  | int _ => .int
  | float _ => .float
  | glyph _ => .glyph
  | str _ => .string

/-- The truth value of a `bool` constant. -/
def toBool? : Constant → Option Bool
  | bool b => some b
  | _ => none

/-- The number of an `int` or `byte` constant. -/
def toInt? : Constant → Option Int
  | int v => some v.toInt
  | byte v => some v.toNat
  | _ => none

/-- The number of an `int`, `byte` or `float` constant as a float, rounded if it has to be. -/
def toFloat? : Constant → Option Float
  | int v => some v.toFloat
  | byte v => some v.toFloat
  | float v => some v
  | _ => none

/-- The value a field of scalar type starts with. -/
def zero? : Ty → Option Constant
  | .prim .bool => some (bool false)
  | .prim .byte => some (byte 0)
  | .prim .int => some (int 0)
  | .prim .float => some (float 0.0)
  | .prim .glyph => some (glyph '\x00')
  | .prim .string => some (str "")
  | _ => none

/-- The text of a constant in listings: a byte carries the letter `b`, text is quoted. -/
def render : Constant → String
  | bool b => if b then "true" else "false"
  | byte v => toString v.toNat ++ "b"
  | int v => toString v.toInt
  | float v => FloatStyle.literal.render v
  | glyph c => Quoted.glyph c
  | str s => Quoted.string s

instance : ToString Constant := ⟨render⟩

end Constant

end ProtoScript
