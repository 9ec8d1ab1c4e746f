import ProtoScript.Constant.Basic
import ProtoScript.Source.Operator

set_option autoImplicit false

/-!
# Arithmetic on constants

`binary?`, `unary?` and `cast?` compute an operation while compiling. They answer only when
running the operation would succeed with that very value: an overflow, a division by zero, a shift
out of range or a float that is not finite has no constant result, and neither has an operation on operands of
different types.
-/

namespace ProtoScript.Constant

/-! ## Numbers that fit -/

/-- A whole number as an `int`, if it is in range. -/
def fitInt? (n : Int) : Option Int64 :=
  if Int64.minValue.toInt ≤ n ∧ n ≤ Int64.maxValue.toInt then some (Int64.ofInt n) else none

/-- A whole number as a `byte`, if it is in range. -/
def fitByte? (n : Int) : Option UInt8 :=
  if 0 ≤ n ∧ n < UInt8.size then some (UInt8.ofNat n.toNat) else none

/-- A float result, if it is finite. -/
def finite? (x : Float) : Option Constant :=
  if x.isFinite then some (float x) else none

/-! ## Comparison -/

/-- What a comparison says of two operands in the given order; other operators say nothing. -/
def compared? (op : BinaryOp) (order : Ordering) : Option Constant :=
  match op with
  | .equal => some (bool (order == .eq))
  | .notEqual => some (bool (order != .eq))
  | .less => some (bool (order == .lt))
  | .lessEqual => some (bool (order != .gt))
  | .greater => some (bool (order == .gt))
  | .greaterEqual => some (bool (order != .lt))
  | _ => none

/-- The order of two floats; there is none with not-a-number. -/
def floatOrder? (a b : Float) : Option Ordering :=
  if a < b then some .lt
  else if a == b then some .eq
  else if b < a then some .gt
  else none

/-! ## Operators -/

def intBinary? (op : BinaryOp) (a b : Int64) : Option Constant :=
  match op with
  | .add => (fitInt? (a.toInt + b.toInt)).map int
  | .sub => (fitInt? (a.toInt - b.toInt)).map int
  | .mul => (fitInt? (a.toInt * b.toInt)).map int
  | .div => if b = 0 then none else (fitInt? (a.toInt.tdiv b.toInt)).map int
  | .mod =>
    -- The remainder exists only where the quotient does.
    if b = 0 then none
    else (fitInt? (a.toInt.tdiv b.toInt)).map fun _ => int (Int64.ofInt (a.toInt.tmod b.toInt))
  | .bitAnd => some (int (a &&& b))
  | .bitOr => some (int (a ||| b))
  | .bitXor => some (int (a ^^^ b))
  | .shiftLeft => if 0 ≤ b.toInt ∧ b.toInt < 64 then some (int (a <<< b)) else none
  | .shiftRight => if 0 ≤ b.toInt ∧ b.toInt < 64 then some (int (a >>> b)) else none
  | _ => compared? op (compare a.toInt b.toInt)

def byteBinary? (op : BinaryOp) (a b : UInt8) : Option Constant :=
  match op with
  | .add => (fitByte? ((a.toNat : Int) + b.toNat)).map byte
  | .sub => (fitByte? ((a.toNat : Int) - b.toNat)).map byte
  | .mul => (fitByte? ((a.toNat : Int) * b.toNat)).map byte
  | .div => if b = 0 then none else some (byte (a / b))
  | .mod => if b = 0 then none else some (byte (a % b))
  | .bitAnd => some (byte (a &&& b))
  | .bitOr => some (byte (a ||| b))
  | .bitXor => some (byte (a ^^^ b))
  | .shiftLeft => if b < 8 then some (byte (a <<< b)) else none
  | .shiftRight => if b < 8 then some (byte (a >>> b)) else none
  | _ => compared? op (compare a.toNat b.toNat)

def floatBinary? (op : BinaryOp) (a b : Float) : Option Constant :=
  match op with
  | .add => finite? (a + b)
  | .sub => finite? (a - b)
  | .mul => finite? (a * b)
  | .div => finite? (a / b)
  | .mod => finite? (floatRemainder a b)
  | _ => (floatOrder? a b).bind (compared? op)

def boolBinary? (op : BinaryOp) (a b : Bool) : Option Constant :=
  match op with
  | .and => some (bool (a && b))
  | .or => some (bool (a || b))
  | .equal => some (bool (a == b))
  | .notEqual => some (bool (a != b))
  | _ => none

def strBinary? (op : BinaryOp) (a b : String) : Option Constant :=
  match op with
  | .add => some (str (a ++ b))
  | _ => compared? op (compare a b)

/-- The value of a binary operation on constants. -/
def binary? (op : BinaryOp) : Constant → Constant → Option Constant
  | int a, int b => intBinary? op a b
  | byte a, byte b => byteBinary? op a b
  | float a, float b => floatBinary? op a b
  | str a, str b => strBinary? op a b
  | glyph a, glyph b => compared? op (compare a.toNat b.toNat)
  | bool a, bool b => boolBinary? op a b
  | _, _ => none

/-- The value of a unary operation on a constant; the only byte that can be negated is zero. -/
def unary? (op : UnaryOp) (operand : Constant) : Option Constant :=
  match op, operand with
  | .neg, int a => (fitInt? (-a.toInt)).map int
  | .neg, byte a => (fitByte? (-(a.toNat : Int))).map byte
  | .neg, float a => some (float (-a))
  | .not, bool b => some (bool !b)
  | .bitNot, int a => some (int (~~~a))
  | .bitNot, byte a => some (byte (~~~a))
  | _, _ => none

/-- A numeric constant as another numeric type. To an integer type only a whole number in range
goes; to `float` every integer goes, rounded if it has to be. -/
def cast? (value : Constant) (target : Ty) : Option Constant :=
  match value, target with
  | byte v, .prim .byte => some (byte v)
  | byte v, .prim .int => (fitInt? v.toNat).map int
  | byte v, .prim .float => some (float v.toFloat)
  | int v, .prim .byte => (fitByte? v.toInt).map byte
  | int v, .prim .int => some (int v)
  | int v, .prim .float => some (float v.toFloat)
  | float v, .prim .byte => ((Binary64.ofFloat v).toInt?.bind fitByte?).map byte
  | float v, .prim .int => ((Binary64.ofFloat v).toInt?.bind fitInt?).map int
  | float v, .prim .float => some (float v)
  | _, _ => none

end ProtoScript.Constant
