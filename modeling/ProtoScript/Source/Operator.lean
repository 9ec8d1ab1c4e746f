set_option autoImplicit false

/-!
# Operators

The operators of expressions, with the word by which each is listed and the symbol by which it is written.
-/

namespace ProtoScript

/-- The binary operators. -/
inductive BinaryOp where
  | add
  | sub
  | mul
  | div
  | mod
  | equal
  | notEqual
  | less
  | lessEqual
  | greater
  | greaterEqual
  | and
  | or
  | bitAnd
  | bitOr
  | bitXor
  | shiftLeft
  | shiftRight
  deriving DecidableEq, Repr, Inhabited

namespace BinaryOp

/-- Every binary operator once. -/
def all : List BinaryOp :=
  [add, sub, mul, div, mod, equal, notEqual, less, lessEqual, greater, greaterEqual, and, or,
    bitAnd, bitOr, bitXor, shiftLeft, shiftRight]

/-- The word for an operator. -/
def word : BinaryOp → String
  | add => "add"
  | sub => "sub"
  | mul => "mul"
  | div => "div"
  | mod => "mod"
  | equal => "equal"
  | notEqual => "not_equal"
  | less => "less"
  | lessEqual => "less_equal"
  | greater => "greater"
  | greaterEqual => "greater_equal"
  | and => "and"
  | or => "or"
  | bitAnd => "bit_and"
  | bitOr => "bit_or"
  | bitXor => "bit_xor"
  | shiftLeft => "shift_left"
  | shiftRight => "shift_right"

/-- The operator with the given word. -/
def ofWord? (text : String) : Option BinaryOp :=
  all.find? fun op => op.word == text

/-- The symbol of an operator; source text and generated C agree on it. -/
def symbol : BinaryOp → String
  | add => "+"
  | sub => "-"
  | mul => "*"
  | div => "/"
  | mod => "%"
  | equal => "=="
  | notEqual => "!="
  | less => "<"
  | lessEqual => "<="
  | greater => ">"
  | greaterEqual => ">="
  | and => "&&"
  | or => "||"
  | bitAnd => "&"
  | bitOr => "|"
  | bitXor => "^"
  | shiftLeft => "<<"
  | shiftRight => ">>"

def isArithmetic : BinaryOp → Bool
  | add | sub | mul | div | mod => true
  | _ => false

/-- One of the six comparisons, equality included. -/
def isComparison : BinaryOp → Bool
  | equal | notEqual | less | lessEqual | greater | greaterEqual => true
  | _ => false

def isEquality : BinaryOp → Bool
  | equal | notEqual => true
  | _ => false

def isLogical : BinaryOp → Bool
  | and | or => true
  | _ => false

/-- An operator on the bits of integers, shifts included. -/
def isBitwise : BinaryOp → Bool
  | bitAnd | bitOr | bitXor | shiftLeft | shiftRight => true
  | _ => false

def isShift : BinaryOp → Bool
  | shiftLeft | shiftRight => true
  | _ => false

end BinaryOp

/-- The unary operators. -/
inductive UnaryOp where
  | neg
  | not
  | bitNot
  deriving DecidableEq, Repr, Inhabited

namespace UnaryOp

/-- Every unary operator once. -/
def all : List UnaryOp := [neg, not, bitNot]

/-- The word for an operator. -/
def word : UnaryOp → String
  | neg => "neg"
  | not => "not"
  | bitNot => "bit_not"

/-- The operator with the given word. -/
def ofWord? (text : String) : Option UnaryOp :=
  all.find? fun op => op.word == text

/-- The symbol of an operator. -/
def symbol : UnaryOp → String
  | neg => "-"
  | not => "!"
  | bitNot => "~"

end UnaryOp

end ProtoScript
