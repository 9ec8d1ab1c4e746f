set_option autoImplicit false

/-!
# Source locations

A span is where a part of a program stands: the line and column of its first character, counted
from one, and its range of bytes, which is empty if only the line and column are known.
-/

namespace ProtoScript

/-- A place in the source text. -/
structure Span where
  line : Nat
  column : Nat
  /-- The offset of the first byte. -/
  start : Nat
  /-- The offset behind the last byte. -/
  stop : Nat
  deriving DecidableEq, Repr, Inhabited

namespace Span

/-- A place of which only the line and column are known. -/
def point (line column : Nat) : Span := ⟨line, column, 0, 0⟩

/-- The place of what has none: the first character of the text. -/
def origin : Span := point 1 1

/-- The number of bytes spanned. -/
def length (s : Span) : Nat := s.stop - s.start

/-- The span holds no bytes. -/
def isEmpty (s : Span) : Bool := s.start == s.stop

end Span

end ProtoScript
