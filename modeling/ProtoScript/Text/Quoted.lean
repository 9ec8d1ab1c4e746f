import ProtoScript.Text.Unicode

set_option autoImplicit false

/-!
# Quoted text

Strings between double quotes and glyphs between single quotes, as listings and constants show
them. The five common control characters and the backslash have escapes of their own, a quote is
escaped only inside its own kind, and a character that would not print is given by its number.
-/

namespace ProtoScript.Quoted

/-- The number of a character in lower-case hexadecimal digits. -/
def hex (c : Char) : String :=
  String.ofList (Nat.toDigits 16 c.toNat)

/-- One character of a text that stands between two `quote` characters. -/
def escape (quote : Char) (c : Char) : String :=
  if c = '\x00' then "\\0"
  else if c = '\t' then "\\t"
  else if c = '\r' then "\\r"
  else if c = '\n' then "\\n"
  else if c = '\\' ∨ c = quote then String.ofList ['\\', c]
  else if isHidden c then "\\u\x7b" ++ hex c ++ "\x7d"
  else c.toString

/-- A string between double quotes. -/
def string (s : String) : String :=
  "\"" ++ String.join (s.toList.map (escape '"')) ++ "\""

/-- A glyph between single quotes. -/
def glyph (c : Char) : String :=
  "'" ++ escape '\'' c ++ "'"

end ProtoScript.Quoted
