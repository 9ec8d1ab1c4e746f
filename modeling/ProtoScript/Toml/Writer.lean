import ProtoScript.Text.Quoted

set_option autoImplicit false

/-!
# Writing TOML strings

A string has four forms: between double quotes with escapes or between single quotes as it stands, and
each of them on one line or, between three quotes, over several lines. `Form.of` takes the first form
in which the string needs no escapes, and the one with escapes if there is none.
-/

namespace ProtoScript.Toml

/-- The forms of written strings. -/
inductive Form where
  | basic
  | literal
  | longBasic
  | longLiteral
  deriving DecidableEq, Repr

namespace Form

/-- What stands on both sides of a string. -/
def quotes : Form → String
  | basic => "\""
  | literal => "'"
  | longBasic => "\"\"\""
  | longLiteral => "'''"

/-- The form may hold line feeds. -/
def isLong : Form → Bool
  | longBasic | longLiteral => true
  | _ => false

/-- The form has escapes. -/
def hasEscapes : Form → Bool
  | basic | longBasic => true
  | _ => false

/-- The length of the longest run of a character; `run` is that of the run before. -/
def longestRun (quote : Char) (run : Nat) : List Char → Nat
  | [] => run
  | c :: cs => if c = quote then longestRun quote (run + 1) cs else max run (longestRun quote 0 cs)

/-- A control character other than the tab and the line feed; it can only be written by its number. -/
def isControl (c : Char) : Bool := (c.toNat < 32 && c != '\t' && c != '\n') || c.toNat == 127

/-- The form of a string. -/
def of (cs : List Char) : Form :=
  let several := cs.contains '\n'
  let single := longestRun '\'' 0 cs
  let double := longestRun '"' 0 cs
  if cs.any isControl then if several then longBasic else basic
  else if !cs.contains '\\' && double = 0 && !several then basic
  else if single = 0 && !several then literal
  else if !cs.contains '\\' && double ≤ 2 then longBasic
  else if single ≤ 2 then longLiteral
  else if several then longBasic
  else basic

end Form

/-- Four digits for the number of a control character. -/
def hex4 (c : Char) : String :=
  let digits := (Quoted.hex c).toUpper
  "".pushn '0' (4 - digits.length) ++ digits

/-- A character other than a double quote in a string with escapes; `long` says that it may have
several lines. -/
def escape (long : Bool) (c : Char) : String :=
  if c = '\x08' then "\\b"
  else if c = '\t' then "\\t"
  else if c = '\n' then if long then "\n" else "\\n"
  else if c = '\x0c' then "\\f"
  else if c = '\r' then "\\r"
  else if c = '\\' then "\\\\"
  else if c.toNat < 32 ∨ c.toNat = 127 then "\\u" ++ hex4 c
  else c.toString

/-- A string with escapes behind `run` double quotes. Of the double quotes in a row, two stand as they
are in a string that may have several lines, and none otherwise. -/
def escaped (long : Bool) (run : Nat) : List Char → String
  | [] => ""
  | c :: cs =>
    if c = '"' then
      if long && run < 2 then "\"" ++ escaped long (run + 1) cs else "\\\"" ++ escaped long 0 cs
    else escape long c ++ escaped long 0 cs

/-- A string as it is written. One with line feeds starts on a line of its own. -/
def string (s : String) : String :=
  let cs := s.toList
  let form := Form.of cs
  let start := if form.isLong && cs.contains '\n' then "\n" else ""
  let body := if form.hasEscapes then escaped form.isLong 0 cs else s
  form.quotes ++ start ++ body ++ form.quotes

def bool (b : Bool) : String := if b then "true" else "false"

end ProtoScript.Toml
