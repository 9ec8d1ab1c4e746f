import ProtoScript.Decimal.Format
import ProtoScript.Json.Basic

set_option autoImplicit false

/-!
# Writing JSON

`render` writes a value on one line without blanks, `pretty` over several lines with two blanks
for each level. Both leave characters beyond ASCII as they are.
-/

namespace ProtoScript.Json

/-- A control character by its number, in four hexadecimal digits. -/
def numberedEscape (c : Char) : String :=
  let digits := Nat.toDigits 16 c.toNat
  "\\u" ++ String.ofList (List.replicate (4 - digits.length) '0' ++ digits)

/-- One character of a string. -/
def escapeChar (c : Char) : String :=
  match c with
  | '"' => "\\\""
  | '\\' => "\\\\"
  | '\x08' => "\\b"
  | '\x0c' => "\\f"
  | '\n' => "\\n"
  | '\r' => "\\r"
  | '\t' => "\\t"
  | c => if c.toNat < 32 then numberedEscape c else c.toString

/-- A string in quotes. -/
def quote (s : String) : String :=
  s.foldl (fun out c => out ++ escapeChar c) "\"" ++ "\""

/-- The text of a value that holds no others. -/
def scalarText : Json → String
  | null => "null"
  | bool b => if b then "true" else "false"
  | int n => toString n
  | float x => FloatStyle.json.render x
  | str s => quote s
  | arr _ => "[]"
  | obj _ => "\x7b\x7d"

mutual

/-- The text of a value on one line. -/
def render : Json → String
  | arr items => "[" ++ renderItems items ++ "]"
  | obj entries => "\x7b" ++ renderEntries entries ++ "\x7d"
  | j => scalarText j

def renderItems : List Json → String
  | [] => ""
  | [j] => render j
  | j :: rest => render j ++ "," ++ renderItems rest

def renderEntries : List (String × Json) → String
  | [] => ""
  | [(key, j)] => quote key ++ ":" ++ render j
  | (key, j) :: rest => quote key ++ ":" ++ render j ++ "," ++ renderEntries rest

end

/-- A new line, with two blanks for each level. -/
def newLine (level : Nat) : String :=
  "\n" ++ String.ofList (List.replicate (2 * level) ' ')

mutual

/-- The text of a value over several lines; `level` is that of the line it starts on. -/
def prettyAt (level : Nat) : Json → String
  | arr [] => "[]"
  | arr (j :: rest) =>
    "[" ++ newLine (level + 1) ++ prettyAt (level + 1) j ++ prettyItems (level + 1) rest ++
      newLine level ++ "]"
  | obj [] => "\x7b\x7d"
  | obj ((key, j) :: rest) =>
    "\x7b" ++ newLine (level + 1) ++ quote key ++ ": " ++ prettyAt (level + 1) j ++
      prettyEntries (level + 1) rest ++ newLine level ++ "\x7d"
  | j => scalarText j

/-- The items behind the first. -/
def prettyItems (level : Nat) : List Json → String
  | [] => ""
  | j :: rest => "," ++ newLine level ++ prettyAt level j ++ prettyItems level rest

/-- The entries behind the first. -/
def prettyEntries (level : Nat) : List (String × Json) → String
  | [] => ""
  | (key, j) :: rest =>
    "," ++ newLine level ++ quote key ++ ": " ++ prettyAt level j ++ prettyEntries level rest

end

/-- The text of a value over several lines. -/
def pretty (j : Json) : String := prettyAt 0 j

end ProtoScript.Json
