import ProtoScript.Constant.Basic

set_option autoImplicit false

/-!
# Text of C

Generated C is put together line by line. Braces are written here only.
-/

namespace ProtoScript.C

/-! ## Lines -/

/-- Lines of text without their ends. -/
abbrev Lines := List String

/-- The text of some lines, each of them ended. -/
def Lines.text (lines : Lines) : String := String.join (lines.map (· ++ "\n"))

/-- A line one level deeper. -/
def indent (line : String) : String := "    " ++ line

/-- A text between braces on one line. -/
def braces (text : String) : String := "\x7b " ++ text ++ " \x7d"

/-- A head with a body of deeper lines between braces. -/
def block (head : String) (body : Lines) : Lines :=
  (head ++ " \x7b") :: body.map indent ++ ["\x7d"]

/-- A block whose closing brace is followed by more text. -/
def blockThen (head : String) (body : Lines) (behind : String) : Lines :=
  (head ++ " \x7b") :: body.map indent ++ ["\x7d" ++ behind]

/-- Choices one after another, each with its body: `if`, `else if`, `else`. -/
def choices (first : String) (body : Lines) (others : List (String × Lines)) : Lines :=
  (first ++ " \x7b") :: body.map indent ++
    others.flatMap (fun (head, body) => ("\x7d " ++ head ++ " \x7b") :: body.map indent) ++ ["\x7d"]

/-- Texts with commas between them. -/
def commas (texts : List String) : String := ", ".intercalate texts

/-- Parameters of a C function; none are written as `void`. -/
def paramList (params : List String) : String :=
  if params.isEmpty then "void" else commas params

/-- A call of a C function. -/
def call (name : String) (args : List String) : String := name ++ "(" ++ commas args ++ ")"

/-!
## Constants in C

A string literal holds printable ASCII only. Quotes, backslashes and question marks, which could
start a trigraph, stand behind a backslash; every other byte is written with three octal digits, so
that a digit behind it is not taken for part of it.
-/

/-- An octal digit. -/
def octalDigit (n : Nat) : Char := Char.ofNat ('0'.toNat + n % 8)

/-- A byte inside a string literal. -/
def escapeByte (b : UInt8) : List Char :=
  if b = 0x22 then ['\\', '"']
  else if b = 0x5C then ['\\', '\\']
  else if b = 0x3F then ['\\', '?']
  else if b = 0x0A then ['\\', 'n']
  else if b = 0x09 then ['\\', 't']
  else if 0x20 ≤ b ∧ b ≤ 0x7E then [Char.ofNat b.toNat]
  else
    let n := b.toNat
    ['\\', octalDigit (n / 64), octalDigit (n / 8), octalDigit n]

/-- A text as a string literal. -/
def stringLiteral (s : String) : String :=
  String.ofList ('"' :: s.toUTF8.toList.flatMap escapeByte ++ ['"'])

/-- A constant as a C expression. -/
def constant : Constant → String
  | .bool b => if b then "true" else "false"
  | .byte v => "((uint8_t)" ++ toString v.toNat ++ ")"
  | .int v =>
    if v = Int64.minValue then "INT64_MIN" else "INT64_C(" ++ toString v.toInt ++ ")"
  | .float v =>
    if v.isNaN then "NAN"
    else if v.isInf then (if v > 0 then "INFINITY" else "(-INFINITY)")
    else FloatStyle.literal.render v
  | .glyph c => "UINT32_C(" ++ toString c.toNat ++ ")"
  | .str s => stringLiteral s

end ProtoScript.C
