import ProtoScript.Diagnostic.Basic
import ProtoScript.Text.Unicode

set_option autoImplicit false

/-!
# Diagnostics on a terminal

`Diagnostic.display` shows a diagnostic with the lines it is about: a header, the place, the lines
with the marked part underlined, and the notes. If the marked part lies on one line, carets stand
under it; otherwise a bracket in the margin runs from its first line to its last, and of the lines
between only the first three and the last are shown.
-/

namespace ProtoScript

/-! ## Lines -/

/-- A line of a source text without its end. -/
structure SourceLine where
  number : Nat
  /-- The offset of the first byte. -/
  start : Nat
  text : List Char
  deriving Repr

namespace SourceLine

/-- The text without the line ends and null characters at its end. -/
def trimEnd (cs : List Char) : List Char :=
  (cs.reverse.dropWhile fun c => c == '\r' || c == '\x00').reverse

/-- The lines of a text that starts with the given line number and byte offset; `line` holds the line
being read, last character first. -/
def split (number start size : Nat) (line : List Char) : List Char → List SourceLine
  | [] => [⟨number, start, trimEnd line.reverse⟩]
  | c :: cs =>
    if c = '\n' then
      ⟨number, start, trimEnd line.reverse⟩ :: split (number + 1) (start + size + 1) 0 [] cs
    else split number start (size + c.utf8Size) (c :: line) cs

/-- A character of a line: its offset in the line and the number of columns it takes. -/
structure Cell where
  byte : Nat
  width : Nat
  char : Char

/-- The distance between tab stops. -/
def tabWidth : Nat := 4

/-- The cells of a text that starts at the given column and offset; a tab reaches to the next stop. -/
def cellsFrom (column byte : Nat) : List Char → List Cell
  | [] => []
  | c :: cs =>
    let width := if c = '\t' then tabWidth - column % tabWidth else charWidth c
    ⟨byte, width, c⟩ :: cellsFrom (column + width) (byte + c.utf8Size) cs

/-- The cells of a line. -/
def cells (l : SourceLine) : List Cell := cellsFrom 0 0 l.text

/-- The number of bytes of some characters. -/
def byteCount (cs : List Char) : Nat := cs.foldl (fun n c => n + c.utf8Size) 0

/-- The line as it is shown: a tab is as many blanks. -/
def shown (l : SourceLine) : String :=
  String.join (l.cells.map fun c => if c.char = '\t' then "".pushn ' ' c.width else c.char.toString)

/-- The number of columns of the characters that start before an offset. -/
def widthBefore (l : SourceLine) (byte : Nat) : Nat :=
  (l.cells.takeWhile fun c => c.byte < byte).foldl (fun n c => n + c.width) 0

/-- Nothing but blanks stands before an offset. -/
def startsText (l : SourceLine) (byte : Nat) : Bool := byte ≤ byteCount (l.text.takeWhile isBlank)

/-- Carets under the part between two offsets and blanks up to it. Behind the last character there is
room for one caret more. -/
def underline (l : SourceLine) (start stop : Nat) : String :=
  let room : Cell := ⟨byteCount l.text, 1, '\x00'⟩
  String.join ((l.cells ++ [room]).map fun c =>
    if max start c.byte < min stop (c.byte + c.char.utf8Size) then "".pushn '^' c.width
    else if c.byte < stop then "".pushn ' ' c.width
    else "")

end SourceLine

/-- The lines of a text. -/
def SourceFile.lines (f : SourceFile) : List SourceLine := SourceLine.split 1 0 0 [] f.text.toList

/-- The line on which a byte offset lies. -/
def SourceFile.lineAt (f : SourceFile) (byte : Nat) : SourceLine :=
  ((f.lines.takeWhile fun l => l.start ≤ byte).getLast?).getD ⟨1, 0, []⟩

/-! ## The margin -/

/-- What the bracket of a part over several lines does at a line. -/
inductive Bracket where
  /-- The line is no part of it. -/
  | outside
  /-- It starts at an offset. -/
  | opens (start : Nat)
  | continues
  /-- It ends at an offset. -/
  | closes (stop : Nat)
  deriving DecidableEq, Repr

/-- A line to be shown. -/
structure ShownLine where
  line : SourceLine
  bracket : Bracket

/-- The margin at a line; a bracket that starts in front of the text starts here. -/
def ShownLine.margin (s : ShownLine) : String :=
  match s.bracket with
  | .outside => "  "
  | .opens start => if s.line.startsText start then " ╭" else "  "
  | .continues | .closes _ => " │"

/-- The end of the bracket under a line, with the message where it closes. -/
def ShownLine.corner? (s : ShownLine) (message : String) : Option String :=
  match s.bracket with
  | .opens start =>
    if s.line.startsText start then none
    else some (" ╭" ++ "".pushn '─' (s.line.widthBefore (start + 1)) ++ "^")
  | .closes stop =>
    some (" ╰" ++ "".pushn '─' (s.line.widthBefore stop) ++ "^ " ++ message)
  | .outside | .continues => none

/-- How many lines are shown behind the first line of the bracket. -/
def contextBehindStart : Nat := 3

/-- How many lines are shown before the last line of the bracket. -/
def contextBeforeEnd : Nat := 1

namespace Diagnostic

/-- The lines of a text with the bracket of the part from `first` to `last`. -/
def bracketed (d : Diagnostic) (first last : SourceLine) (lines : List SourceLine) :
    List ShownLine :=
  lines.map fun l =>
    let bracket : Bracket :=
      if l.number = first.number then .opens (d.span.start - first.start)
      else if l.number = last.number then .closes (d.span.stop - last.start)
      else if first.number < l.number ∧ l.number < last.number then .continues
      else .outside
    ⟨l, bracket⟩

/-- The line is shown in any case: it is the first or the last, or close to one of them. -/
def isNear (first last : SourceLine) (s : ShownLine) : Bool :=
  match s.bracket with
  | .opens _ | .closes _ => true
  | .outside => false
  | .continues =>
    s.line.number - first.number ≤ contextBehindStart || last.number - s.line.number ≤ contextBeforeEnd

/-- The rows of lines, of which those that `keep` holds for are shown; `skipped` are the lines left out
since the last one shown. A single line left out between two others is shown too, and `gap` stands
for several. -/
def rows (row : ShownLine → List String) (gap : String) (keep : ShownLine → Bool) :
    (skipped : List ShownLine) → List ShownLine → List String
  | _, [] => []
  | skipped, s :: rest =>
    if keep s then
      let between :=
        match skipped with
        | [] => []
        | [one] => row one
        | _ => [gap]
      between ++ row s ++ rows row gap keep [] rest
    else rows row gap keep (skipped ++ [s]) rest

/-- The rows that show the marked part. -/
def snippet (d : Diagnostic) (file : SourceFile) (pad : Nat) : List String :=
  let first := file.lineAt d.span.start
  let last := file.lineAt d.span.stop
  let gutter := "".pushn ' ' pad ++ " "
  let numbered (l : SourceLine) : String :=
    let number := toString l.number
    "".pushn ' ' (pad - number.length) ++ number ++ " │"
  if first.number = last.number then
    let start := d.span.start - first.start
    let stop := max (d.span.stop - first.start) (start + 1)
    [gutter ++ "│", numbered first ++ " " ++ first.shown,
      gutter ++ "│ " ++ first.underline start stop ++ " " ++ d.label, gutter ++ "│"]
  else
    let lines := (d.bracketed first last file.lines).dropWhile fun s => s.bracket = .outside
    let row (s : ShownLine) : List String :=
      (numbered s.line ++ s.margin ++ " " ++ s.line.shown) ::
        ((s.corner? d.label).map fun corner => gutter ++ "│" ++ corner).toList
    [gutter ++ "│  "] ++ rows row (gutter ++ "· │") (isNear first last) [] lines ++ [gutter ++ "│  "]

/-- The lines of a note, without their ends. -/
def noteLines (note : String) : List String :=
  let lines := note.splitOn "\n"
  let lines := if lines.getLast? = some "" then lines.dropLast else lines
  lines.map fun l => if l.endsWith "\r" then String.ofList l.toList.dropLast else l

/-- The rows of a note. -/
def noteRows (gutter note : String) : List String :=
  (noteLines note).zipIdx.map fun (l, i) => gutter ++ (if i = 0 then "= " else "  ") ++ l

/-- The form for a terminal. -/
def display (d : Diagnostic) (file : SourceFile) : String :=
  let place := file.locate d.span.start
  let last := file.lineAt d.span.stop
  let pad := max (toString place.line).length (toString last.number).length
  let gutter := "".pushn ' ' pad ++ " "
  let code := if d.code.code.isEmpty then "" else "[" ++ d.code.code ++ "]"
  let notes := (d.code.name ++ " (" ++ d.category.text ++ ")") ::
    (d.hint?.map ("help: " ++ ·)).toList
  let header := ["error" ++ code ++ ": " ++ d.message,
    gutter ++ "┌─ " ++ file.name ++ ":" ++ toString place.line ++ ":" ++ toString place.column]
  String.join ((header ++ d.snippet file pad ++ notes.flatMap (noteRows gutter) ++ [""]).map
    (· ++ "\n"))

end Diagnostic

end ProtoScript
