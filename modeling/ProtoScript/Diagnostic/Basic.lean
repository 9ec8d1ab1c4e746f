import ProtoScript.Diagnostic.Code
import ProtoScript.Json.Basic
import ProtoScript.Source.Span

set_option autoImplicit false

/-!
# Diagnostics

A diagnostic is one problem found in a program: where it is, its code, a message, and at most two
names that may have been meant.
-/

namespace ProtoScript

/-- A problem found in a program. -/
structure Diagnostic where
  file : String
  span : Span
  code : Code
  message : String
  suggestions : List String := []
  deriving DecidableEq, Repr

namespace Diagnostic

def category (d : Diagnostic) : Category := d.code.category

/-- The diagnostic with the first two of some suggestions. -/
def withSuggestions (d : Diagnostic) (names : List String) : Diagnostic :=
  { d with suggestions := names.take 2 }

/-- What the suggestions say. -/
def hint? (d : Diagnostic) : Option String :=
  match d.suggestions with
  | [one] => some ("Did you mean '" ++ one ++ "'?")
  | [a, b] => some ("Did you mean '" ++ a ++ "' or '" ++ b ++ "'?")
  | _ => none

/-- A diagnostic on one line. -/
def render (d : Diagnostic) : String :=
  d.file ++ ":" ++ toString d.span.line ++ ":" ++ toString d.span.column ++ ": " ++ d.code.render ++
    ": " ++ d.message ++ (d.hint?.map (" " ++ ·)).getD ""

/-- A diagnostic for other programs. -/
def toJson (d : Diagnostic) : Json :=
  .obj [("file", .str d.file), ("line", .ofNat d.span.line), ("col", .ofNat d.span.column),
    ("code", .obj [("code", .str d.code.code), ("name", .str d.code.name)]),
    ("category", .str d.category.word), ("message", .str d.message),
    ("suggestions", .ofTexts d.suggestions)]

end Diagnostic

/-!
## Reports against a source text

A report says where in a source text a diagnostic is. `locate` turns a byte offset into a line and
column, and `Diagnostic.report` gives the labelled form for editors.
-/

/-- A source text under the name it is reported by. -/
structure SourceFile where
  name : String
  text : String
  deriving Repr

/-- A line and a column, counted from one. -/
structure Location where
  line : Nat
  column : Nat
  deriving DecidableEq, Repr

/-- Walks over the characters that end at or before the byte offset; `pos` is the offset of the next
one. -/
def locateFrom (byte pos : Nat) (here : Location) : List Char → Location
  | [] => here
  | c :: cs =>
    let stop := pos + c.utf8Size
    if byte < stop then here
    else if c = '\n' then locateFrom byte stop ⟨here.line + 1, 1⟩ cs
    else locateFrom byte stop ⟨here.line, here.column + 1⟩ cs

/-- Where a byte offset is; an offset behind the end counts as the end. -/
def SourceFile.locate (f : SourceFile) (byte : Nat) : Location :=
  locateFrom byte 0 ⟨1, 1⟩ f.text.toList

namespace Diagnostic

/-- The message at the marked place: the hint, or else the category. -/
def label (d : Diagnostic) : String := d.hint?.getD d.category.text

/-- The marked place. Without a source text it is the recorded line and column. -/
def labelJson (d : Diagnostic) (file : Option SourceFile) : Json :=
  let recorded : Location := ⟨d.span.line, d.span.column⟩
  let start := (file.map (·.locate d.span.start)).getD recorded
  let stop := (file.map (·.locate d.span.stop)).getD recorded
  .obj [("file", .str ((file.map SourceFile.name).getD d.file)),
    ("start_line", .ofNat start.line), ("start_column", .ofNat start.column),
    ("end_line", .ofNat stop.line), ("end_column", .ofNat stop.column),
    ("message", .str d.label), ("style", .str "primary")]

/-- The labelled form of a diagnostic. -/
def report (d : Diagnostic) (file : Option SourceFile) : Json :=
  .obj [("code", .str d.code.code), ("name", .str d.code.name),
    ("category", .str d.category.text), ("severity", .str "error"), ("message", .str d.message),
    ("suggestions", .ofTexts d.suggestions), ("labels", .arr [d.labelJson file])]

end Diagnostic

end ProtoScript
