set_option autoImplicit false

/-!
# Suggestions for a misspelt name

The known names nearest to a name that was not found. Only names within two edits count, and a
choice among three or more equally near names is no help, so it suggests nothing.
-/

namespace ProtoScript.Edit

/-!
## Edit distance

The least number of insertions, deletions and replacements of single characters that turn one
text into another. `distance` fills the usual table row by row: a row belongs to a part of the first
text that has been read and holds one entry for each part of the second. Only two rows are kept.
-/

/-- The row made last, and one that the next is written over: it still holds an older row. -/
structure Rows (n : Nat) where
  last : Vector Nat (n + 1)
  spare : Vector Nat (n + 1)

/-- Writes the entries of the next row behind its first one over `row`, from left to right, for the
new character `c` of the first text; `above` is the row before. -/
def writeRow {n : Nat} (target : Vector Char n) (c : Char) (above row : Vector Nat (n + 1)) :
    Vector Nat (n + 1) :=
  n.fold (fun j _ row =>
    row.set (j + 1) (min (min (above[j + 1] + 1) (row[j] + 1))
      (above[j] + if c = target[j] then 0 else 1))) row

namespace Rows

/-- The row of the empty text, every entry of which counts insertions only. -/
def start (n : Nat) : Rows n := ⟨Vector.range (n + 1), Vector.replicate (n + 1) 0⟩

/-- The first text grows by the character at position `i`: the rows change places. -/
def next {n : Nat} (target : Vector Char n) (rows : Rows n) (c : Char) (i : Nat) : Rows n :=
  ⟨writeRow target c rows.last (rows.spare.set 0 (i + 1)), rows.last⟩

end Rows

/-- The row of the whole first text. -/
def lastRow {n : Nat} (source : List Char) (target : Vector Char n) : Vector Nat (n + 1) :=
  (source.zipIdx.foldl (fun rows p => rows.next target p.1 p.2) (Rows.start n)).last

/-- The edit distance of two texts, counted in characters. -/
def distance (a b : String) : Nat :=
  let source := a.toList
  let target := b.toList
  if source.isEmpty then target.length
  else if target.isEmpty then source.length
  else (lastRow source (.ofFn target.get))[target.length]

end ProtoScript.Edit

namespace ProtoScript

/-! ## Names that may have been meant -/

/-- Texts in the order of their characters' code points. -/
def sortTexts (texts : List String) : List String :=
  texts.mergeSort fun a b => !decide (b < a)

/-- The greatest number of edits at which a name is still suggested. -/
def maxSuggestionDistance : Nat := 2

/-- The candidates found nearest so far. -/
structure Nearest where
  /-- How far they are from the name; nothing as long as none is near enough. -/
  distance? : Option Nat := none
  names : List String := []

/-- Considers one more candidate. The name itself does not count, nor does a candidate that was there
before. -/
def Nearest.consider (name : String) (near : Nearest) (candidate : String) : Nearest :=
  let distance := Edit.distance name candidate
  if candidate = name || distance > maxSuggestionDistance then near
  else if near.distance?.all (distance < ·) then ⟨some distance, [candidate]⟩
  else if near.distance? = some distance && !near.names.contains candidate then
    { near with names := near.names ++ [candidate] }
  else near

/-- The candidates nearest to `name`, if they are near enough and at most two. -/
def suggest (name : String) (candidates : List String) : List String :=
  let tied := (candidates.foldl (Nearest.consider name) {}).names
  if tied.length ≤ 2 then sortTexts tied else []

end ProtoScript
