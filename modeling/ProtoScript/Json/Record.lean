import ProtoScript.Json.Basic
import ProtoScript.Ty.Parser

set_option autoImplicit false

/-!
# Records in JSON

A record is written as an object with an entry for each field, or as an array of the fields in
their order. Entries that name no field are passed over.
-/

namespace ProtoScript.Json

/-- The fields of a record by name. -/
abbrev Fields := List (String × Json)

/-- Reads a record with the given field names. -/
def record? (names : List String) : Json → Option Fields
  | obj entries => some entries
  | arr items => if items.length ≤ names.length then some (names.zip items) else none
  | _ => none

/-- Reads a record in which no field may be given twice. -/
def recordOnce? (names : List String) (j : Json) : Option Fields := do
  let fields ← record? names j
  if names.all fun n => (fields.filter fun e => e.1 == n).length ≤ 1 then some fields else none

/-- A field that has to be there. -/
def Fields.need {α : Type} (fields : Fields) (name : String) (read : Json → Option α) : Option α :=
  (lastUnder? name fields).bind read

/-- A field that is `null` or missing if it has no value. -/
def Fields.opt {α : Type} (fields : Fields) (name : String) (read : Json → Option α) :
    Option (Option α) :=
  match lastUnder? name fields with
  | none | some .null => some none
  | some j => (read j).map some

/-- A field with a value that stands in if it is missing. -/
def Fields.getD {α : Type} (fields : Fields) (name : String) (default : α)
    (read : Json → Option α) : Option α :=
  match lastUnder? name fields with
  | none => some default
  | some j => read j

/-- Reads every item of an array. -/
def list? {α : Type} (read : Json → Option α) (j : Json) : Option (List α) :=
  j.arr?.bind fun items => items.mapM read

/-- Reads a pair, which is an array of two. -/
def pair? {α β : Type} (first : Json → Option α) (second : Json → Option β) :
    Json → Option (α × β)
  | arr [a, b] => do return (← first a, ← second b)
  | _ => none

/-- Reads a written type. -/
def ty? (j : Json) : Option Ty := do
  let text ← j.str?
  (Ty.parse text).toOption

/-- Reads a text of one character. -/
def char? (j : Json) : Option Char := do
  match (← j.str?).toList with
  | [c] => some c
  | _ => none

/-- Reads a number as a float. -/
def float? : Json → Option Float
  | float x => some x
  | int n =>
    if 0 ≤ n then some (UInt64.ofNat n.toNat).toFloat else some (-(UInt64.ofNat (-n).toNat).toFloat)
  | _ => none

/-- The value is `null`. -/
def isNull : Json → Bool
  | null => true
  | _ => false

/-- The value says nothing: it is `null` or an empty object. -/
def isNothing : Json → Bool
  | null | obj [] => true
  | _ => false

/-- Reads one of several words, given the meaning of each. A word may also be written as an object with
the word as its one key and a value under it for which `blank` holds. -/
def word {α : Type} (blank : Json → Bool) (meaning : String → Option α) : Json → Option α
  | str w => meaning w
  | obj entries =>
    entries.getLast?.bind fun (w, j) =>
      if (entries.all fun e => e.1 == w) && blank j then meaning w else none
  | _ => none

/-- The kind of a tagged record, given by the entry `tag` or the first item, and the rest of it. -/
def tagged? (tag : String) : Json → Option (String × Json)
  | obj entries => do
    let kind ← (lastUnder? tag entries).bind str?
    return (kind, obj (entries.filter fun e => e.1 != tag))
  | arr (str kind :: rest) => some (kind, arr rest)
  | _ => none

/-- Checks the rest of a tagged record that has no fields. -/
def noFields? (j : Json) : Option Unit := (record? [] j).map fun _ => ()

end ProtoScript.Json
