import ProtoScript.Json.Draft

set_option autoImplicit false

/-!
# Reading JSON

`Json.read?` reads a text in which everything has a value. `Json.readAs?` reads a text of which only
the parts that a shape names matter: whatever lies elsewhere has to be well written, but it need not
have a value and may be nested at will.
-/

namespace ProtoScript.Json

/-- How often arrays and objects are nested in a document at most. -/
def documentDepth : Nat := 127

/-- Reads a whole text as a value nested at most `depth` times. -/
def read? (depth : Nat) (text : String) : Option Json := (Draft.read? text).bind (·.json? depth)

/-- The parts of a value that matter. -/
inductive Shape where
  | whole
  | list (item : Shape)
  /-- A record, of which only these fields matter. -/
  | record (fields : List (String × Shape))

mutual

/-- The value of the parts of a draft that matter. -/
def Draft.select? (shape : Shape) (d : Draft) : Option Json :=
  match d with
  | .scalar v => v
  | .arr items =>
    match shape with
    | .whole => (Draft.arr items).json? documentDepth
    | .list item => (selectItems? item items).map .arr
    | .record fields => (selectFields? fields items).map .arr
  | .obj entries =>
    match shape with
    | .record fields => (selectEntries? fields entries).map .obj
    | _ => (Draft.obj entries).json? documentDepth

/-- The items of a list. -/
def Draft.selectItems? (item : Shape) : List Draft → Option (List Json)
  | [] => some []
  | d :: rest => do return (← d.select? item) :: (← selectItems? item rest)

/-- The fields of a record that is written as an array. -/
def Draft.selectFields? (fields : List (String × Shape)) : List Draft → Option (List Json)
  | [] => some []
  | d :: rest => do
    let shape := (fields.head?.map (·.2)).getD .whole
    return (← d.select? shape) :: (← selectFields? fields.tail rest)

/-- The entries of a record that name its fields. -/
def Draft.selectEntries? (fields : List (String × Shape)) :
    List (Option String × Draft) → Option (List (String × Json))
  | [] => some []
  | (key, d) :: rest => do
    let key ← key
    let more ← selectEntries? fields rest
    match fields.lookup key with
    | some shape => return (key, ← d.select? shape) :: more
    | none => return more

end

/-- Reads the parts of a text that matter. -/
def readAs? (shape : Shape) (text : String) : Option Json := (Draft.read? text).bind (·.select? shape)

end ProtoScript.Json
