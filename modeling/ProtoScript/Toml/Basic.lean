set_option autoImplicit false

/-!
# TOML documents

A document is a list of statements: headers, which open a table, and entries, which set a key of the
table opened last. `Toml.build?` puts the statements together to one tree of tables. Nothing can be
defined twice, and a table that an entry spelled out, by a dotted path or between braces, is not
opened again. A path that meets an array of tables goes on in the last of them.
-/

namespace ProtoScript.Toml

/-!
## Dates and times

A moment is a date, a time of day, or a date with a time and perhaps its distance from universal time.
All numbers have a fixed number of digits, so a moment is read by its shape.
-/

/-- A day of the calendar. -/
structure Date where
  year : Nat
  month : Nat
  day : Nat
  deriving DecidableEq, Repr

/-- A time of day; a minute may have a leap second. -/
structure Time where
  hour : Nat
  minute : Nat
  second : Nat
  nanosecond : Nat := 0
  deriving DecidableEq, Repr

/-- A date or a time or both. -/
inductive Moment where
  | date (date : Date)
  | time (time : Time)
  /-- The offset is the distance from universal time in minutes. -/
  | both (date : Date) (time : Time) (offset : Option Int)
  deriving DecidableEq, Repr

/-- The value of a run of decimal digits that lies between two bounds. -/
def field? (low high : Nat) (digits : List Char) : Option Nat :=
  if digits.all Char.isDigit then
    let n := digits.foldl (fun n c => 10 * n + (c.toNat - '0'.toNat)) 0
    if low ≤ n ∧ n ≤ high then some n else none
  else none

namespace Date

/-- The year has a 29th of February. -/
def isLeap (year : Nat) : Bool := year % 4 == 0 && (year % 100 != 0 || year % 400 == 0)

/-- The number of days of a month. -/
def daysIn (year month : Nat) : Nat :=
  if month = 2 then if isLeap year then 29 else 28
  else if month = 4 ∨ month = 6 ∨ month = 9 ∨ month = 11 then 30
  else 31

/-- Reads a date, which is the whole text. -/
def read? : List Char → Option Date
  | [y₁, y₂, y₃, y₄, '-', m₁, m₂, '-', d₁, d₂] => do
    let year ← field? 0 9999 [y₁, y₂, y₃, y₄]
    let month ← field? 1 12 [m₁, m₂]
    let day ← field? 1 (daysIn year month) [d₁, d₂]
    return ⟨year, month, day⟩
  | _ => none

end Date

namespace Time

/-- The nanoseconds of the digits behind the point; digits beyond the ninth are dropped. -/
def nanoseconds (digits : List Char) : Nat :=
  ((digits ++ List.replicate 9 '0').take 9).foldl (fun n c => 10 * n + (c.toNat - '0'.toNat)) 0

/-- Reads a time at the start of a text. -/
def read? : List Char → Option (Time × List Char)
  | h₁ :: h₂ :: ':' :: m₁ :: m₂ :: ':' :: s₁ :: s₂ :: rest => do
    let hour ← field? 0 23 [h₁, h₂]
    let minute ← field? 0 59 [m₁, m₂]
    let second ← field? 0 60 [s₁, s₂]
    match rest with
    | '.' :: more =>
      let digits := more.takeWhile Char.isDigit
      if digits.isEmpty then none
      return (⟨hour, minute, second, nanoseconds digits⟩, more.drop digits.length)
    | _ => return (⟨hour, minute, second, 0⟩, rest)
  | _ => none

end Time

namespace Moment

/-- Reads a distance from universal time, which is the whole text, if there is one. -/
def offset? : List Char → Option (Option Int)
  | [] => some none
  | ['Z'] | ['z'] => some (some 0)
  | [sign, h₁, h₂, ':', m₁, m₂] => do
    let hours ← field? 0 23 [h₁, h₂]
    let minutes ← field? 0 59 [m₁, m₂]
    let distance : Int := 60 * hours + minutes
    if sign = '+' then some (some distance)
    else if sign = '-' then some (some (-distance))
    else none
  | _ => none

/-- Reads the time that follows a date. -/
def withTime? (day : Date) (cs : List Char) : Option Moment := do
  let (t, rest) ← Time.read? cs
  return .both day t (← offset? rest)

/-- Reads a moment, which is the whole text. -/
def read? (cs : List Char) : Option Moment :=
  match Time.read? cs with
  | some (t, []) => some (.time t)
  | some _ => none
  | none =>
    (Date.read? (cs.take 10)).bind fun day =>
      match cs.drop 10 with
      | [] => some (.date day)
      | c :: rest => if c = 'T' ∨ c = 't' then withTime? day rest else none

end Moment

/-! ## Documents -/

/-- How a table came about. -/
inductive TableOrigin where
  /-- It has a header of its own. -/
  | header
  /-- It stands on the way to a table with a header. -/
  | onTheWay
  /-- It stands on the way to a key with a dotted path. -/
  | dotted
  /-- It was written between braces. -/
  | inline
  deriving DecidableEq, Repr

/-- A value. -/
inductive Value where
  | str (text : String)
  | bool (value : Bool)
  | int (value : Int)
  | float (value : Float)
  | moment (value : Moment)
  | arr (items : List Value)
  | table (origin : TableOrigin) (entries : List (String × Value))
  /-- An array of tables, each with a header of its own. -/
  | tables (items : List (List (String × Value)))

/-- The keys of a table with their values; every key occurs once. -/
abbrev Table := List (String × Value)

/-- A statement of a document. -/
inductive Statement where
  /-- Opens the table with the given path. -/
  | header (path : List String)
  /-- Opens a new table at the end of the array of tables with the given path. -/
  | item (path : List String)
  /-- Sets a key of the open table, or of a table below it. -/
  | entry (path : List String) (value : Value)

namespace Table

/-- The value of a key. -/
def get? (t : Table) (key : String) : Option Value := t.lookup key

/-- Gives a key a value; a new key comes last. -/
def put (t : Table) (key : String) (value : Value) : Table :=
  if (t.get? key).isSome then t.map fun e => if e.1 = key then (key, value) else e
  else t ++ [(key, value)]

/-- Changes the last table of an array of tables. -/
def inLast? (change : Table → Option Table) (items : List Table) : Option (List Table) :=
  items.getLast?.bind fun t => (change t).map fun t => items.dropLast ++ [t]

/-- Sets the key with the given path. The tables on the path are spelled out by it or by dotted paths
before it; all but the last may also stand on the way to a header or in an array of tables. -/
def set? (value : Value) : List String → Table → Option Table
  | [], _ => none
  | [key], t => if (t.get? key).isSome then none else some (t.put key value)
  | key :: next :: rest, t =>
    match t.get? key with
    | none => (set? value (next :: rest) []).map fun sub => t.put key (.table .dotted sub)
    | some (.table origin sub) =>
      if origin = .dotted ∨ (origin = .onTheWay ∧ rest ≠ []) then
        (set? value (next :: rest) sub).map fun sub => t.put key (.table origin sub)
      else none
    | some (.tables items) =>
      if rest ≠ [] then
        (inLast? (set? value (next :: rest)) items).map fun items => t.put key (.tables items)
      else none
    | some _ => none

/-- Follows the path of a header up to its last key, and does `last` with that. -/
def follow? (last : String → Table → Option Table) : List String → Table → Option Table
  | [], _ => none
  | [key], t => last key t
  | key :: rest, t =>
    match t.get? key with
    | none => (follow? last rest []).map fun sub => t.put key (.table .onTheWay sub)
    | some (.table origin sub) =>
      if origin = .inline then none
      else (follow? last rest sub).map fun sub => t.put key (.table origin sub)
    | some (.tables items) =>
      (inLast? (follow? last rest) items).map fun items => t.put key (.tables items)
    | some _ => none

/-- Opens the table under a key. It is new, or stood on the way only. -/
def openKey? (key : String) (t : Table) : Option Table :=
  match t.get? key with
  | none => some (t.put key (.table .header []))
  | some (.table .onTheWay sub) => some (t.put key (.table .header sub))
  | some _ => none

/-- Opens a new table in the array of tables under a key. -/
def addItem? (key : String) (t : Table) : Option Table :=
  match t.get? key with
  | none => some (t.put key (.tables [[]]))
  | some (.tables items) => some (t.put key (.tables (items ++ [[]])))
  | some _ => none

/-- Changes the table with the given path. -/
def within? (change : Table → Option Table) : List String → Table → Option Table
  | [], t => change t
  | key :: rest, t =>
    match t.get? key with
    | some (.table origin sub) =>
      (within? change rest sub).map fun sub => t.put key (.table origin sub)
    | some (.tables items) =>
      (inLast? (within? change rest) items).map fun items => t.put key (.tables items)
    | _ => none

end Table

/-- Adds statements to a document in which the table with the path `here` is open. -/
def build? (here : List String) (t : Table) : List Statement → Option Table
  | [] => some t
  | .header path :: rest =>
    (t.follow? Table.openKey? path).bind fun t => build? path t rest
  | .item path :: rest => (t.follow? Table.addItem? path).bind fun t => build? path t rest
  | .entry path value :: rest =>
    (t.within? (Table.set? value path) here).bind fun t => build? here t rest

end ProtoScript.Toml
