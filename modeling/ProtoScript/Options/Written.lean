import ProtoScript.Json.Record
import ProtoScript.Options.Basic
import ProtoScript.Toml.Reader
import ProtoScript.Toml.Writer

set_option autoImplicit false

/-!
# Option files

Options are kept under the key `compiler` of a TOML file, as a table or as an array of the options in
their order. An option that is not given has its default, and everything else in the file is passed
over.
-/

namespace ProtoScript.Options

/-- Why a file gives no options. -/
inductive ReadError where
  /-- The file is not TOML, or an option has a value of the wrong kind. -/
  | malformed
  | refused (defect : Defect)
  deriving DecidableEq, Repr

/-- The names of the options in their order. -/
def names : List String := ["opt_level", "module_name", "file_name", "emit_prelude"]

/-- An option of a table, or its default. -/
def get? {α : Type} (t : Toml.Table) (key : String) (default : α)
    (read : Toml.Value → Option α) : Option α :=
  match t.get? key with
  | none => some default
  | some v => read v

def text? : Toml.Value → Option String
  | .str s => some s
  | _ => none

def flag? : Toml.Value → Option Bool
  | .bool b => some b
  | _ => none

/-- The value says nothing. -/
def isNothing : Toml.Value → Bool
  | .arr [] | .table _ [] | .tables [] => true
  | _ => false

/-- A level, given by its word or by a table with the word as its one key and nothing under it. -/
def level? : Toml.Value → Option OptLevel
  | .str w => OptLevel.ofWord? w
  | .table _ [(w, v)] => if isNothing v then OptLevel.ofWord? w else none
  | _ => none

/-- The options that a table gives. -/
def ofTable? (t : Toml.Table) : Option Options := do
  let o : Options := {}
  return { optLevel := ← get? t "opt_level" o.optLevel level?
           moduleName := ← get? t "module_name" o.moduleName text?
           fileName := ← get? t "file_name" o.fileName fun v => (text? v).map some
           emitPrelude := ← get? t "emit_prelude" o.emitPrelude flag? }

/-- The options that a value gives. Of an array what lies behind the last option is passed over, and a
moment gives none. -/
def ofValue? : Toml.Value → Option Options
  | .table _ t => ofTable? t
  | .arr items => ofTable? (names.zip items)
  | .tables items => ofTable? (names.zip (items.map (.table .header)))
  | .moment _ => some {}
  | _ => none

/-- The options that a document gives. -/
def ofDocument? (doc : Toml.Table) : Option Options :=
  match doc.get? "compiler" with
  | none => some {}
  | some v => ofValue? v

/-- The options that a JSON value gives. -/
def ofJson? (j : Json) : Option Options := do
  let f ← j.record? names
  let o : Options := {}
  return { optLevel := ← f.getD "opt_level" o.optLevel (Json.word Json.isNull OptLevel.ofWord?)
           moduleName := ← f.getD "module_name" o.moduleName Json.str?
           fileName := ← f.opt "file_name" Json.str?
           emitPrelude := ← f.getD "emit_prelude" o.emitPrelude Json.bool? }

/-- Reads the options of a file. -/
def read (text : String) : Except ReadError Options :=
  match (Toml.read? text).bind ofDocument? with
  | none => .error .malformed
  | some o =>
    match o.defect? with
    | some d => .error (.refused d)
    | none => .ok o

/-- Writes the options to a file. -/
def write (o : Options) : String :=
  let entry (key value : String) : String := key ++ " = " ++ value ++ "\n"
  "[compiler]\n" ++ entry "opt_level" (Toml.string o.optLevel.word) ++
    entry "module_name" (Toml.string o.moduleName) ++
    (o.fileName.map fun f => entry "file_name" (Toml.string f)).getD "" ++
    entry "emit_prelude" (Toml.bool o.emitPrelude)

end ProtoScript.Options
