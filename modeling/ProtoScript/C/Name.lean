import ProtoScript.Ir.Instr

set_option autoImplicit false

/-!
# Names in C

How the things of a module are called in the generated C: functions, methods, dispatchers, struct
types, variables, fields and labels. Each kind has its own first letters, so that a name of one kind
is never one of another.
-/

namespace ProtoScript.C

/-- A character that a C identifier can hold, or an underscore in its place. -/
def sanitizeChar (c : Char) : Char := if c.isAlphanum || c == '_' then c else '_'

/-- A name with everything that a C identifier cannot hold replaced. -/
def sanitize (name : String) : String := String.ofList (name.toList.map sanitizeChar)

/-- The text before and behind the first `::`. -/
def splitMethod? : List Char → Option (List Char × List Char)
  | ':' :: ':' :: rest => some ([], rest)
  | c :: rest => (splitMethod? rest).map fun (before, behind) => (c :: before, behind)
  | [] => none

/-- A method with the prototype it belongs to. -/
def memberOf (start proto method : String) : String :=
  start ++ sanitize proto ++ "__" ++ sanitize method

/-- The C function of a function of the module. -/
def functionName (name : String) : String :=
  match splitMethod? name.toList with
  | some (proto, method) => memberOf "psm_" (String.ofList proto) (String.ofList method)
  | none => "psf_" ++ sanitize name

/-- The C function that picks a method by the receiver's prototype. -/
def dispatcherName (proto method : String) : String := memberOf "psd_" proto method

/-- The C function of a function outside the program. -/
def foreignName (module function : String) : String :=
  "psx_" ++ sanitize module ++ "_" ++ sanitize function

/-- The struct of a prototype. -/
def structName (proto : String) : String := "ps_" ++ sanitize proto

def tempName (t : Ir.Temp) : String := "t" ++ toString t

def varName (name : String) : String := "v_" ++ sanitize name

def labelName (label : String) : String := "L_" ++ sanitize label

def fieldName (field : String) : String := "f_" ++ sanitize field

/-- A type as part of an identifier: containers before their arguments, and prototypes with the length
of their name, so that it can be read in one way only. -/
def mangle : Ty → String
  | .prim p => p.name
  | .named name => "o" ++ toString (sanitize name).length ++ sanitize name
  | .list t => "list_" ++ mangle t
  | .view t => "view_" ++ mangle t
  | .slice t => "slice_" ++ mangle t
  | .map k v => "map_" ++ mangle k ++ "_" ++ mangle v

/-- The struct of a container type. -/
def containerName (t : Ty) : String := "ps_" ++ mangle t

end ProtoScript.C
