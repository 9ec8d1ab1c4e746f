import ProtoScript.Optimize.Basic

set_option autoImplicit false

/-!
# Options of the compiler

What a run of the compiler can be told, and which options are refused.
-/

namespace ProtoScript

/-- The options of one run of the compiler. -/
structure Options where
  optLevel : OptLevel := .full
  /-- The name of the module and of the generated file. -/
  moduleName : String := "main"
  /-- The file that diagnostics name in place of the program's own. -/
  fileName : Option String := none
  /-- The run-time support is part of the generated file; otherwise it is included. -/
  emitPrelude : Bool := true
  deriving DecidableEq, Repr

namespace Options

/-- Why options are refused. -/
inductive Defect where
  | emptyModuleName
  | badModuleName (name : String)
  | emptyFileName
  deriving DecidableEq, Repr

/-- The wording of a refusal. -/
def Defect.message (d : Defect) : String :=
  "Invalid compiler options: " ++
    match d with
    | emptyModuleName => "module_name cannot be empty"
    | badModuleName name =>
      "Invalid module_name: " ++ name ++
        ". Must contain only alphanumeric characters, '_', '-' and '.'"
    | emptyFileName => "file_name cannot be empty when given"

/-- The characters of module names: ASCII letters and digits and three marks. -/
def isModuleChar (c : Char) : Bool := c.isAlphanum || c == '_' || c == '-' || c == '.'

/-- The first thing that is wrong with the options. -/
def defect? (o : Options) : Option Defect :=
  if o.moduleName.isEmpty then some .emptyModuleName
  else if !o.moduleName.toList.all isModuleChar then some (.badModuleName o.moduleName)
  else if o.fileName = some "" then some .emptyFileName
  else none

end Options

end ProtoScript
