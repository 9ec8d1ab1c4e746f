import ProtoScript.Constant.Evaluate
import ProtoScript.Diagnostic.Problem
import ProtoScript.Library.Basic
import ProtoScript.Source.Program
import ProtoScript.Text.Suggest

set_option autoImplicit false

/-!
# Imports

The names that a program's imports make visible: modules under a name, and single members under
their own. Each name is taken once; an import that would take it again is reported and ignored.
-/

namespace ProtoScript

/-- What the imports of a program make visible. -/
structure ImportScope where
  /-- The visible names of modules, each with the module. -/
  namespaces : List (String × String) := []
  /-- The visible names of members, each with the module and the member. -/
  members : List (String × String × String) := []
  deriving DecidableEq, Repr, Inhabited

namespace ImportScope

/-- The module that a name stands for. -/
def namespace? (s : ImportScope) (name : String) : Option String := s.namespaces.lookup name

/-- The module and the member that a name stands for. -/
def member? (s : ImportScope) (name : String) : Option (String × String) := s.members.lookup name

/-- The name is taken. -/
def contains (s : ImportScope) (name : String) : Bool :=
  (s.namespace? name).isSome || (s.member? name).isSome

/-- The constants that the imports make visible, under the names by which expressions know them. -/
def constants (s : ImportScope) (library : Library) : ConstEnv :=
  let ofModules := s.namespaces.flatMap fun (visible, module) =>
    (library.memberNames module).filterMap fun name =>
      ((library.constant? module name).bind (·.toConstant?)).map fun v => (qualified visible name, v)
  let single := s.members.filterMap fun (visible, module, name) =>
    ((library.constant? module name).bind (·.toConstant?)).map fun v => (visible, v)
  (ofModules ++ single).foldl (fun env (name, v) => env.insert name v) []

/-- Makes a module visible under a name. -/
def addNamespace (file : String) (i : Import) (s : ImportScope) (visible : String) :
    ImportScope × List Diagnostic :=
  if s.contains visible then (s, [(Problem.duplicateImport visible).diagnose file i.span])
  else ({ s with namespaces := s.namespaces ++ [(visible, i.module)] }, [])

/-- Makes members of a module visible. -/
def addMembers (file : String) (library : Library) (i : Import) :
    ImportScope → List String → ImportScope × List Diagnostic
  | s, [] => (s, [])
  | s, name :: rest =>
    let exists? := (library.function? i.module name).isSome ||
      (library.constant? i.module name).isSome
    let (s, found) : ImportScope × List Diagnostic :=
      if !exists? then
        let d := (Problem.unknownImport i.module name).diagnose file i.span
        (s, [d.withSuggestions (suggest name (library.memberNames i.module))])
      else if s.contains name then
        (s, [(Problem.duplicateImport name).diagnose file i.span])
      else ({ s with members := s.members ++ [(name, i.module, name)] }, [])
    let (s, more) := addMembers file library i s rest
    (s, found ++ more)

/-- Takes in one import. An import of no members is one of the whole module. -/
def add (file : String) (library : Library) (s : ImportScope) (i : Import) :
    ImportScope × List Diagnostic :=
  if !library.contains i.module then
    let d := (Problem.unknownModule i.module).diagnose file i.span
    (s, [d.withSuggestions (suggest i.module library.names)])
  else
    match i.form with
    | .whole | .members [] => s.addNamespace file i i.module
    | .renamed visible => s.addNamespace file i visible
    | .members names => s.addMembers file library i names

/-- Takes in imports in order. -/
def addAll (file : String) (library : Library) :
    ImportScope → List Import → ImportScope × List Diagnostic
  | s, [] => (s, [])
  | s, i :: rest =>
    let (s, found) := s.add file library i
    let (s, more) := addAll file library s rest
    (s, found ++ more)

end ImportScope

/-- The names that imports make visible, and what is wrong with the imports. -/
def resolveImports (file : String) (imports : List Import) (library : Library) :
    ImportScope × List Diagnostic :=
  ImportScope.addAll file library {} imports

end ProtoScript
