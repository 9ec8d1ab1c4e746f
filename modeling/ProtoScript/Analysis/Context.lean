import ProtoScript.Diagnostic.Problem
import ProtoScript.Group.Basic
import ProtoScript.Hierarchy.Basic
import ProtoScript.Library.Imports
import ProtoScript.Scope.Basic

set_option autoImplicit false

/-!
# Checking in context

Checking reads a context, which is fixed for one function body, and carries a state: the scopes
around the current point and the diagnostics found so far. It never gives up; a part that is wrong is
reported and has no type.
-/

namespace ProtoScript.Analysis

/-- What is known around a function body. -/
structure Context where
  file : String
  hierarchy : Hierarchy
  library : Library
  imports : ImportScope
  groups : GroupTable
  /-- The functions of the program, each name once. -/
  functions : List FunctionDecl
  /-- The constants of groups and imported modules. -/
  consts : ConstEnv
  /-- The prototype whose method is checked. -/
  proto? : Option String := none
  /-- What the body has to return. -/
  ret : Ty := .void

namespace Context

/-- The function of the given name. -/
def function? (c : Context) (name : String) : Option FunctionDecl :=
  c.functions.find? fun f => f.name == name

/-- The names of the functions. -/
def functionNames (c : Context) : List String := c.functions.map (·.name)

end Context

/-- What changes while a body is checked. -/
structure State where
  scopes : Scopes := []
  /-- The diagnostics found, in order. -/
  found : List Diagnostic := []

/-- A step of checking. -/
abbrev Check := ReaderT Context (StateM State)

/-- Reports a problem at a place. -/
def report (problem : Problem) (span : Span) : Check Unit := do
  let d := problem.diagnose (← read).file span
  modify fun s => { s with found := s.found ++ [d] }

/-- Reports a problem with a name at a place, and suggests names that may have been meant. -/
def reportName (problem : Problem) (span : Span) (name : String) (candidates : List String) :
    Check Unit := do
  let d := (problem.diagnose (← read).file span).withSuggestions (suggest name candidates)
  modify fun s => { s with found := s.found ++ [d] }

/-- Reports a problem unless a condition holds. -/
def expect (holds : Bool) (problem : Problem) (span : Span) : Check Unit :=
  if holds then pure () else report problem span

/-- The local variable of the given name. -/
def local? (name : String) : Check (Option Binding) := do
  return (← get).scopes.resolve? name

/-- Changes the scopes. -/
def modifyScopes (f : Scopes → Scopes) : Check Unit :=
  modify fun s => { s with scopes := f s.scopes }

/-- What is known at the current point. -/
def snapshot : Check FlowSnapshot := do
  return (← get).scopes.snapshot

/-- Goes on with the knowledge of a snapshot. -/
def restore (snap : FlowSnapshot) : Check Unit := modifyScopes (Scopes.restore snap)

/-- Binds a name in the innermost scope; if it is bound there already the answer is the place. -/
def define (name : String) (b : Binding) : Check (Option Span) := do
  match (← get).scopes.define name b with
  | .ok scopes =>
    modifyScopes fun _ => scopes
    return none
  | .error previous => return some previous

/-- The type may be stored where another is expected. -/
def isAssignable (source target : Ty) : Check Bool := do
  return (← read).hierarchy.isAssignable source target

/-- The first prototype named in a type that does not exist. -/
def unknownPrototype? (h : Hierarchy) : Ty → Option String
  | .prim _ => none
  | .named name => if h.contains name then none else some name
  | .list t | .view t | .slice t => unknownPrototype? h t
  | .map k v =>
    match unknownPrototype? h k with
    | some name => some name
    | none => unknownPrototype? h v

/-- Checks that the prototypes named in a type exist. -/
def checkTy (ty : Ty) (span : Span) : Check Bool := do
  let h := (← read).hierarchy
  match unknownPrototype? h ty with
  | none => return true
  | some name =>
    reportName (.undefinedPrototype name) span name h.names
    return false

/-- The expression is the receiver, or a local variable that holds it. -/
def aliasesSelf (e : Expr) : Check Bool := do
  match e with
  | .self _ => return true
  | .ident _ name => return (← local? name).any (·.isSelf)
  | _ => return false

/-- A list that is used as a value can be changed through another name, so its length is no longer
known. -/
def escape (e : Expr) : Check Unit :=
  match e with
  | .ident _ name => modifyScopes (Scopes.update name fun b => { b with length? := none })
  | _ => pure ()

end ProtoScript.Analysis
