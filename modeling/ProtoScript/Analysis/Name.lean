import ProtoScript.Analysis.Context

set_option autoImplicit false

/-!
# Names and members

What a name or member stands for. A local variable hides everything else; then come prototypes and
what was imported. The names of groups, modules and functions are no values.
-/

namespace ProtoScript.Analysis

/-- The note of a node that has a type. -/
def typed (n : Note) (ty : Ty) : Note := { n with type? := some ty }

/-- The note of a node that stands for something other than a local variable. -/
def denotes (n : Note) (ty : Ty) (target : ValueTarget) : Note :=
  { n with type? := some ty, value? := some target }

/-- Reports a name that stands for nothing. -/
def reportUndefined (name : String) (span : Span) : Check Unit := do
  let c ← read
  let candidates := (← get).scopes.visibleNames ++ c.functionNames ++ c.hierarchy.names ++
    c.groups.names ++ c.imports.namespaces.map (·.1) ++ c.imports.members.map (·.1) ++
    Builtin.functions
  reportName (.undefinedName name) span name candidates

/-- The note of a node that stands for a constant of a module. -/
def noteLibraryConstant (n : Note) (constant : LibraryConstant) : Check Note :=
  match constant.toConstant? with
  | some value => pure (denotes n constant.ty (.constant value))
  | none => do
    report (.moduleConstantType constant.name constant.ty) n.span
    return n

/-- What is wrong with a global name that is used as a value. -/
def notValue? (c : Context) (name : String) : Option Problem :=
  if (c.imports.member? name).isSome then some (.importedFunctionAsValue name)
  else if c.groups.contains name then some (.groupAsValue name)
  else if (c.imports.namespace? name).isSome then some (.moduleAsValue name)
  else if (c.function? name).isSome then some (.functionAsValue name)
  else none

/-- The imported constant of the given visible name. -/
def importedConstant? (c : Context) (name : String) : Option LibraryConstant :=
  (c.imports.member? name).bind fun (module, member) => c.library.constant? module member

/-- The note of a name that is no local variable. -/
def noteGlobal (n : Note) (name : String) : Check Note := do
  let c ← read
  if c.hierarchy.contains name then
    return denotes n (.named name) (.prototype name)
  match importedConstant? c name with
  | some constant => noteLibraryConstant n constant
  | none =>
    match notValue? c name with
    | some problem => report problem n.span
    | none => reportUndefined name n.span
    return n

/-- The note of a name that is used as a value. -/
def noteName (n : Note) (name : String) : Check Note := do
  match ← local? name with
  | some b =>
    expect b.initialized (.uninitialized name) n.span
    return typed n b.ty
  | none => noteGlobal n name

/-! ## Members -/

/-- A name before a dot that is no value. -/
inductive Owner where
  | group (g : Group)
  | module (name : String)

/-- The group or module that an expression before a dot names; a local variable hides both. -/
def owner? (e : Expr) : Check (Option Owner) := do
  match e with
  | .ident _ name =>
    if (← local? name).isSome then return none
    let c ← read
    match c.groups.get? name with
    | some g => return some (.group g)
    | none => return (c.imports.namespace? name).map .module
  | _ => return none

/-- The note of a member of a group. -/
def noteGroupMember (n : Note) (g : Group) (member : String) : Check Note :=
  match g.member? member with
  | some value => pure (denotes n g.base (.constant value))
  | none => do
    reportName (.noSuchGroupMember g.name member) n.span member g.memberNames
    return n

/-- The note of a member of a module that is used as a value. -/
def noteModuleMember (n : Note) (module member : String) : Check Note := do
  let library := (← read).library
  match library.constant? module member with
  | some constant => noteLibraryConstant n constant
  | none =>
    if (library.function? module member).isSome then
      report (.functionAsValue (qualified module member)) n.span
    else
      reportName (.noSuchModuleMember module member) n.span member (library.memberNames module)
    return n

/-- The note of a field of an instance of a prototype. -/
def noteField (n : Note) (proto member : String) : Check Note := do
  let c ← read
  match c.hierarchy.field? proto member with
  | some f =>
    expect (c.hierarchy.canAccess f.visibility f.owner c.proto?)
      (.internalField proto member f.owner) n.span
    return denotes n f.ty (.field proto member)
  | none =>
    if (c.hierarchy.method? proto member).isSome then
      report (.methodAsValue proto member) n.span
    else
      reportName (.noSuchMember proto member) n.span member (c.hierarchy.memberNames proto)
    return n

/-- The note of a member of a value of the given type. -/
def noteMember (n : Note) (object : Ty) (member : String) : Check Note :=
  match object with
  | .named proto => noteField n proto member
  | _ => do
    report (.noSuchField object member) n.span
    return n

end ProtoScript.Analysis
