import ProtoScript.Analysis.Stmt
import ProtoScript.Hierarchy.Build

set_option autoImplicit false

/-!
# Checking programs

`Program.analyze` builds the hierarchy of prototypes, resolves the imports, evaluates the groups and
then checks every function, field and method. What it gives back is the program with a note on every
node, and the diagnostics in the order in which these parts are looked at.
-/

namespace ProtoScript

namespace Analysis

/-! ## Declarations -/

/-- Checks the parameters of a function and binds them. -/
def checkParams : List Param → Check Unit
  | [] => pure ()
  | p :: rest => do
    let _ ← checkTy p.ty p.span
    match ← define p.name { ty := p.ty, span := p.span } with
    | none => pure ()
    | some previous => report (.duplicateParam p.name previous.line) p.span
    checkParams rest

/-- Checks a function, or a method of the prototype `proto?`. -/
def checkFunction (proto? : Option String) (f : FunctionDecl) : Check FunctionDecl :=
  withReader (fun c => { c with proto?, ret := f.ret }) do
    let _ ← checkTy f.ret f.span
    inScope .function do
      checkParams f.params
      let body ← checkStmts f.body
      expect (f.ret.isVoid || alwaysLeaves f.body) (.missingReturn f.name f.ret) f.span
      return { f with body }

/-- Checks a field of the prototype `proto`. Its initial value is computed outside of every
method. -/
def checkField (proto : String) (f : FieldDecl) : Check FieldDecl := do
  let known ← checkTy f.ty f.span
  expect (!f.isConst || f.init.isSome) (.constFieldWithoutInit proto f.name) f.span
  match f.init with
  | none => return f
  | some e =>
    withReader (fun c => { c with proto? := none }) do
      let e ← inScope .function (checkAgainst (if known then some f.ty else none) e)
      return { f with init := some e }

/-- Checks a prototype; a declaration that was refused is not looked at again. -/
def checkPrototype (d : PrototypeDecl) : Check PrototypeDecl := do
  if (← read).hierarchy.accepts d then
    let fields ← d.fields.mapM (checkField d.name)
    let methods ← d.methods.mapM fun m => do
      return { m with function := ← checkFunction (some d.name) m.function }
    return { d with fields, methods }
  else return d

/-- Checks a declaration; groups have been evaluated before. -/
def checkDecl : Decl → Check Decl
  | .function f => do return .function (← checkFunction none f)
  | .prototype d => do return .prototype (← checkPrototype d)
  | .group g => return .group g

/-! ## Names at the top of a program -/

/-- The groups that have the name of a prototype. -/
def groupClashes (file : String) (h : Hierarchy) (groups : List GroupDecl) : List Diagnostic :=
  (groups.filter fun g => h.contains g.name).map fun g =>
    (Problem.groupClashesWithPrototype g.name).diagnose file g.span

/-- The functions of a program, each name once, and the functions whose name is taken. -/
def collectFunctions (file : String) (taken : String → Bool) (known : List FunctionDecl) :
    List FunctionDecl → List FunctionDecl × List Diagnostic
  | [] => (known, [])
  | f :: rest =>
    if known.any fun g => g.name == f.name then
      let (known, found) := collectFunctions file taken known rest
      (known, (Problem.duplicateFunction f.name).diagnose file f.span :: found)
    else
      let (known, found) := collectFunctions file taken (known ++ [f]) rest
      if taken f.name then
        (known, (Problem.functionClashes f.name).diagnose file f.span :: found)
      else (known, found)

end Analysis

/-- A checked program. -/
structure Analysis where
  /-- The program, with notes. -/
  program : Program
  hierarchy : Hierarchy
  imports : ImportScope
  groups : GroupTable
  diagnostics : List Diagnostic

/-- No problem was found. -/
def Analysis.isClean (a : Analysis) : Bool := a.diagnostics.isEmpty

/-- Checks a program that may import the modules of a library. -/
def Program.analyze (p : Program) (library : Library) : Analysis :=
  let (hierarchy, atHierarchy) := p.hierarchy
  let (imports, atImports) := resolveImports p.file p.imports library
  let (groups, consts, atGroups) := p.groupTable (imports.constants library)
  let taken (name : String) : Bool :=
    Builtin.functions.contains name || hierarchy.contains name || groups.contains name
  let (functions, atFunctions) := Analysis.collectFunctions p.file taken [] p.functions
  let context : Analysis.Context :=
    { file := p.file, hierarchy, library, imports, groups, functions, consts }
  let (decls, state) := (p.decls.mapM Analysis.checkDecl).run context |>.run {}
  { program := { p with decls }
    hierarchy, imports, groups
    diagnostics := atHierarchy ++ atImports ++ atGroups ++
      Analysis.groupClashes p.file hierarchy p.groups ++ atFunctions ++ state.found }

end ProtoScript
