import ProtoScript.Lowering.Stmt

set_option autoImplicit false

/-!
# Lowering programs

Every function and every method of a program becomes a function of a module, in the order of
declaration, and every prototype a layout. A method has the receiver as its first parameter.
-/

namespace ProtoScript

namespace Lowering

/-- The parameters of a function, with the receiver if it is a method. -/
def functionParams (proto? : Option String) (f : FunctionDecl) : List Ir.Param :=
  (proto?.map fun p => ⟨"self", .named p⟩).toList ++ f.params.map fun p => ⟨p.name, p.ty⟩

/-- The builder at the start of a function. -/
def startOf (proto? : Option String) (f : FunctionDecl) : Builder where
  scopes := [f.params.map fun p => (p.name, p.name)]
  used := (functionParams proto? f).map (·.name)

/-- Writes the body of a function. The end of a function that returns a value is never reached. -/
def lowerBody (newInstance : String → Lower Ir.Temp) (f : FunctionDecl) : Lower Unit := do
  lowerStmts newInstance f.body
  endWith (if f.ret.isVoid then .retVoid else .unreachable)

/-- Lowers a function, or a method of the prototype `proto?`, following initial values up to `depth`
levels. -/
def lowerFunction (hierarchy : Hierarchy) (prototypes : List PrototypeDecl) (depth : Nat)
    (proto? : Option String) (f : FunctionDecl) : Except Error Ir.Function := do
  let name := (proto?.map (Ir.methodName · f.name)).getD f.name
  let context : Context := { function := name, hierarchy, prototypes }
  let (_, b) ← ((lowerBody (newInstance depth) f).run context).run (startOf proto? f)
  return { name, params := functionParams proto? f, ret := f.ret, blocks := b.blocks }

/-- The number of levels of initial values that suffices for a program: a level more would use the
initial value of some field within itself. -/
def depthBound (prototypes : List PrototypeDecl) : Nat :=
  total (prototypes.map fun d => d.fields.length) + 1

/-- The layouts of the prototypes. -/
def layouts (h : Hierarchy) : List Ir.Layout :=
  h.prototypes.map fun p =>
    { name := p.name
      id := (h.number? p.name).getD 0
      parent := p.parent
      fields := (h.layout p.name).map fun f => ⟨f.name, f.ty⟩ }

/-- The functions of a declaration. -/
def lowerDecl (hierarchy : Hierarchy) (prototypes : List PrototypeDecl) :
    Decl → Except Error (List Ir.Function)
  | .function f => do
    return [← lowerFunction hierarchy prototypes (depthBound prototypes) none f]
  | .prototype d =>
    if hierarchy.accepts d then
      d.methods.mapM fun m =>
        lowerFunction hierarchy prototypes (depthBound prototypes) (some d.name) m.function
    else return []
  | .group _ => return []

end Lowering

/-- The module of a checked program. -/
def Program.lower (p : Program) (hierarchy : Hierarchy) (moduleName : String) :
    Except Lowering.Error Ir.Module := do
  let functions ← p.decls.mapM (Lowering.lowerDecl hierarchy p.prototypes)
  return { name := moduleName, functions := functions.flatten, layouts := Lowering.layouts hierarchy }

end ProtoScript
