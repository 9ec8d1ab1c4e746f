import ProtoScript.Diagnostic.Problem
import ProtoScript.Hierarchy.Basic

set_option autoImplicit false

/-!
# Building the hierarchy of a program

The declarations are taken in four rounds: registration, in which the first of several
declarations of one name counts; resolution of parents, in which an unknown parent becomes the
root; breaking of cycles, each at the first of its prototypes; and the comparison of each
prototype with what it inherits. Every round reports what it finds, and the result is a tree
whatever was found.
-/

namespace ProtoScript

/-- Parts a list into the first item of each name and those that repeat a name, where the names of
`taken` count as met before. -/
def firstOfEachName {α : Type} (name : α → String) (taken : List String) :
    List α → List α × List α
  | [] => ([], [])
  | a :: rest =>
    if name a ∈ taken then
      let (kept, repeated) := firstOfEachName name taken rest
      (kept, a :: repeated)
    else
      let (kept, repeated) := firstOfEachName name (name a :: taken) rest
      (a :: kept, repeated)

/-! ## Registration -/

namespace PrototypeDecl

/-- The fields that count, and those that repeat a name. -/
def splitFields (d : PrototypeDecl) : List FieldDecl × List FieldDecl :=
  firstOfEachName FieldDecl.name [] d.fields

/-- The methods that count, and those that repeat the name of a field or method. -/
def splitMethods (d : PrototypeDecl) : List MethodDecl × List MethodDecl :=
  firstOfEachName (·.function.name) (d.splitFields.1.map FieldDecl.name) d.methods

/-- The prototype of a declaration; without a parent it stands below the root. -/
def toPrototype (d : PrototypeDecl) : Prototype where
  name := d.name
  parent := some (d.parent.getD Builtin.object)
  isSealed := d.isSealed
  isBuiltin := false
  fields := d.splitFields.1.map fun f =>
    ⟨f.name, f.ty, f.isConst, f.init.isSome, f.visibility, d.name⟩
  methods := d.splitMethods.1.map fun m =>
    ⟨m.function.name, m.function.params.map (·.ty), m.function.ret, m.visibility, d.name⟩
  span := d.span

/-- A diagnostic for each member that repeats a name. -/
def repeatedMembers (file : String) (d : PrototypeDecl) : List Diagnostic :=
  d.splitFields.2.map (fun f => (Problem.duplicateMember f.name d.name).diagnose file f.span) ++
    d.splitMethods.2.map fun m =>
      (Problem.duplicateMember m.function.name d.name).diagnose file m.function.span

end PrototypeDecl

namespace Hierarchy

/-- Registers a declaration, unless its name is taken. -/
def register (file : String) (h : Hierarchy) (d : PrototypeDecl) : Hierarchy × List Diagnostic :=
  if (Builtin.prototype? d.name).isSome then
    (h, [(Problem.builtinRedeclared d.name).diagnose file d.span])
  else if h.contains d.name then
    (h, [(Problem.duplicatePrototype d.name).diagnose file d.span])
  else
    (⟨h.prototypes ++ [d.toPrototype]⟩, d.repeatedMembers file)

/-- Registers declarations in order. -/
def registerAll (file : String) : Hierarchy → List PrototypeDecl → Hierarchy × List Diagnostic
  | h, [] => (h, [])
  | h, d :: rest =>
    let (h, found) := h.register file d
    let (h, more) := registerAll file h rest
    (h, found ++ more)

/-! ## Parents and cycles -/

/-- The hierarchy with the prototype `name` moved below the root. -/
def moveBelowRoot (h : Hierarchy) (name : String) : Hierarchy :=
  ⟨h.prototypes.map fun p => if p.name = name then { p with parent := some Builtin.object } else p⟩

/-- What is wrong with the parent of a prototype. -/
def parentProblem? (h : Hierarchy) (p : Prototype) : Option Problem :=
  match p.parent with
  | none => none
  | some parent =>
    match h.get? parent with
    | none => some (.unknownParent p.name parent)
    | some q => if q.isSealed then some (.sealedParent p.name parent) else none

/-- Every parent that is not registered becomes the root; a sealed parent stays. -/
def resolveParents (file : String) (h : Hierarchy) : Hierarchy × List Diagnostic :=
  let found := h.declared.filterMap fun p =>
    (h.parentProblem? p).map fun problem => problem.diagnose file p.span
  (⟨h.prototypes.map fun p =>
      if !p.isBuiltin && p.parent.any (fun q => !h.contains q) then
        { p with parent := some Builtin.object }
      else p⟩,
    found)

/-- The ancestors of the prototype lead back to it. -/
def isCyclic (h : Hierarchy) (p : Prototype) : Bool :=
  p.parent.any fun parent => h.isSubtype parent p.name

/-- Goes through prototypes and moves each one that is on a cycle below the root. -/
def breakCycles (file : String) : Hierarchy → List Prototype → Hierarchy × List Diagnostic
  | h, [] => (h, [])
  | h, p :: rest =>
    if h.isCyclic p then
      let (h, found) := breakCycles file (h.moveBelowRoot p.name) rest
      (h, (Problem.inheritanceCycle p.name).diagnose file p.span :: found)
    else breakCycles file h rest

/-! ## Inherited members -/

/-- A method may replace an inherited one: the parameters agree, and so does the result, except that
`clone` may give a more specific one. -/
def overrides (h : Hierarchy) (m base : MethodInfo) : Bool :=
  m.params == base.params &&
    if m.name = "clone" then h.isAssignable m.ret base.ret else m.ret == base.ret

/-- What is wrong with a method that replaces `base`. -/
def overrideProblems (h : Hierarchy) (proto : String) (m base : MethodInfo) : List Problem :=
  (if base.visibility = .everyone ∧ m.visibility = .family then
      [.overrideNarrows proto m.name base.owner]
    else []) ++
  (if h.overrides m base then [] else [.overrideSignature proto m.name base.owner])

/-- What is wrong between a prototype and its ancestors. -/
def inheritanceProblems (h : Hierarchy) (p : Prototype) : List Problem :=
  match p.parent with
  | none => []
  | some parent =>
    p.fields.filterMap (fun f =>
        (h.field? parent f.name).map fun base => .fieldShadows f.name p.name base.owner) ++
      p.methods.flatMap fun m =>
        ((h.method? parent m.name).map (h.overrideProblems p.name m)).getD []

/-- The hierarchy of a program's prototypes, and what is wrong with their declarations. -/
def build (file : String) (decls : List PrototypeDecl) : Hierarchy × List Diagnostic :=
  let (h, registered) := registerAll file builtins decls
  let (h, parents) := h.resolveParents file
  let (h, cycles) := breakCycles file h h.declared
  let inherited := h.declared.flatMap fun p =>
    (h.inheritanceProblems p).map fun problem => problem.diagnose file p.span
  (h, registered ++ parents ++ cycles ++ inherited)

end Hierarchy

/-- The hierarchy of a program. -/
def Program.hierarchy (p : Program) : Hierarchy × List Diagnostic :=
  Hierarchy.build p.file p.prototypes

end ProtoScript
