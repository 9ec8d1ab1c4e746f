import ProtoScript.Source.Stmt

set_option autoImplicit false

/-!
# Programs

A program is a list of imports and a list of declarations: functions, prototypes and groups of
constants.
-/

namespace ProtoScript

/-- Who may use a member. -/
inductive Visibility where
  | everyone
  /-- The declaring prototype and those below it. -/
  | family
  deriving DecidableEq, Repr, Inhabited

/-- The word for a visibility. -/
def Visibility.word : Visibility → String
  | everyone => "public"
  | family => "internal"

/-- A parameter of a function. -/
structure Param where
  name : String
  ty : Ty
  span : Span := Span.origin
  deriving Repr, Inhabited

/-- A function or method. -/
structure FunctionDecl where
  name : String
  params : List Param
  ret : Ty
  body : List Stmt
  span : Span := Span.origin

/-- A field of a prototype. -/
structure FieldDecl where
  name : String
  ty : Ty
  isConst : Bool
  init : Option Expr
  visibility : Visibility
  span : Span := Span.origin

/-- A method of a prototype. -/
structure MethodDecl where
  visibility : Visibility
  function : FunctionDecl

/-- A prototype. -/
structure PrototypeDecl where
  name : String
  parent : Option String
  isSealed : Bool
  fields : List FieldDecl
  methods : List MethodDecl
  span : Span := Span.origin

/-- A member of a group. -/
structure GroupMemberDecl where
  name : String
  value : Expr
  span : Span := Span.origin

/-- A group: named constants of one scalar type. -/
structure GroupDecl where
  name : String
  base : Ty
  members : List GroupMemberDecl
  span : Span := Span.origin

/-- A declaration at the top of a program. -/
inductive Decl where
  | function (decl : FunctionDecl)
  | prototype (decl : PrototypeDecl)
  | group (decl : GroupDecl)

/-- What an import makes visible. -/
inductive ImportForm where
  /-- The module under its own name. -/
  | whole
  /-- The module under another name. -/
  | renamed (visible : String)
  /-- Single members. -/
  | members (names : List String)
  deriving Repr

/-- An import of a module. -/
structure Import where
  module : String
  form : ImportForm
  span : Span := Span.origin
  deriving Repr

/-- A program. -/
structure Program where
  file : String
  imports : List Import
  decls : List Decl

namespace Program

/-- The functions of a program, in order. -/
def functions (p : Program) : List FunctionDecl :=
  p.decls.filterMap fun
    | .function f => some f
    | _ => none

/-- The prototypes of a program, in order. -/
def prototypes (p : Program) : List PrototypeDecl :=
  p.decls.filterMap fun
    | .prototype d => some d
    | _ => none

/-- The groups of a program, in order. -/
def groups (p : Program) : List GroupDecl :=
  p.decls.filterMap fun
    | .group g => some g
    | _ => none

end Program

end ProtoScript
