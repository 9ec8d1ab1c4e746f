import ProtoScript.Constant.Evaluate
import ProtoScript.Diagnostic.Problem
import ProtoScript.Source.Program
import ProtoScript.Text.Suggest

set_option autoImplicit false

/-!
# Groups

A group names constants of one scalar type. Its members are evaluated in order: each sees the
members before it, by their bare and their qualified names, and the members of the groups before,
by their qualified names.
-/

namespace ProtoScript

/-- A group with the values of its members. -/
structure Group where
  name : String
  base : Ty
  members : List (String × Constant)

namespace Group

/-- The value of a member. -/
def member? (g : Group) (name : String) : Option Constant := g.members.lookup name

/-- The names of the members. -/
def memberNames (g : Group) : List String := g.members.map (·.1)

/-- A value as one of the base type: an `int` in range can be a `byte`. -/
def coerce? (base : Ty) (value : Constant) : Option Constant :=
  match base, value with
  | .prim .byte, .int v => (Constant.fitByte? v.toInt).map .byte
  | _, _ => if value.ty = base then some value else none

/-- What is wrong with a member value that is not one of the base type. -/
def coerceProblem (group member : String) (base : Ty) (value : Constant) : Problem :=
  match base, value with
  | .prim .byte, .int _ => .groupByteRange value group member
  | _, _ => .groupMemberType group member value.ty base

/-- The state while a group is evaluated: the names met, the members kept and what they can refer
to. -/
structure Partial where
  seen : List String := []
  members : List (String × Constant) := []
  env : ConstEnv

/-- Keeps a member. -/
def Partial.keep (p : Partial) (group member : String) (value : Constant) : Partial :=
  { p with
    members := p.members ++ [(member, value)]
    env := (p.env.insert member value).insert (qualified group member) value }

/-- Evaluates one member of a group; a member that is not kept is reported. -/
def Partial.add (file : String) (d : GroupDecl) (p : Partial) (m : GroupMemberDecl) :
    Partial × List Diagnostic :=
  if m.name ∈ p.seen then
    (p, [(Problem.duplicateGroupMember d.name m.name).diagnose file m.span])
  else
    let p := { p with seen := m.name :: p.seen }
    match m.value.evaluate? p.env with
    | none =>
      let found := (Problem.groupNotConstant d.name m.name).diagnose file m.value.span
      match m.value.ident? with
      | some name => (p, [found.withSuggestions (suggest name (p.members.map (·.1)))])
      | none => (p, [found])
    | some value =>
      if d.base.isScalar then
        match coerce? d.base value with
        | some v => (p.keep d.name m.name v, [])
        | none =>
          (p, [(coerceProblem d.name m.name d.base value).diagnose file m.value.span])
      else (p.keep d.name m.name value, [])

/-- Evaluates members in order. -/
def Partial.addAll (file : String) (d : GroupDecl) :
    Partial → List GroupMemberDecl → Partial × List Diagnostic
  | p, [] => (p, [])
  | p, m :: rest =>
    let (p, found) := p.add file d m
    let (p, more) := Partial.addAll file d p rest
    (p, found ++ more)

/-- The group of a declaration. -/
def ofDecl (file : String) (env : ConstEnv) (d : GroupDecl) : Group × List Diagnostic :=
  let base := if d.base.isScalar then []
    else [(Problem.groupBase d.name d.base).diagnose file d.span]
  let (p, found) := Partial.addAll file d { env } d.members
  (⟨d.name, d.base, p.members⟩, base ++ found)

end Group

/-- The groups of a program, in order. -/
structure GroupTable where
  groups : List Group := []
  deriving Inhabited

namespace GroupTable

def get? (t : GroupTable) (name : String) : Option Group := t.groups.find? fun g => g.name == name

/-- There is a group of the given name. -/
def contains (t : GroupTable) (name : String) : Bool := (t.get? name).isSome

/-- The names of the groups. -/
def names (t : GroupTable) : List String := t.groups.map (·.name)

/-- Takes in group declarations in order; the first of one name counts. -/
def addAll (file : String) :
    GroupTable → ConstEnv → List GroupDecl → GroupTable × ConstEnv × List Diagnostic
  | t, env, [] => (t, env, [])
  | t, env, d :: rest =>
    if t.contains d.name then
      let (t, env, more) := addAll file t env rest
      (t, env, (Problem.duplicateGroup d.name).diagnose file d.span :: more)
    else
      let (g, found) := Group.ofDecl file env d
      let env := g.members.foldl (fun env (m, v) => env.insert (qualified g.name m) v) env
      let (t, env, more) := addAll file ⟨t.groups ++ [g]⟩ env rest
      (t, env, found ++ more)

end GroupTable

/-- The groups of a program, the constants visible behind them, and what is wrong with the
groups. -/
def Program.groupTable (p : Program) (env : ConstEnv) : GroupTable × ConstEnv × List Diagnostic :=
  GroupTable.addAll p.file {} env p.groups

end ProtoScript
