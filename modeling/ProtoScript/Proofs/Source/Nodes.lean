import ProtoScript.Source.Expr
import ProtoScript.Source.Program

set_option autoImplicit false

/-!
# Parts of expressions and programs

What is claimed of all parts of an expression or of a program: of the names and receivers at the leaves of an
expression, and of all expressions that stand somewhere in a program.
-/

namespace ProtoScript

/-!
## Names in an expression

The names and receivers that an expression looks at are its leaves. What is claimed of all of them
(`Expr.Leaves`) is claimed of every part of the expression.
-/

mutual

/-- All names and receivers in the expression have the property. -/
def Expr.Leaves (p : Expr → Prop) : Expr → Prop
  | .literal .. => True
  | .ident n x => p (.ident n x)
  | .self n => p (.self n)
  | .unary _ _ e | .cast _ e _ | .member _ e _ => e.Leaves p
  | .binary _ _ a b | .index _ a b => a.Leaves p ∧ b.Leaves p
  | .ternary _ e a b => e.Leaves p ∧ a.Leaves p ∧ b.Leaves p
  | .call _ _ args => AllLeaves p args
  | .methodCall _ e _ args => e.Leaves p ∧ AllLeaves p args
  | .list _ items => AllLeaves p items
  | .map _ entries => EntryLeaves p entries

/-- All names in the expressions have the property. -/
def AllLeaves (p : Expr → Prop) : List Expr → Prop
  | [] => True
  | e :: rest => e.Leaves p ∧ AllLeaves p rest

/-- All names in the keys and values have the property. -/
def EntryLeaves (p : Expr → Prop) : List (Expr × Expr) → Prop
  | [] => True
  | (k, v) :: rest => k.Leaves p ∧ v.Leaves p ∧ EntryLeaves p rest

end

mutual

theorem Expr.Leaves.mono {p q : Expr → Prop} (hpq : ∀ e, p e → q e) : {e : Expr} → e.Leaves p → e.Leaves q
  | .literal .., _ => trivial
  | .ident .., h | .self _, h => hpq _ h
  | .unary _ _ e, h | .cast _ e _, h | .member _ e _, h => Expr.Leaves.mono hpq (e := e) h
  | .binary _ _ a b, h | .index _ a b, h =>
      ⟨Expr.Leaves.mono hpq (e := a) h.1, Expr.Leaves.mono hpq (e := b) h.2⟩
  | .ternary _ e a b, h =>
      ⟨Expr.Leaves.mono hpq (e := e) h.1, Expr.Leaves.mono hpq (e := a) h.2.1,
        Expr.Leaves.mono hpq (e := b) h.2.2⟩
  | .call _ _ args, h => AllLeaves.mono hpq (l := args) h
  | .methodCall _ e _ args, h => ⟨Expr.Leaves.mono hpq (e := e) h.1, AllLeaves.mono hpq (l := args) h.2⟩
  | .list _ items, h => AllLeaves.mono hpq (l := items) h
  | .map _ entries, h => EntryLeaves.mono hpq (l := entries) h

theorem AllLeaves.mono {p q : Expr → Prop} (hpq : ∀ e, p e → q e) :
    {l : List Expr} → AllLeaves p l → AllLeaves q l
  | [], _ => trivial
  | _ :: _, h => ⟨Expr.Leaves.mono hpq h.1, AllLeaves.mono hpq h.2⟩

theorem EntryLeaves.mono {p q : Expr → Prop} (hpq : ∀ e, p e → q e) :
    {l : List (Expr × Expr)} → EntryLeaves p l → EntryLeaves q l
  | [], _ => trivial
  | (_, _) :: _, h =>
      ⟨Expr.Leaves.mono hpq h.1, Expr.Leaves.mono hpq h.2.1, EntryLeaves.mono hpq h.2.2⟩

end

mutual

/-- What holds of all expressions holds of all leaves. -/
theorem Expr.leaves_of_forall {p : Expr → Prop} (hp : ∀ e, p e) : (e : Expr) → e.Leaves p
  | .literal .. => trivial
  | .ident .. | .self _ => hp _
  | .unary _ _ e | .cast _ e _ | .member _ e _ => Expr.leaves_of_forall hp e
  | .binary _ _ a b | .index _ a b => ⟨Expr.leaves_of_forall hp a, Expr.leaves_of_forall hp b⟩
  | .ternary _ e a b =>
      ⟨Expr.leaves_of_forall hp e, Expr.leaves_of_forall hp a, Expr.leaves_of_forall hp b⟩
  | .call _ _ args => allLeaves_of_forall hp args
  | .methodCall _ e _ args => ⟨Expr.leaves_of_forall hp e, allLeaves_of_forall hp args⟩
  | .list _ items => allLeaves_of_forall hp items
  | .map _ entries => entryLeaves_of_forall hp entries

theorem allLeaves_of_forall {p : Expr → Prop} (hp : ∀ e, p e) : (es : List Expr) → AllLeaves p es
  | [] => trivial
  | e :: rest => ⟨Expr.leaves_of_forall hp e, allLeaves_of_forall hp rest⟩

theorem entryLeaves_of_forall {p : Expr → Prop} (hp : ∀ e, p e) :
    (es : List (Expr × Expr)) → EntryLeaves p es
  | [] => trivial
  | (k, v) :: rest =>
      ⟨Expr.leaves_of_forall hp k, Expr.leaves_of_forall hp v, entryLeaves_of_forall hp rest⟩

end

/-!
## The nodes of a program

All expressions that stand somewhere in a program, parts of expressions included. What is claimed of every node is
claimed of the members of these lists.
-/

mutual

/-- The expression and all its parts. -/
def Expr.nodes : Expr → List Expr
  | .literal n v => [.literal n v]
  | .ident n x => [.ident n x]
  | .self n => [.self n]
  | .unary n op e => .unary n op e :: e.nodes
  | .binary n op l r => .binary n op l r :: (l.nodes ++ r.nodes)
  | .ternary n c a b => .ternary n c a b :: (c.nodes ++ (a.nodes ++ b.nodes))
  | .call n callee args => .call n callee args :: allNodes args
  | .methodCall n e method args => .methodCall n e method args :: (e.nodes ++ allNodes args)
  | .member n e x => .member n e x :: e.nodes
  | .index n e i => .index n e i :: (e.nodes ++ i.nodes)
  | .cast n e ty => .cast n e ty :: e.nodes
  | .list n items => .list n items :: allNodes items
  | .map n entries => .map n entries :: entryNodes entries

/-- The nodes of expressions. -/
def allNodes : List Expr → List Expr
  | [] => []
  | e :: rest => e.nodes ++ allNodes rest

/-- The nodes of keys and values. -/
def entryNodes : List (Expr × Expr) → List Expr
  | [] => []
  | (k, v) :: rest => k.nodes ++ (v.nodes ++ entryNodes rest)

end

/-- The nodes of an expression that may be missing. -/
def nodes? : Option Expr → List Expr
  | none => []
  | some e => e.nodes

mutual

/-- The nodes of the expressions in a statement. -/
def Stmt.nodes : Stmt → List Expr
  | .varDecl _ _ _ _ init => nodes? init
  | .assign _ target _ value => target.nodes ++ value.nodes
  | .expr _ e | .throw _ e => e.nodes
  | .ifThen _ c body | .while _ c body | .doWhile _ body c | .forEach _ _ _ _ c body =>
    c.nodes ++ stmtNodes body
  | .ifElse _ c a b => c.nodes ++ (stmtNodes a ++ stmtNodes b)
  | .for _ init c update body => stmtNodes? init ++ (nodes? c ++ (stmtNodes? update ++ stmtNodes body))
  | .switch _ value arms => value.nodes ++ armNodes arms
  | .break _ | .continue _ => []
  | .ret _ value => nodes? value
  | .try _ body clauses => stmtNodes body ++ clauseNodes clauses
  | .block _ body => stmtNodes body

/-- The nodes in statements. -/
def stmtNodes : List Stmt → List Expr
  | [] => []
  | stmt :: rest => stmt.nodes ++ stmtNodes rest

/-- The nodes in a statement that may be missing. -/
def stmtNodes? : Option Stmt → List Expr
  | none => []
  | some stmt => stmt.nodes

/-- The nodes in the arms of a switch. -/
def armNodes : List SwitchArm → List Expr
  | [] => []
  | .mk _ test body _ :: rest => nodes? test ++ (stmtNodes body ++ armNodes rest)

/-- The nodes in catch clauses. -/
def clauseNodes : List CatchClause → List Expr
  | [] => []
  | .mk _ _ _ body :: rest => stmtNodes body ++ clauseNodes rest

end

/-- The nodes in the initial values and methods of a prototype. -/
def PrototypeDecl.nodes (d : PrototypeDecl) : List Expr :=
  d.fields.flatMap (fun f => nodes? f.init) ++ d.methods.flatMap fun m => stmtNodes m.function.body

/-- The nodes in a declaration. -/
def Decl.nodes : Decl → List Expr
  | .function f => stmtNodes f.body
  | .prototype d => d.nodes
  | .group g => g.members.flatMap fun m => m.value.nodes

/-- The nodes in a program. -/
def Program.nodes (p : Program) : List Expr := p.decls.flatMap Decl.nodes

end ProtoScript
