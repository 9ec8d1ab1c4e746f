import ProtoScript.Source.Expr

set_option autoImplicit false

/-!
# Statements

The statements of function bodies, and the tests whether a body surely leaves by a jump, and whether
it surely leaves the function.
-/

namespace ProtoScript

/-- What a loop over a container visits. -/
inductive IterKind where
  | values
  /-- The keys of a map, the positions of anything else. -/
  | keys
  deriving DecidableEq, Repr, Inhabited

/-- The word for what a loop visits. -/
def IterKind.word : IterKind → String
  | values => "values"
  | keys => "keys"

/-- What the given word says a loop visits. -/
def IterKind.ofWord? : String → Option IterKind
  | "values" => some values
  | "keys" => some keys
  | _ => none

mutual

/-- A statement. -/
inductive Stmt where
  | varDecl (span : Span) (name : String) (ty : Ty) (isConst : Bool) (init : Option Expr)
  /-- An assignment, plain or with an operator; the target is a name, a member or an index. -/
  | assign (span : Span) (target : Expr) (op : Option BinaryOp) (value : Expr)
  | expr (span : Span) (value : Expr)
  | ifThen (span : Span) (condition : Expr) (body : List Stmt)
  | ifElse (span : Span) (condition : Expr) (thenBody elseBody : List Stmt)
  | while (span : Span) (condition : Expr) (body : List Stmt)
  | doWhile (span : Span) (body : List Stmt) (condition : Expr)
  | for (span : Span) (init : Option Stmt) (condition : Option Expr) (update : Option Stmt)
    (body : List Stmt)
  /-- A loop over a container; without a declared type the variable has that of what it visits. -/
  | forEach (span : Span) (kind : IterKind) (ty : Option Ty) (name : String) (iterable : Expr)
    (body : List Stmt)
  | switch (span : Span) (value : Expr) (arms : List SwitchArm)
  | break (span : Span)
  | continue (span : Span)
  | ret (span : Span) (value : Option Expr)
  | throw (span : Span) (value : Expr)
  | try (span : Span) (body : List Stmt) (clauses : List CatchClause)
  | block (span : Span) (body : List Stmt)

/-- An arm of a switch; the default arm has no test. -/
inductive SwitchArm where
  | mk (span : Span) (test : Option Expr) (body : List Stmt) (fallsThrough : Bool)

/-- A clause that catches the instances of a prototype. -/
inductive CatchClause where
  | mk (span : Span) (proto binding : String) (body : List Stmt)

end

namespace SwitchArm

def span : SwitchArm → Span
  | mk s _ _ _ => s

def test : SwitchArm → Option Expr
  | mk _ t _ _ => t

def body : SwitchArm → List Stmt
  | mk _ _ b _ => b

def fallsThrough : SwitchArm → Bool
  | mk _ _ _ f => f

end SwitchArm

namespace CatchClause

def span : CatchClause → Span
  | mk s _ _ _ => s

def proto : CatchClause → String
  | mk _ p _ _ => p

def binding : CatchClause → String
  | mk _ _ b _ => b

def body : CatchClause → List Stmt
  | mk _ _ _ b => b

end CatchClause

/-- Where a statement stands. -/
def Stmt.span : Stmt → Span
  | varDecl s .. | assign s .. | expr s _ | ifThen s .. | ifElse s .. | .while s .. | doWhile s ..
  | .for s .. | forEach s .. | switch s .. | .break s | .continue s | ret s _ | .throw s _
  | .try s .. | block s _ => s

mutual

/-- The statement surely transfers control: a jump, a block that ends in one, or a choice both of
whose arms do. -/
def Stmt.isJump : Stmt → Bool
  | .break _ | .continue _ | .ret _ _ | .throw _ _ => true
  | .block _ body => endsInJump body
  | .ifElse _ _ thenBody elseBody => endsInJump thenBody && endsInJump elseBody
  | _ => false

/-- The last of the statements surely transfers control. -/
def endsInJump : List Stmt → Bool
  | [] => false
  | [s] => s.isJump
  | _ :: s :: rest => endsInJump (s :: rest)

end

mutual

/-- The statement surely leaves the function. -/
def Stmt.leaves : Stmt → Bool
  | .ret _ _ | .throw _ _ => true
  | .block _ body => alwaysLeaves body
  | .ifElse _ _ thenBody elseBody => alwaysLeaves thenBody && alwaysLeaves elseBody
  | .try _ body clauses => alwaysLeaves body && clausesLeave clauses
  | .switch _ _ arms => (arms.any fun arm => arm.test.isNone) && armsLeave arms
  | _ => false

/-- The last of the statements surely leaves the function. -/
def alwaysLeaves : List Stmt → Bool
  | [] => false
  | [s] => s.leaves
  | _ :: s :: rest => alwaysLeaves (s :: rest)

/-- Every arm leaves the function or goes on with the next. -/
def armsLeave : List SwitchArm → Bool
  | [] => true
  | .mk _ _ body fallsThrough :: rest => (fallsThrough || alwaysLeaves body) && armsLeave rest

/-- Every clause leaves the function. -/
def clausesLeave : List CatchClause → Bool
  | [] => true
  | .mk _ _ _ body :: rest => alwaysLeaves body && clausesLeave rest

end

end ProtoScript
