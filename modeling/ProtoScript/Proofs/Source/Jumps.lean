import ProtoScript.Proofs.Source.Nodes
import ProtoScript.Source.Program

set_option autoImplicit false

/-!
# Where jumps lead

A switch counts as leaving the function if it has a default arm and every arm leaves the function or falls
through. That is not enough to keep control from coming behind it: an arm may break, and the last arm may fall
through. A sealed statement has no such switch where it matters (`Stmt.isSealed`).

The checker follows the statements of a body in their order, and takes what is known at the end of a part for
what is known wherever control leaves the part. A jump may leave earlier, and pass by an assignment that the
checker counts on. That matters for variables declared without a value (`lateIn`). In an orderly body no jump
does so: where control can leave the body of a `do` loop or an arm of a switch before its end, or go from
the middle of a loop to its step, there is no assignment to such a variable to pass by
(`Stmt.isOrderly`).
-/

namespace ProtoScript

/-! ## Switches that cannot be left -/

mutual

/-- A `break` may leave the statement. Loops and switches take those of their bodies; the first statement and
the step of a `for` loop are not in its body. -/
def Stmt.breaks : Stmt → Bool
  | .break _ => true
  | .block _ body | .ifThen _ _ body => anyBreaks body
  | .ifElse _ _ a b => anyBreaks a || anyBreaks b
  | .for _ init _ update _ => breaks? init || breaks? update
  | .try _ body clauses => anyBreaks body || clausesBreak clauses
  | _ => false

/-- A `break` may leave one of the statements. -/
def anyBreaks : List Stmt → Bool
  | [] => false
  | s :: rest => s.breaks || anyBreaks rest

/-- A `break` may leave the statement, if there is one. -/
def breaks? : Option Stmt → Bool
  | none => false
  | some s => s.breaks

/-- A `break` may leave one of the clauses. -/
def clausesBreak : List CatchClause → Bool
  | [] => false
  | .mk _ _ _ body :: rest => anyBreaks body || clausesBreak rest

end

mutual

/-- Wherever the statement counts as leaving the function because of a switch, control does not come behind
the switch. -/
def Stmt.isSealed : Stmt → Bool
  | .block _ body => lastSealed body
  | .ifElse _ _ a b => lastSealed a && lastSealed b
  | .try _ body clauses => lastSealed body && clausesSealed clauses
  | .switch _ _ arms => armsSealed arms
  | _ => true

/-- The last of the statements is sealed. -/
def lastSealed : List Stmt → Bool
  | [] => true
  | [s] => s.isSealed
  | _ :: s :: rest => lastSealed (s :: rest)

/-- No arm breaks, the last does not fall through, and the bodies that are left at their end are sealed. -/
def armsSealed : List SwitchArm → Bool
  | [] => true
  | .mk _ _ body falls :: rest =>
    !anyBreaks body && (if falls then !rest.isEmpty else lastSealed body) && armsSealed rest

/-- The bodies of all clauses are sealed. -/
def clausesSealed : List CatchClause → Bool
  | [] => true
  | .mk _ _ _ body :: rest => lastSealed body && clausesSealed rest

end

/-- Control never comes behind the statement: it surely leaves the function, and is sealed. -/
def Stmt.isFinal (s : Stmt) : Bool := s.leaves && s.isSealed

/-- Control never comes behind the statements. -/
def areFinal (body : List Stmt) : Bool := alwaysLeaves body && lastSealed body

theorem areFinal_cons (s : Stmt) (rest : List Stmt) :
    areFinal (s :: rest) = if rest.isEmpty then s.isFinal else areFinal rest := by
  cases rest with
  | nil => rfl
  | cons t rest => rfl

theorem isFinal_ifElse (sp : Span) (e : Expr) (a b : List Stmt) :
    (Stmt.ifElse sp e a b).isFinal = (areFinal a && areFinal b) := by
  simp only [Stmt.isFinal, Stmt.leaves, Stmt.isSealed, areFinal]
  ac_rfl

/-- Control never comes to the end of a clause. -/
def clausesFinal (clauses : List CatchClause) : Bool := clausesLeave clauses && clausesSealed clauses

theorem clausesFinal_cons (sp : Span) (proto x : String) (body : List Stmt) (rest : List CatchClause) :
    clausesFinal (.mk sp proto x body :: rest) = (areFinal body && clausesFinal rest) := by
  simp only [clausesFinal, clausesLeave, clausesSealed, areFinal]
  ac_rfl

theorem isFinal_try (sp : Span) (body : List Stmt) (clauses : List CatchClause) :
    (Stmt.try sp body clauses).isFinal = (areFinal body && clausesFinal clauses) := by
  simp only [Stmt.isFinal, Stmt.leaves, Stmt.isSealed, areFinal, clausesFinal]
  ac_rfl

/-- Control never comes behind the arms. -/
def armsFinal (arms : List SwitchArm) : Bool := armsLeave arms && armsSealed arms

theorem armsFinal_cons (sp : Span) (test : Option Expr) (body : List Stmt) (falls : Bool)
    (rest : List SwitchArm) : armsFinal (.mk sp test body falls :: rest) =
      (!anyBreaks body && (if falls then !rest.isEmpty else areFinal body) && armsFinal rest) := by
  simp only [armsFinal, armsLeave, armsSealed, areFinal]
  cases falls with
  | true =>
      rw [Bool.true_or, Bool.true_and, if_pos rfl, if_pos rfl]
      ac_rfl
  | false =>
      rw [Bool.false_or, if_neg Bool.false_ne_true, if_neg Bool.false_ne_true]
      ac_rfl

theorem isFinal_switch (sp : Span) (e : Expr) (arms : List SwitchArm) :
    (Stmt.switch sp e arms).isFinal = ((arms.any fun arm => arm.test.isNone) && armsFinal arms) := by
  simp only [Stmt.isFinal, Stmt.leaves, Stmt.isSealed, armsFinal]
  ac_rfl

/-! ## Names in expressions -/

mutual

/-- The names in the expression. -/
def Expr.names : Expr → List String
  | .literal .. | .self _ => []
  | .ident _ x => [x]
  | .unary _ _ e | .cast _ e _ | .member _ e _ => e.names
  | .binary _ _ a b | .index _ a b => a.names ++ b.names
  | .ternary _ e a b => e.names ++ a.names ++ b.names
  | .call _ _ args => allNames args
  | .methodCall _ e _ args => e.names ++ allNames args
  | .list _ items => allNames items
  | .map _ entries => entryNames entries

/-- The names in the expressions. -/
def allNames : List Expr → List String
  | [] => []
  | e :: rest => e.names ++ allNames rest

/-- The names in the keys and values. -/
def entryNames : List (Expr × Expr) → List String
  | [] => []
  | (k, v) :: rest => k.names ++ v.names ++ entryNames rest

end

section

variable {p q : Expr → Prop}

mutual

/-- What holds of the leaves of an expression may be strengthened by what holds of its names. -/
theorem Expr.Leaves.of_names : (e : Expr) → (∀ n x, x ∈ e.names → p (.ident n x) → q (.ident n x)) →
    (∀ n, p (.self n) → q (.self n)) → e.Leaves p → e.Leaves q
  | .literal .., _, _, _ => trivial
  | .ident n x, hident, _, h => hident n x List.mem_cons_self h
  | .self n, _, hself, h => hself n h
  | .unary _ _ e, hident, hself, h | .cast _ e _, hident, hself, h | .member _ e _, hident, hself, h =>
      Expr.Leaves.of_names e hident hself h
  | .binary _ _ a b, hident, hself, h | .index _ a b, hident, hself, h =>
      ⟨Expr.Leaves.of_names a (fun n x hx => hident n x (List.mem_append_left _ hx)) hself h.1,
        Expr.Leaves.of_names b (fun n x hx => hident n x (List.mem_append_right _ hx)) hself h.2⟩
  | .ternary _ e a b, hident, hself, h =>
      ⟨Expr.Leaves.of_names e
          (fun n x hx => hident n x (List.mem_append_left _ (List.mem_append_left _ hx))) hself h.1,
        Expr.Leaves.of_names a
          (fun n x hx => hident n x (List.mem_append_left _ (List.mem_append_right _ hx))) hself h.2.1,
        Expr.Leaves.of_names b (fun n x hx => hident n x (List.mem_append_right _ hx)) hself h.2.2⟩
  | .call _ _ args, hident, hself, h => AllLeaves.of_names args hident hself h
  | .methodCall _ e _ args, hident, hself, h =>
      ⟨Expr.Leaves.of_names e (fun n x hx => hident n x (List.mem_append_left _ hx)) hself h.1,
        AllLeaves.of_names args (fun n x hx => hident n x (List.mem_append_right _ hx)) hself h.2⟩
  | .list _ items, hident, hself, h => AllLeaves.of_names items hident hself h
  | .map _ entries, hident, hself, h => EntryLeaves.of_names entries hident hself h

theorem AllLeaves.of_names : (es : List Expr) → (∀ n x, x ∈ allNames es → p (.ident n x) → q (.ident n x)) →
    (∀ n, p (.self n) → q (.self n)) → AllLeaves p es → AllLeaves q es
  | [], _, _, _ => trivial
  | e :: rest, hident, hself, h =>
      ⟨Expr.Leaves.of_names e (fun n x hx => hident n x (List.mem_append_left _ hx)) hself h.1,
        AllLeaves.of_names rest (fun n x hx => hident n x (List.mem_append_right _ hx)) hself h.2⟩

theorem EntryLeaves.of_names : (entries : List (Expr × Expr)) →
    (∀ n x, x ∈ entryNames entries → p (.ident n x) → q (.ident n x)) → (∀ n, p (.self n) → q (.self n)) →
    EntryLeaves p entries → EntryLeaves q entries
  | [], _, _, _ => trivial
  | (k, v) :: rest, hident, hself, h =>
      ⟨Expr.Leaves.of_names k
          (fun n x hx => hident n x (List.mem_append_left _ (List.mem_append_left _ hx))) hself h.1,
        Expr.Leaves.of_names v
          (fun n x hx => hident n x (List.mem_append_left _ (List.mem_append_right _ hx))) hself h.2.1,
        EntryLeaves.of_names rest (fun n x hx => hident n x (List.mem_append_right _ hx)) hself h.2.2⟩

end

end

/-! ## Names in statements -/

mutual

/-- What is found in the simple statements that the statement consists of. -/
def Stmt.collect (find : Stmt → List String) : Stmt → List String
  | .ifThen _ _ body | .while _ _ body | .doWhile _ body _ | .forEach _ _ _ _ _ body | .block _ body =>
    collectAll find body
  | .ifElse _ _ a b => collectAll find a ++ collectAll find b
  | .for _ init _ update body => collect? find init ++ collectAll find body ++ collect? find update
  | .switch _ _ arms => armsCollect find arms
  | .try _ body clauses => collectAll find body ++ clausesCollect find clauses
  | s => find s

def collectAll (find : Stmt → List String) : List Stmt → List String
  | [] => []
  | s :: rest => s.collect find ++ collectAll find rest

def collect? (find : Stmt → List String) : Option Stmt → List String
  | none => []
  | some s => s.collect find

def armsCollect (find : Stmt → List String) : List SwitchArm → List String
  | [] => []
  | .mk _ _ body _ :: rest => collectAll find body ++ armsCollect find rest

def clausesCollect (find : Stmt → List String) : List CatchClause → List String
  | [] => []
  | .mk _ _ _ body :: rest => collectAll find body ++ clausesCollect find rest

end

/-- The name a simple statement assigns to. -/
def Stmt.assigns : Stmt → List String
  | .assign _ (.ident _ x) _ _ => [x]
  | _ => []

/-- The name a simple statement declares without a value. -/
def Stmt.leavesOpen : Stmt → List String
  | .varDecl _ x _ _ none => [x]
  | _ => []

/-- The names that are assigned to in the statements. -/
def assignedIn (body : List Stmt) : List String := collectAll Stmt.assigns body

/-- The names that are declared without a value in the statements. -/
def lateIn (body : List Stmt) : List String := collectAll Stmt.leavesOpen body

/-- The name a statement declares in the scope it stands in. -/
def Stmt.declared : Stmt → List String
  | .varDecl _ x _ _ _ => [x]
  | _ => []

/-- The names that are declared by the statements themselves, in the scope they stand in. -/
def declaredBy (body : List Stmt) : List String := body.flatMap Stmt.declared

/-! ## Orderly bodies -/

mutual

/-- A `continue` may leave the statement. Loops take those of their bodies. -/
def Stmt.continues : Stmt → Bool
  | .continue _ => true
  | .block _ body | .ifThen _ _ body => anyContinues body
  | .ifElse _ _ a b => anyContinues a || anyContinues b
  | .for _ init _ update _ => continues? init || continues? update
  | .switch _ _ arms => armsContinue arms
  | .try _ body clauses => anyContinues body || clausesContinue clauses
  | _ => false

/-- A `continue` may leave one of the statements. -/
def anyContinues : List Stmt → Bool
  | [] => false
  | s :: rest => s.continues || anyContinues rest

def continues? : Option Stmt → Bool
  | none => false
  | some s => s.continues

def armsContinue : List SwitchArm → Bool
  | [] => false
  | .mk _ _ body _ :: rest => anyContinues body || armsContinue rest

def clausesContinue : List CatchClause → Bool
  | [] => false
  | .mk _ _ _ body :: rest => anyContinues body || clausesContinue rest

end

/-- A `break` other than the last of the statements may leave them. -/
def breaksEarly : List Stmt → Bool
  | [] | [.break _] => false
  | s :: rest => s.breaks || breaksEarly rest

theorem breaksEarly_cons {st : Stmt} {rest : List Stmt} (h : rest ≠ [] ∨ ∀ sp, st ≠ .break sp) :
    breaksEarly (st :: rest) = (st.breaks || breaksEarly rest) := by
  rw [breaksEarly]
  rintro sp rfl rfl
  rcases h with h | h
  · exact h rfl
  · exact h sp rfl

theorem anyBreaks_of_breaksEarly {body : List Stmt} (h : breaksEarly body) : anyBreaks body := by
  induction body with
  | nil => cases h
  | cons st rest ih =>
      rw [anyBreaks, Bool.or_eq_true]
      have hcons : breaksEarly (st :: rest) = (st.breaks || breaksEarly rest) → st.breaks ∨ anyBreaks rest := by
        intro heq
        rw [heq, Bool.or_eq_true] at h
        exact h.imp_right ih
      cases rest with
      | cons t rest => exact hcons (breaksEarly_cons (.inl (by simp)))
      | nil =>
          cases st with
          | «break» sp => cases h
          | _ => exact hcons (breaksEarly_cons (.inr (by simp)))

/-- One of the late names is assigned to in the statements. -/
def assignsLate (late : List String) (body : List Stmt) : Bool := (assignedIn body).any late.contains

/-- The expressions of the step of a loop, if it is an assignment or an expression. -/
def Stmt.stepNames? : Stmt → Option (List String)
  | .assign _ target _ e => some (target.names ++ e.names)
  | .expr _ e => some e.names
  | _ => none

/-- The step of a loop is an assignment or an expression. It uses no name that the body declares, and if
control may go to it from the middle of the body, no late name that the body assigns to. -/
def stepOrderly (late : List String) (body : List Stmt) : Option Stmt → Bool
  | none => true
  | some step => step.stepNames?.any fun names => names.all fun x => !(declaredBy body).contains x &&
      !(anyContinues body && late.contains x && (assignedIn body).contains x)

theorem stepOrderly_some {late : List String} {body : List Stmt} {step : Stmt}
    (h : stepOrderly late body (some step)) : ∃ names, step.stepNames? = some names ∧
      ∀ x ∈ names, x ∉ declaredBy body ∧ (anyContinues body → x ∈ late → x ∉ assignedIn body) := by
  obtain ⟨names, hnames, hall⟩ := (Option.any_eq_true ..).1 h
  refine ⟨names, hnames, fun x hx => ?_⟩
  have hx := List.all_eq_true.1 hall x hx
  simp only [Bool.and_eq_true, Bool.not_eq_true', Bool.and_eq_false_iff] at hx
  refine ⟨fun hmem => ?_, fun hcont hlate hassigned => ?_⟩
  · rw [List.contains_iff_mem.2 hmem] at hx
    cases hx.1
  · rw [hcont, List.contains_iff_mem.2 hlate, List.contains_iff_mem.2 hassigned] at hx
    simp at hx

/-- The tests use no late name that the arms assign to. -/
def testsOrderly (late : List String) (arms : List SwitchArm) : Bool :=
  arms.all fun arm => arm.test.all fun e => e.names.all fun x =>
    !(late.contains x && (armsCollect Stmt.assigns arms).contains x)

mutual

/-- No jump in the statement passes by an assignment to one of the late names that the checker counts on. -/
def Stmt.isOrderly (late : List String) : Stmt → Bool
  | .ifThen _ _ body | .while _ _ body | .forEach _ _ _ _ _ body | .block _ body => areOrderly late body
  | .ifElse _ _ a b => areOrderly late a && areOrderly late b
  | .doWhile _ body _ =>
    areOrderly late body && !((anyBreaks body || anyContinues body) && assignsLate late body)
  | .for _ init _ update body =>
    isOrderly? late init && areOrderly late body && stepOrderly late body update
  | .switch _ _ arms => armsOrderly late arms && testsOrderly late arms
  | .try _ body clauses => areOrderly late body && clausesOrderly late clauses
  | _ => true

def areOrderly (late : List String) : List Stmt → Bool
  | [] => true
  | s :: rest => s.isOrderly late && areOrderly late rest

def isOrderly? (late : List String) : Option Stmt → Bool
  | none => true
  | some s => s.isOrderly late

/-- An arm that control may leave before its end assigns to no late name. -/
def armsOrderly (late : List String) : List SwitchArm → Bool
  | [] => true
  | .mk _ _ body _ :: rest =>
    areOrderly late body && !(breaksEarly body && assignsLate late body) && armsOrderly late rest

def clausesOrderly (late : List String) : List CatchClause → Bool
  | [] => true
  | .mk _ _ _ body :: rest => areOrderly late body && clausesOrderly late rest

end

/-- The body of the function is orderly as to the variables that are declared in it without a value. -/
def FunctionDecl.isOrderly (f : FunctionDecl) : Bool := areOrderly (lateIn f.body) f.body

end ProtoScript
