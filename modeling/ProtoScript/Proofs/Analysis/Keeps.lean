import ProtoScript.Proofs.Analysis.Alike
import ProtoScript.Proofs.Analysis.Context

set_option autoImplicit false

/-!
# Names in scope are kept

Every part of the checker adds diagnostics at most. Expressions change nothing in the scopes but the
known lengths of lists. All statements but declarations leave the names in scope as they are, and declarations
add to the innermost scope. Since bodies have a scope of their own, behind a declaration of the program the
scopes are as before it.

The way through the checker is the same for other properties of steps: what is said of expressions, of
statements and of declarations only has to be kept by the few steps that all others are made of
(`Discipline`). Here these are the properties above (`namesKept`).
-/

namespace ProtoScript.Analysis

/-! ## Parts of steps -/

/-- Binds the name of a declaration; gives its initial value. -/
def checkDeclared (span : Span) (name : String) (b : Binding) (init : Option Expr) :
    Check (Option Expr) := do
  match ← define name b with
  | none => pure ()
  | some previous => report (.duplicateVariable name previous.line) span
  return init

/-- Checks a value that is returned, without regard to the receiver. -/
def checkReturned (span : Span) (ret : Ty) (e : Expr) : Check (Option Expr) := do
  if ret.isVoid then
    let e ← checkExpr none e
    report .returnFromVoid span
    escape e
    return some e
  else
    let e ← checkExpr (some ret) e
    match e.type? with
    | none => pure ()
    | some actual => expect (← isAssignable actual ret) (.returnType ret actual) e.span
    escape e
    return some e

/-- The statement declares a variable. -/
def declares : Stmt → Bool
  | .varDecl .. => true
  | _ => false

/-- Checks the body of an arm whose test has been checked, and the arms behind it. -/
def checkArmsFrom (ty? : Option Ty) (before : FlowSnapshot) (merged : Option FlowSnapshot)
    (span : Span) (test : Option Expr) (body : List Stmt) (fallsThrough : Bool)
    (rest : List SwitchArm) : Check (List SwitchArm × Option FlowSnapshot) := do
  restore before
  let jumps := endsInJump body
  let body ← inScope .switch (checkStmts body)
  expect (fallsThrough || jumps) .armFallsThrough span
  let (rest, merged) ← checkArms ty? before (some (joinPath merged (← snapshot))) rest
  return (.mk span test body fallsThrough :: rest, merged)

/-- Whether the hierarchy has the prototype of a declaration. -/
def isAccepted (d : PrototypeDecl) : Check Bool := do
  return (← read).hierarchy.accepts d

/-! ## Steps and what they are made of -/

/-- Three properties of steps, each at most as strong as the one before: of steps that look at something, of
steps that keep the names in scope, and of steps that may add names. Where a step asks the context, it does the
same in contexts that are alike. -/
structure Discipline (Looks Keeps Grows : {α : Type} → Check α → Prop) : Prop where
  keeps {α : Type} {m : Check α} : Looks m → Keeps m
  grows {α : Type} {m : Check α} : Keeps m → Grows m
  looks_pure {α : Type} (a : α) : Looks (pure a)
  looks_bind {α β : Type} {m : Check α} {f : α → Check β} :
    Looks m → (∀ a, Looks (f a)) → Looks (m >>= f)
  keeps_bind {α β : Type} {m : Check α} {f : α → Check β} :
    Keeps m → (∀ a, Keeps (f a)) → Keeps (m >>= f)
  grows_bind {α β : Type} {m : Check α} {f : α → Check β} :
    Grows m → (∀ a, Grows (f a)) → Grows (m >>= f)
  looks_get : Looks (get : Check State)
  looks_read {α : Type} {f : Context → Check α} :
    (∀ c c', c.Alike c' → f c = f c') → (∀ c, Looks (f c)) → Looks (read >>= f)
  looks_report (problem : Problem) (span : Span) : Looks (report problem span)
  looks_reportName (problem : Problem) (span : Span) (name : String) (candidates : List String) :
    Looks (reportName problem span name candidates)
  looks_modifyScopes {f : Scopes → Scopes} :
    (∀ s, (f s).forgetLengths = s.forgetLengths) → Looks (modifyScopes f)
  keeps_modifyScopes {f : Scopes → Scopes} : (∀ s, (f s).shape = s.shape) → Keeps (modifyScopes f)
  grows_define (name : String) (b : Binding) : Grows (define name b)
  inScope {α : Type} {m : Check α} : Grows m → ∀ kind, Keeps (inScope kind m)
  withReader {α : Type} {m : Check α} {g : Context → Context} :
    Keeps m → (∀ c c', c.Alike c' → (g c).Alike (g c')) → Keeps (withReader g m)

namespace Discipline

variable {Looks Keeps Grows : {α : Type} → Check α → Prop} (d : Discipline Looks Keeps Grows)

include d

theorem keeps_pure {α : Type} (a : α) : Keeps (pure a : Check α) := d.keeps (d.looks_pure a)

theorem keeps_report (problem : Problem) (span : Span) : Keeps (report problem span) :=
  d.keeps (d.looks_report problem span)

theorem looks_expect (holds : Bool) (problem : Problem) (span : Span) :
    Looks (expect holds problem span) := by
  unfold expect
  split
  · exact d.looks_pure _
  · exact d.looks_report problem span

theorem keeps_expect (holds : Bool) (problem : Problem) (span : Span) :
    Keeps (expect holds problem span) := d.keeps (d.looks_expect holds problem span)

theorem looks_local? (name : String) : Looks (local? name) :=
  d.looks_bind d.looks_get fun _ => d.looks_pure _

theorem keeps_snapshot : Keeps snapshot := d.keeps (d.looks_bind d.looks_get fun _ => d.looks_pure _)

theorem keeps_restore (snap : FlowSnapshot) : Keeps (restore snap) :=
  d.keeps_modifyScopes (Scopes.shape_restore snap)

theorem keeps_forgetLengths : Keeps (modifyScopes Scopes.forgetLengths) :=
  d.keeps_modifyScopes Scopes.shape_forgetLengths

theorem looks_isAssignable (source target : Ty) : Looks (isAssignable source target) :=
  d.looks_read (fun c c' h => by rw [h.hierarchy.isAssignable]) fun _ => d.looks_pure _

theorem looks_checkTy (ty : Ty) (span : Span) : Looks (checkTy ty span) := by
  refine d.looks_read (fun c c' h => ?_) fun c => ?_
  · simp only [h.hierarchy.unknownPrototype?, reportName_of_perm h.hierarchy.names]
  · dsimp only
    split
    · exact d.looks_pure _
    · exact d.looks_bind (d.looks_reportName _ _ _ _) fun _ => d.looks_pure _

theorem looks_aliasesSelf (e : Expr) : Looks (aliasesSelf e) := by
  unfold aliasesSelf
  split
  · exact d.looks_pure _
  · exact d.looks_bind (d.looks_local? _) fun _ => d.looks_pure _
  · exact d.looks_pure _

theorem looks_escape (e : Expr) : Looks (escape e) := by
  unfold escape
  split
  · exact d.looks_modifyScopes (Scopes.forgetLengths_update _ fun _ => rfl)
  · exact d.looks_pure _

theorem keeps_checkTy (ty : Ty) (span : Span) : Keeps (checkTy ty span) := d.keeps (d.looks_checkTy ty span)

theorem keeps_aliasesSelf (e : Expr) : Keeps (aliasesSelf e) := d.keeps (d.looks_aliasesSelf e)

theorem keeps_escape (e : Expr) : Keeps (escape e) := d.keeps (d.looks_escape e)

/-- A step that may happen any number of times. -/
theorem repeated {α : Type} {m : Check α} (h : Keeps m) : Keeps (repeated m) := by
  refine d.keeps_bind d.keeps_snapshot fun _ => d.keeps_bind d.keeps_forgetLengths fun _ => ?_
  refine d.keeps_bind h fun a => d.keeps_bind (d.keeps_restore _) fun _ => ?_
  exact d.keeps_bind d.keeps_forgetLengths fun _ => d.keeps_pure a

/-! ## Names and members -/

theorem looks_reportUndefined (name : String) (span : Span) : Looks (reportUndefined name span) := by
  refine d.looks_read (fun c c' h => ?_) fun _ => d.looks_bind d.looks_get fun _ => d.looks_reportName _ _ _ _
  refine congrArg (get >>= ·) (funext fun s => reportName_of_perm ?_)
  rw [h.groups, h.imports]
  have hnames := (h.functionNames.append_left s.scopes.visibleNames).append h.hierarchy.names
  exact (((hnames.append_right _).append_right _).append_right _).append_right _

theorem looks_noteLibraryConstant (n : Note) (constant : LibraryConstant) :
    Looks (noteLibraryConstant n constant) := by
  unfold noteLibraryConstant
  split
  · exact d.looks_pure _
  · exact d.looks_bind (d.looks_report _ _) fun _ => d.looks_pure _

theorem looks_noteGlobal (n : Note) (name : String) : Looks (noteGlobal n name) := by
  refine d.looks_read (fun c c' h => ?_) fun c => ?_
  · simp only [h.hierarchy.contains, h.importedConstant?, h.notValue?]
  split
  · exact d.looks_pure _
  · split
    · exact d.looks_noteLibraryConstant _ _
    · split
      · exact d.looks_bind (d.looks_report _ _) fun _ => d.looks_pure _
      · exact d.looks_bind (d.looks_reportUndefined _ _) fun _ => d.looks_pure _

theorem looks_noteName (n : Note) (name : String) : Looks (noteName n name) := by
  refine d.looks_bind (d.looks_local? name) fun b => ?_
  split
  · exact d.looks_bind (d.looks_expect _ _ _) fun _ => d.looks_pure _
  · exact d.looks_noteGlobal n name

theorem looks_owner? (e : Expr) : Looks (owner? e) := by
  unfold owner?
  split
  · refine d.looks_bind (d.looks_local? _) fun b => ?_
    split
    · exact d.looks_pure _
    · refine d.looks_read (fun c c' h => by rw [h.groups, h.imports]) fun c => ?_
      split
      · exact d.looks_pure _
      · exact d.looks_pure _
  · exact d.looks_pure _

theorem looks_noteGroupMember (n : Note) (g : Group) (member : String) :
    Looks (noteGroupMember n g member) := by
  unfold noteGroupMember
  split
  · exact d.looks_pure _
  · exact d.looks_bind (d.looks_reportName _ _ _ _) fun _ => d.looks_pure _

theorem looks_noteModuleMember (n : Note) (module member : String) :
    Looks (noteModuleMember n module member) := by
  refine d.looks_read (fun c c' h => by rw [h.library]) fun c => ?_
  dsimp only
  split
  · exact d.looks_noteLibraryConstant _ _
  · split
    · exact d.looks_bind (d.looks_report _ _) fun _ => d.looks_pure _
    · exact d.looks_bind (d.looks_reportName _ _ _ _) fun _ => d.looks_pure _

theorem looks_noteField (n : Note) (proto member : String) : Looks (noteField n proto member) := by
  refine d.looks_read (fun c c' h => ?_) fun c => ?_
  · simp only [h.hierarchy.field?, h.hierarchy.method?, h.hierarchy.canAccess, h.hierarchy.memberNames, h.proto?]
  split
  · exact d.looks_bind (d.looks_expect _ _ _) fun _ => d.looks_pure _
  · split
    · exact d.looks_bind (d.looks_report _ _) fun _ => d.looks_pure _
    · exact d.looks_bind (d.looks_reportName _ _ _ _) fun _ => d.looks_pure _

theorem looks_noteMember (n : Note) (object : Ty) (member : String) :
    Looks (noteMember n object member) := by
  unfold noteMember
  split
  · exact d.looks_noteField _ _ _
  · exact d.looks_bind (d.looks_report _ _) fun _ => d.looks_pure _

/-! ## Calls -/

theorem looks_expectedArgs (callee? : Option Callee) (count : Nat) (span : Span) :
    Looks (expectedArgs callee? count span) := by
  unfold expectedArgs
  split
  · exact d.looks_pure _
  · split
    · exact d.looks_pure _
    · exact d.looks_bind (d.looks_report _ _) fun _ => d.looks_pure _

theorem looks_moduleCallee? (module member : String) (span : Span) :
    Looks (moduleCallee? module member span) := by
  refine d.looks_read (fun c c' h => by rw [h.library]) fun c => ?_
  dsimp only
  split
  · exact d.looks_pure _
  · split
    · exact d.looks_bind (d.looks_report _ _) fun _ => d.looks_pure _
    · exact d.looks_bind (d.looks_reportName _ _ _ _) fun _ => d.looks_pure _

theorem looks_functionCallee? (name : String) (span : Span) :
    Looks (functionCallee? name span) := by
  refine d.looks_read (fun c c' h => ?_) fun c => ?_
  · have hnames := (h.functionNames.append_right (c'.imports.members.map (·.1))).append_right Builtin.functions
    simp only [h.function?, h.imports, reportName_of_perm hnames]
  split
  · exact d.looks_pure _
  · split
    · exact d.looks_moduleCallee? _ _ _
    · exact d.looks_bind (d.looks_reportName _ _ _ _) fun _ => d.looks_pure _

theorem looks_isNotCallable (name : String) : Looks (isNotCallable name) := by
  refine d.looks_read (fun c c' h => ?_) fun _ => d.looks_bind (d.looks_local? name) fun _ => d.looks_pure _
  simp only [h.hierarchy.contains, h.groups, h.imports]

theorem looks_receiver? (e : Expr) (method : String) : Looks (receiver? e method) := by
  unfold receiver?
  split
  · refine d.looks_bind (d.looks_local? _) fun b => ?_
    split
    · exact d.looks_pure _
    · refine d.looks_read (fun c c' h => ?_) fun c => ?_
      · simp only [h.imports, h.hierarchy.contains, h.groups]
      split
      · exact d.looks_pure _
      · split
        · exact d.looks_pure _
        · exact d.looks_pure _
  · exact d.looks_pure _

theorem looks_instanceCallee? (proto method : String) (span : Span) :
    Looks (instanceCallee? proto method span) := by
  refine d.looks_read (fun c c' h => ?_) fun c => ?_
  · simp only [h.hierarchy.method?, h.hierarchy.canAccess, h.hierarchy.methodTarget, h.hierarchy.field?,
      h.hierarchy.memberNames, h.proto?]
  dsimp only
  split
  · exact d.looks_bind (d.looks_expect _ _ _) fun _ => d.looks_pure _
  · split
    · exact d.looks_bind (d.looks_report _ _) fun _ => d.looks_pure _
    · exact d.looks_bind (d.looks_reportName _ _ _ _) fun _ => d.looks_pure _

theorem looks_containerCallee? (ty : Ty) (method : String) (span : Span) :
    Looks (containerCallee? ty method span) := by
  unfold containerCallee?
  split
  · exact d.looks_pure _
  · exact d.looks_bind (d.looks_reportName _ _ _ _) fun _ => d.looks_pure _

theorem looks_methodCallee? (ty : Ty) (method : String) (span : Span) :
    Looks (methodCallee? ty method span) := by
  unfold methodCallee?
  split
  · exact d.looks_instanceCallee? _ _ _
  · split
    · exact d.looks_bind (d.looks_report _ _) fun _ => d.looks_pure _
    · exact d.looks_containerCallee? _ _ _

theorem looks_trackLength (receiver : Expr) (callee? : Option Callee) (span : Span) :
    Looks (trackLength receiver callee? span) := by
  unfold trackLength
  split
  · split
    · refine d.looks_bind (d.looks_local? _) fun b => ?_
      split
      · exact d.looks_pure _
      · refine d.looks_bind (d.looks_modifyScopes (Scopes.forgetLengths_update _ ?_)) fun _ =>
          d.looks_expect _ _ _
        intro b
        rfl
    · exact d.looks_pure _
  · exact d.looks_pure _

/-! ## Operators -/

theorem looks_expectAssignable (e : Expr) (expected : Ty) : Looks (expectAssignable e expected) := by
  unfold expectAssignable
  split
  · exact d.looks_pure _
  · exact d.looks_bind (d.looks_isAssignable _ _) fun _ => d.looks_expect _ _ _

theorem looks_expectCondition (e : Expr) : Looks (expectCondition e) := by
  unfold expectCondition
  split
  · exact d.looks_pure _
  · exact d.looks_expect _ _ _

theorem looks_noteLiteral (n : Note) (value : Literal) (expected : Option Ty) :
    Looks (noteLiteral n value expected) := by
  unfold noteLiteral
  split
  · exact d.looks_bind (d.looks_expect _ _ _) fun _ => d.looks_pure _
  · exact d.looks_pure _

theorem looks_noteSelf (n : Note) : Looks (noteSelf n) := by
  refine d.looks_read (fun c c' h => by rw [h.proto?]) fun c => ?_
  split
  · exact d.looks_pure _
  · exact d.looks_bind (d.looks_report _ _) fun _ => d.looks_pure _

theorem looks_noteUnary (n : Note) (op : UnaryOp) (operand : Option Ty) :
    Looks (noteUnary n op operand) := by
  unfold noteUnary
  split
  · exact d.looks_pure _
  · split
    · exact d.looks_pure _
    · exact d.looks_bind (d.looks_report _ _) fun _ => d.looks_pure _

theorem looks_binaryResult? (op : BinaryOp) (left right : Ty) (span : Span) :
    Looks (binaryResult? op left right span) := by
  have hreport : ∀ problem, Looks (do report problem span; return none : Check (Option Ty)) :=
    fun problem => d.looks_bind (d.looks_report problem span) fun _ => d.looks_pure _
  unfold binaryResult?
  split
  · split
    · exact d.looks_pure _
    · exact hreport _
  · split
    · refine d.looks_bind (d.looks_isAssignable _ _) fun _ =>
        d.looks_bind (d.looks_isAssignable _ _) fun _ => ?_
      dsimp only
      split
      · exact d.looks_pure _
      · exact hreport _
    · split
      · exact d.looks_pure _
      · exact hreport _

theorem looks_noteBinary (n : Note) (op : BinaryOp) (left right : Option Ty) :
    Looks (noteBinary n op left right) := by
  unfold noteBinary
  split
  · exact d.looks_bind (d.looks_binaryResult? _ _ _ _) fun _ => d.looks_pure _
  · exact d.looks_pure _

theorem looks_noteTernary (n : Note) (a b : Expr) : Looks (noteTernary n a b) := by
  unfold noteTernary
  split
  · refine d.looks_bind (d.looks_isAssignable _ _) fun _ => ?_
    split
    · exact d.looks_pure _
    · refine d.looks_bind (d.looks_isAssignable _ _) fun _ => ?_
      split
      · exact d.looks_pure _
      · exact d.looks_bind (d.looks_report _ _) fun _ => d.looks_pure _
  · exact d.looks_pure _

theorem looks_elementAt? (object : Ty) (index : Expr) (span : Span) :
    Looks (elementAt? object index span) := by
  unfold elementAt?
  split
  · exact d.looks_bind (d.looks_expectAssignable _ _) fun _ => d.looks_pure _
  all_goals first
    | exact d.looks_bind (d.looks_report _ _) fun _ => d.looks_pure _
    | split
      · exact d.looks_bind (d.looks_expect _ _ _) fun _ => d.looks_pure _
      · exact d.looks_bind (d.looks_pure _) fun _ => d.looks_pure _

theorem looks_expectRepresentable (value : Expr) (target : Ty) (span : Span) :
    Looks (expectRepresentable value target span) := by
  refine d.looks_bind d.looks_get fun s => ?_
  split
  · exact d.looks_pure _
  · refine d.looks_read (fun c c' h => by rw [h.consts]) fun c => ?_
    split
    · exact d.looks_pure _
    · exact d.looks_expect _ _ _

theorem looks_noteCast (n : Note) (value : Expr) (target : Ty) : Looks (noteCast n value target) := by
  unfold noteCast
  split
  · exact d.looks_pure _
  · split
    · exact d.looks_bind (d.looks_expectRepresentable _ _ _) fun _ => d.looks_pure _
    · exact d.looks_bind (d.looks_report _ _) fun _ => d.looks_pure _

theorem looks_unify (shared : Option Ty) (ty : Ty) (problem : Ty → Problem) (span : Span) :
    Looks (unify shared ty problem span) := by
  unfold unify
  split
  · exact d.looks_pure _
  · exact d.looks_bind (d.looks_isAssignable _ _) fun _ => d.looks_bind (d.looks_expect _ _ _) fun _ =>
      d.looks_pure _

/-! ## Expressions -/

theorem looks_expectPrintable (args : List Expr) : Looks (expectPrintable args) := by
  unfold expectPrintable
  split
  · split
    · exact d.looks_pure _
    · exact d.looks_expect _ _ _
  · exact d.looks_pure _

mutual

/-- Checking an expression leaves the names in scope as they are. -/
theorem looks_checkExpr : (expected : Option Ty) → (e : Expr) → Looks (checkExpr expected e)
  | expected, .literal n v => by
      rw [checkExpr]
      exact d.looks_bind (d.looks_noteLiteral _ _ _) fun _ => d.looks_pure _
  | expected, .ident n name => by
      rw [checkExpr]
      exact d.looks_bind (d.looks_noteName _ _) fun _ => d.looks_pure _
  | expected, .self n => by
      rw [checkExpr]
      exact d.looks_bind (d.looks_noteSelf _) fun _ => d.looks_pure _
  | expected, .unary n op e => by
      rw [checkExpr]
      exact d.looks_bind (looks_checkExpr _ e) fun _ => d.looks_bind (d.looks_noteUnary _ _ _) fun _ =>
        d.looks_pure _
  | expected, .binary n op l r => by
      rw [checkExpr]
      split
      · refine d.looks_bind (looks_checkExpr _ r) fun _ => d.looks_bind (looks_checkExpr _ l) fun _ => ?_
        exact d.looks_bind (d.looks_noteBinary _ _ _ _) fun _ => d.looks_pure _
      · refine d.looks_bind (looks_checkExpr _ l) fun _ => d.looks_bind (looks_checkExpr _ r) fun _ => ?_
        exact d.looks_bind (d.looks_noteBinary _ _ _ _) fun _ => d.looks_pure _
  | expected, .ternary n c a b => by
      rw [checkExpr]
      refine d.looks_bind (looks_checkExpr _ c) fun _ => d.looks_bind (d.looks_expectCondition _) fun _ => ?_
      refine d.looks_bind (looks_checkExpr _ a) fun _ => d.looks_bind (looks_checkExpr _ b) fun _ => ?_
      exact d.looks_bind (d.looks_noteTernary _ _ _) fun _ => d.looks_pure _
  | expected, .call n name args => by
      rw [checkExpr]
      refine d.looks_bind (d.looks_isNotCallable name) fun _ => ?_
      split
      · refine d.looks_bind (d.looks_report _ _) fun _ => ?_
        exact d.looks_bind (looks_checkArgs _ args) fun _ => d.looks_pure _
      · split
        · refine d.looks_bind (d.looks_expect _ _ _) fun _ => d.looks_bind (looks_checkArgs _ args) fun _ => ?_
          exact d.looks_bind (d.looks_expectPrintable _) fun _ => d.looks_pure _
        · refine d.looks_bind (d.looks_functionCallee? _ _) fun _ =>
            d.looks_bind (d.looks_expectedArgs _ _ _) fun _ => ?_
          exact d.looks_bind (looks_checkArgs _ args) fun _ => d.looks_pure _
  | expected, .methodCall n e method args => by
      rw [checkExpr]
      refine d.looks_bind (d.looks_receiver? e method) fun receiver => ?_
      split
      · refine d.looks_bind (d.looks_moduleCallee? _ _ _) fun _ =>
          d.looks_bind (d.looks_expectedArgs _ _ _) fun _ => ?_
        exact d.looks_bind (looks_checkArgs _ args) fun _ => d.looks_pure _
      · refine d.looks_bind (d.looks_expect _ _ _) fun _ => ?_
        exact d.looks_bind (looks_checkExpr _ e) fun _ => d.looks_pure _
      · exact d.looks_bind (d.looks_reportName _ _ _ _) fun _ => d.looks_pure _
      · refine d.looks_bind (looks_checkExpr _ e) fun _ => ?_
        split
        · exact d.looks_bind (looks_checkArgs _ args) fun _ => d.looks_pure _
        · refine d.looks_bind (d.looks_methodCallee? _ _ _) fun _ =>
            d.looks_bind (d.looks_expectedArgs _ _ _) fun _ => ?_
          refine d.looks_bind (looks_checkArgs _ args) fun _ => ?_
          exact d.looks_bind (d.looks_trackLength _ _ _) fun _ => d.looks_pure _
  | expected, .member n e name => by
      rw [checkExpr]
      refine d.looks_bind (d.looks_owner? e) fun _ => ?_
      split
      · exact d.looks_bind (d.looks_noteGroupMember _ _ _) fun _ => d.looks_pure _
      · exact d.looks_bind (d.looks_noteModuleMember _ _ _) fun _ => d.looks_pure _
      · refine d.looks_bind (looks_checkExpr _ e) fun _ => ?_
        split
        · exact d.looks_pure _
        · exact d.looks_bind (d.looks_noteMember _ _ _) fun _ => d.looks_pure _
  | expected, .index n e i => by
      rw [checkExpr]
      refine d.looks_bind (looks_checkExpr _ e) fun _ => ?_
      split
      · exact d.looks_bind (looks_checkExpr _ i) fun _ => d.looks_pure _
      · refine d.looks_bind (looks_checkExpr _ i) fun _ => ?_
        exact d.looks_bind (d.looks_elementAt? _ _ _) fun _ => d.looks_pure _
  | expected, .cast n e target => by
      rw [checkExpr]
      exact d.looks_bind (looks_checkExpr _ e) fun _ => d.looks_bind (d.looks_noteCast _ _ _) fun _ =>
        d.looks_pure _
  | expected, .list n items => by
      rw [checkExpr]
      exact d.looks_bind (looks_checkItems _ items) fun _ => d.looks_pure _
  | expected, .map n entries => by
      rw [checkExpr]
      exact d.looks_bind (looks_checkEntries _ _ entries) fun _ => d.looks_pure _

theorem looks_checkArgs : (params : List Ty) → (args : List Expr) → Looks (checkArgs params args)
  | _, [] => by
      rw [checkArgs]
      exact d.looks_pure _
  | [], e :: rest => by
      rw [checkArgs]
      exact d.looks_bind (looks_checkExpr _ e) fun _ => d.looks_bind (looks_checkArgs _ rest) fun _ =>
        d.looks_pure _
  | ty :: params, e :: rest => by
      rw [checkArgs]
      refine d.looks_bind (looks_checkExpr _ e) fun _ => d.looks_bind (d.looks_expectAssignable _ _) fun _ => ?_
      exact d.looks_bind (d.looks_escape _) fun _ => d.looks_bind (looks_checkArgs _ rest) fun _ =>
        d.looks_pure _

theorem looks_checkItems : (elem : Option Ty) → (items : List Expr) → Looks (checkItems elem items)
  | _, [] => by
      rw [checkItems]
      exact d.looks_pure _
  | elem, e :: rest => by
      rw [checkItems]
      refine d.looks_bind (looks_checkExpr _ e) fun _ => ?_
      split
      · exact d.looks_bind (d.looks_pure _) fun _ => d.looks_bind (looks_checkItems _ rest) fun _ =>
          d.looks_pure _
      · refine d.looks_bind (d.looks_unify _ _ _ _) fun _ => d.looks_bind (d.looks_escape _) fun _ => ?_
        exact d.looks_bind (d.looks_pure _) fun _ => d.looks_bind (looks_checkItems _ rest) fun _ =>
          d.looks_pure _

theorem looks_checkEntries : (key value : Option Ty) → (entries : List (Expr × Expr)) →
    Looks (checkEntries key value entries)
  | _, _, [] => by
      rw [checkEntries]
      exact d.looks_pure _
  | key, value, (k, v) :: rest => by
      rw [checkEntries]
      have hvalue : ∀ k' keyTy, Looks (checkExpr value v >>= fun v' => do
          let valueTy ← match v'.type? with
            | none => pure value
            | some ty => unify value ty (.mapEntries .value · ty) v'.span
          escape v'
          let (rest, keyTy, valueTy) ← checkEntries keyTy valueTy rest
          return ((k', v') :: rest, keyTy, valueTy)) := by
        intro k' keyTy
        refine d.looks_bind (looks_checkExpr _ v) fun v' => ?_
        split
        · refine d.looks_bind (d.looks_pure _) fun _ => d.looks_bind (d.looks_escape _) fun _ => ?_
          exact d.looks_bind (looks_checkEntries _ _ rest) fun _ => d.looks_pure _
        · refine d.looks_bind (d.looks_unify _ _ _ _) fun _ => d.looks_bind (d.looks_escape _) fun _ => ?_
          exact d.looks_bind (looks_checkEntries _ _ rest) fun _ => d.looks_pure _
      refine d.looks_bind (looks_checkExpr _ k) fun k' => ?_
      split
      · exact d.looks_bind (d.looks_pure _) fun _ => hvalue k' _
      · exact d.looks_bind (d.looks_expect _ _ _) fun _ => d.looks_bind (d.looks_unify _ _ _ _) fun _ =>
          hvalue k' _

end

theorem looks_checkStored (ty : Ty) (e : Expr) : Looks (checkStored ty e) :=
  d.looks_bind (d.looks_checkExpr _ e) fun _ => d.looks_bind (d.looks_expectAssignable _ _) fun _ =>
    d.looks_pure _

theorem looks_checkCondition (e : Expr) : Looks (checkCondition e) :=
  d.looks_bind (d.looks_checkExpr _ e) fun _ => d.looks_bind (d.looks_expectCondition _) fun _ => d.looks_pure _

theorem looks_checkAgainst (ty? : Option Ty) (e : Expr) : Looks (checkAgainst ty? e) := by
  unfold checkAgainst
  split
  · exact d.looks_checkStored _ _
  · exact d.looks_checkExpr _ _

/-! ## Statements -/

theorem grows_checkDeclared (span : Span) (name : String) (b : Binding) (init : Option Expr) :
    Grows (checkDeclared span name b init) := by
  refine d.grows_bind (d.grows_define name b) fun previous => ?_
  split
  · exact d.grows (d.keeps_pure _)
  · exact d.grows (d.keeps_bind (d.keeps_report _ _) fun _ => d.keeps_pure _)

/-- A declaration adds its name to the innermost scope. -/
theorem grows_checkVarDecl (span : Span) (name : String) (ty : Ty) (isConst : Bool)
    (init : Option Expr) : Grows (checkVarDecl span name ty isConst init) := by
  refine d.grows_bind (d.grows (d.keeps_checkTy ty span)) fun known => ?_
  refine d.grows_bind (d.grows (d.keeps_expect _ _ _)) fun _ =>
    d.grows_bind (d.grows (d.keeps_expect _ _ _)) fun _ => ?_
  dsimp only
  split
  · exact d.grows_checkDeclared span name _ _
  · refine d.grows_bind (d.grows (d.keeps (d.looks_checkAgainst _ _))) fun _ =>
      d.grows_bind (d.grows (d.keeps_aliasesSelf _)) fun _ => ?_
    exact d.grows_bind (d.grows (d.keeps_escape _)) fun _ => d.grows_checkDeclared span name _ _

theorem looks_checkAssigned (span : Span) (target : Ty) (op : Option BinaryOp) (value : Expr) :
    Looks (checkAssigned span target op value) := by
  unfold checkAssigned
  split
  · exact d.looks_checkStored _ _
  · refine d.looks_bind (d.looks_checkExpr _ _) fun _ => ?_
    split
    · exact d.looks_pure _
    · refine d.looks_bind (d.looks_binaryResult? _ _ _ _) fun _ => ?_
      split
      · exact d.looks_pure _
      · exact d.looks_bind (d.looks_expect _ _ _) fun _ => d.looks_pure _

theorem keeps_checkAssignName (span : Span) (n : Note) (name : String) (op : Option BinaryOp)
    (value : Expr) : Keeps (checkAssignName span n name op value) := by
  refine d.keeps_bind (d.keeps (d.looks_local? name)) fun _ => ?_
  split
  · refine d.keeps (d.looks_read (fun c c' h => by rw [h.assignProblem?]) fun _ => ?_)
    split
    · exact d.looks_bind (d.looks_report _ _) fun _ => d.looks_bind (d.looks_checkExpr _ _) fun _ =>
        d.looks_pure _
    · refine d.looks_bind (d.looks_reportUndefined _ _) fun _ => ?_
      exact d.looks_bind (d.looks_checkExpr _ _) fun _ => d.looks_pure _
  · refine d.keeps_bind (d.keeps_expect _ _ _) fun _ => d.keeps_bind (d.keeps_expect _ _ _) fun _ => ?_
    refine d.keeps_bind (d.keeps (d.looks_checkAssigned _ _ _ _)) fun _ =>
      d.keeps_bind (d.keeps_aliasesSelf _) fun _ => ?_
    refine d.keeps_bind (d.keeps_modifyScopes (Scopes.shape_update _ ?_)) fun _ => d.keeps_pure _
    intro b
    rfl

theorem looks_expectMutable (target : Expr) (span : Span) : Looks (expectMutable target span) := by
  unfold expectMutable
  split
  · exact d.looks_read (fun c c' h => by rw [h.hierarchy.field?]) fun _ => d.looks_expect _ _ _
  · exact d.looks_pure _

theorem looks_checkAssignMember (span : Span) (target : Expr) (op : Option BinaryOp)
    (value : Expr) : Looks (checkAssignMember span target op value) := by
  refine d.looks_bind (d.looks_checkExpr _ _) fun _ => ?_
  split
  · exact d.looks_bind (d.looks_checkExpr _ _) fun _ => d.looks_pure _
  · refine d.looks_bind (d.looks_expectMutable _ _) fun _ =>
      d.looks_bind (d.looks_checkAssigned _ _ _ _) fun _ => ?_
    exact d.looks_bind (d.looks_escape _) fun _ => d.looks_pure _

theorem looks_checkAssignIndex (span : Span) (n : Note) (object index : Expr)
    (op : Option BinaryOp) (value : Expr) :
    Looks (checkAssignIndex span n object index op value) := by
  refine d.looks_bind (d.looks_checkExpr _ _) fun _ => ?_
  split
  · exact d.looks_bind (d.looks_checkExpr _ _) fun _ => d.looks_bind (d.looks_checkExpr _ _) fun _ =>
      d.looks_pure _
  · split
    · refine d.looks_bind (d.looks_report _ _) fun _ => d.looks_bind (d.looks_checkExpr _ _) fun _ => ?_
      exact d.looks_bind (d.looks_checkExpr _ _) fun _ => d.looks_pure _
    · refine d.looks_bind (d.looks_checkExpr _ _) fun _ => d.looks_bind (d.looks_elementAt? _ _ _) fun _ => ?_
      split
      · refine d.looks_bind (d.looks_checkAssigned _ _ _ _) fun _ => ?_
        exact d.looks_bind (d.looks_escape _) fun _ => d.looks_pure _
      · exact d.looks_bind (d.looks_checkExpr _ _) fun _ => d.looks_bind (d.looks_escape _) fun _ =>
          d.looks_pure _

theorem keeps_checkAssign (span : Span) (target : Expr) (op : Option BinaryOp) (value : Expr) :
    Keeps (checkAssign span target op value) := by
  unfold checkAssign
  split
  · refine d.keeps_bind (d.keeps_checkAssignName _ _ _ _ _) fun _ => ?_
    exact d.keeps_bind (d.keeps_escape _) fun _ => d.keeps_pure _
  · refine d.keeps_bind (d.keeps (d.looks_owner? _)) fun _ => ?_
    split
    · exact d.keeps_bind (d.keeps_report _ _) fun _ =>
        d.keeps_bind (d.keeps (d.looks_checkExpr _ _)) fun _ => d.keeps_pure _
    · exact d.keeps (d.looks_checkAssignMember _ _ _ _)
  · exact d.keeps (d.looks_checkAssignIndex _ _ _ _ _ _)
  · refine d.keeps_bind (d.keeps_report _ _) fun _ => d.keeps_bind (d.keeps (d.looks_checkExpr _ _)) fun _ => ?_
    exact d.keeps_bind (d.keeps_escape _) fun _ => d.keeps_pure _

theorem looks_checkReturned (span : Span) (ret : Ty) (e : Expr) :
    Looks (checkReturned span ret e) := by
  unfold checkReturned
  split
  · refine d.looks_bind (d.looks_checkExpr _ _) fun _ => d.looks_bind (d.looks_report _ _) fun _ => ?_
    exact d.looks_bind (d.looks_escape _) fun _ => d.looks_pure _
  · refine d.looks_bind (d.looks_checkExpr _ _) fun _ => ?_
    split
    · exact d.looks_bind (d.looks_escape _) fun _ => d.looks_pure _
    · refine d.looks_bind (d.looks_isAssignable _ _) fun _ => d.looks_bind (d.looks_expect _ _ _) fun _ => ?_
      exact d.looks_bind (d.looks_escape _) fun _ => d.looks_pure _

theorem looks_checkReturn (span : Span) (value : Option Expr) : Looks (checkReturn span value) := by
  refine d.looks_read (fun c c' h => by rw [h.ret]) fun c => ?_
  dsimp only
  split
  · exact d.looks_bind (d.looks_expect _ _ _) fun _ => d.looks_pure _
  · refine d.looks_read (fun c c' h => by rw [h.proto?]) fun _ => ?_
    split
    · refine d.looks_bind (d.looks_aliasesSelf _) fun _ => d.looks_bind (d.looks_expect _ _ _) fun _ => ?_
      exact d.looks_checkReturned span c.ret _
    · exact d.looks_checkReturned span c.ret _

theorem looks_checkThrow (span : Span) (value : Expr) : Looks (checkThrow span value) := by
  refine d.looks_bind (d.looks_checkExpr _ _) fun _ => ?_
  split
  · exact d.looks_pure _
  · refine d.looks_read (fun c c' h => by simp only [h.hierarchy.isException]) fun _ => ?_
    exact d.looks_bind (d.looks_expect _ _ _) fun _ => d.looks_pure _

theorem looks_checkCatchable (span : Span) (proto : String) : Looks (checkCatchable span proto) := by
  refine d.looks_read (fun c c' h => ?_) fun _ => ?_
  · simp only [h.hierarchy.contains, h.hierarchy.isException, reportName_of_perm h.hierarchy.names]
  dsimp only
  split
  · exact d.looks_expect _ _ _
  · exact d.looks_reportName _ _ _ _

theorem looks_checkSwitched (value : Expr) : Looks (checkSwitched value) := by
  refine d.looks_bind (d.looks_checkExpr _ _) fun _ => ?_
  split
  · exact d.looks_pure _
  · exact d.looks_bind (d.looks_expect _ _ _) fun _ => d.looks_pure _

theorem looks_loopVariable (span : Span) (kind : IterKind) (declared : Option Ty) (name : String)
    (iterable : Expr) : Looks (loopVariable span kind declared name iterable) := by
  have hdeclared : ∀ elem?, Looks (do
      match declared, elem? with
      | some ty, some elem =>
        if ← checkTy ty span then
          expect (ty == elem) (.loopVariable name ty elem) span
        return ty
      | some ty, none => return ty
      | none, some elem => return elem
      | none, none => return .void : Check Ty) := by
    intro elem?
    split
    · refine d.looks_bind (d.looks_checkTy _ _) fun _ => ?_
      split
      · exact d.looks_bind (d.looks_expect _ _ _) fun _ => d.looks_pure _
      · exact d.looks_pure _
    · exact d.looks_pure _
    · exact d.looks_pure _
    · exact d.looks_pure _
  unfold loopVariable
  split
  · exact hdeclared _
  · exact d.looks_bind (d.looks_expect _ _ _) fun _ => hdeclared _

theorem grows_checkStmt_of_keeps {stmt : Stmt} (h : declares stmt = false → Keeps (checkStmt stmt)) :
    Grows (checkStmt stmt) := by
  cases stmt with
  | varDecl s name ty isConst init =>
      rw [checkStmt]
      exact d.grows_bind (d.grows_checkVarDecl _ _ _ _ _) fun _ => d.grows (d.keeps_pure _)
  | _ => exact d.grows (h rfl)

theorem keeps_checkArmsFrom (ty? : Option Ty) (before : FlowSnapshot)
    (merged : Option FlowSnapshot) (span : Span) (test : Option Expr) (body : List Stmt)
    (fallsThrough : Bool) (rest : List SwitchArm) (hbody : Grows (checkStmts body))
    (hrest : ∀ merged, Keeps (checkArms ty? before merged rest)) :
    Keeps (checkArmsFrom ty? before merged span test body fallsThrough rest) := by
  refine d.keeps_bind (d.keeps_restore _) fun _ => d.keeps_bind (d.inScope hbody _) fun _ => ?_
  refine d.keeps_bind (d.keeps_expect _ _ _) fun _ => d.keeps_bind d.keeps_snapshot fun _ => ?_
  exact d.keeps_bind (hrest _) fun _ => d.keeps_pure _

mutual

/-- Statements other than declarations leave the names in scope as they are. -/
theorem keeps_checkStmt : (stmt : Stmt) → declares stmt = false → Keeps (checkStmt stmt)
  | .assign s target op value, _ => by
      rw [checkStmt]
      exact d.keeps_bind (d.keeps_checkAssign _ _ _ _) fun _ => d.keeps_pure _
  | .expr s e, _ => by
      rw [checkStmt]
      exact d.keeps_bind (d.keeps (d.looks_checkExpr _ _)) fun _ => d.keeps_pure _
  | .ifThen s c body, _ => by
      rw [checkStmt]
      refine d.keeps_bind (d.keeps (d.looks_checkCondition c)) fun _ =>
        d.keeps_bind d.keeps_snapshot fun _ => ?_
      refine d.keeps_bind (d.inScope (grows_checkStmts body) _) fun _ =>
        d.keeps_bind d.keeps_snapshot fun _ => ?_
      exact d.keeps_bind (d.keeps_restore _) fun _ => d.keeps_pure _
  | .ifElse s c thenBody elseBody, _ => by
      rw [checkStmt]
      refine d.keeps_bind (d.keeps (d.looks_checkCondition c)) fun _ =>
        d.keeps_bind d.keeps_snapshot fun _ => ?_
      refine d.keeps_bind (d.inScope (grows_checkStmts thenBody) _) fun _ =>
        d.keeps_bind d.keeps_snapshot fun _ => ?_
      refine d.keeps_bind (d.keeps_restore _) fun _ =>
        d.keeps_bind (d.inScope (grows_checkStmts elseBody) _) fun _ => ?_
      exact d.keeps_bind d.keeps_snapshot fun _ => d.keeps_bind (d.keeps_restore _) fun _ => d.keeps_pure _
  | .while s c body, _ => by
      rw [checkStmt]
      refine d.keeps_bind d.keeps_forgetLengths fun _ =>
        d.keeps_bind (d.keeps (d.looks_checkCondition c)) fun _ => ?_
      exact d.keeps_bind (d.repeated (d.inScope (grows_checkStmts body) _)) fun _ => d.keeps_pure _
  | .doWhile s body c, _ => by
      rw [checkStmt]
      refine d.keeps_bind d.keeps_forgetLengths fun _ => ?_
      refine d.keeps_bind (d.inScope (grows_checkStmts body) _) fun _ =>
        d.keeps_bind (d.keeps (d.looks_checkCondition c)) fun _ => ?_
      exact d.keeps_bind d.keeps_forgetLengths fun _ => d.keeps_pure _
  | .for s init c update body, _ => by
      have hbody : ∀ init c, Keeps (Analysis.inScope .loop (do
          let body ← checkStmts body
          let update ← checkStmt? update
          return Stmt.for s init c update body)) := fun init c =>
        d.inScope (d.grows_bind (grows_checkStmts body) fun _ => d.grows_bind (grows_checkStmt? update) fun _ =>
          d.grows (d.keeps_pure _)) _
      rw [checkStmt]
      refine d.inScope (d.grows_bind (grows_checkStmt? init) fun _ => d.grows (d.repeated ?_)) _
      split
      · exact hbody _ _
      · exact d.keeps_bind (d.keeps (d.looks_checkCondition _)) fun _ => hbody _ _
  | .forEach s kind ty name e body, _ => by
      rw [checkStmt]
      refine d.keeps_bind (d.keeps (d.looks_checkExpr _ e)) fun _ => ?_
      refine d.keeps_bind (d.keeps (d.looks_loopVariable _ _ _ _ _)) fun _ => ?_
      refine d.repeated (d.inScope (d.grows_bind (d.grows_define _ _) fun _ => ?_) _)
      exact d.grows_bind (grows_checkStmts body) fun _ => d.grows (d.keeps_pure _)
  | .switch s value arms, _ => by
      rw [checkStmt]
      refine d.keeps_bind (d.keeps (d.looks_checkSwitched value)) fun _ =>
        d.keeps_bind d.keeps_snapshot fun _ => ?_
      refine d.keeps_bind (keeps_checkArms _ _ _ arms) fun _ => ?_
      exact d.keeps_bind (d.keeps_restore _) fun _ => d.keeps_pure _
  | .break s, _ => by
      rw [checkStmt]
      exact d.keeps_bind (d.keeps d.looks_get) fun _ => d.keeps_bind (d.keeps_expect _ _ _) fun _ =>
        d.keeps_pure _
  | .continue s, _ => by
      rw [checkStmt]
      exact d.keeps_bind (d.keeps d.looks_get) fun _ => d.keeps_bind (d.keeps_expect _ _ _) fun _ =>
        d.keeps_pure _
  | .ret s value, _ => by
      rw [checkStmt]
      exact d.keeps_bind (d.keeps (d.looks_checkReturn _ _)) fun _ => d.keeps_pure _
  | .throw s value, _ => by
      rw [checkStmt]
      exact d.keeps_bind (d.keeps (d.looks_checkThrow _ _)) fun _ => d.keeps_pure _
  | .try s body clauses, _ => by
      rw [checkStmt]
      refine d.keeps_bind d.keeps_snapshot fun _ =>
        d.keeps_bind (d.inScope (grows_checkStmts body) _) fun _ => ?_
      refine d.keeps_bind d.keeps_snapshot fun _ => d.keeps_bind (keeps_checkClauses _ _ clauses) fun _ => ?_
      exact d.keeps_bind (d.keeps_restore _) fun _ => d.keeps_pure _
  | .block s body, _ => by
      rw [checkStmt]
      exact d.keeps_bind (d.inScope (grows_checkStmts body) _) fun _ => d.keeps_pure _

/-- Statements add names at most to the innermost scope. -/
theorem grows_checkStmts : (stmts : List Stmt) → Grows (checkStmts stmts)
  | [] => by
      rw [checkStmts]
      exact d.grows (d.keeps_pure _)
  | stmt :: rest => by
      rw [checkStmts]
      refine d.grows_bind (d.grows_checkStmt_of_keeps (keeps_checkStmt stmt)) fun _ => ?_
      exact d.grows_bind (grows_checkStmts rest) fun _ => d.grows (d.keeps_pure _)

theorem grows_checkStmt? : (stmt? : Option Stmt) → Grows (checkStmt? stmt?)
  | none => by
      rw [checkStmt?]
      exact d.grows (d.keeps_pure _)
  | some stmt => by
      rw [checkStmt?]
      exact d.grows_bind (d.grows_checkStmt_of_keeps (keeps_checkStmt stmt)) fun _ => d.grows (d.keeps_pure _)

theorem keeps_checkArms : (ty? : Option Ty) → (before : FlowSnapshot) →
    (merged : Option FlowSnapshot) → (arms : List SwitchArm) →
    Keeps (checkArms ty? before merged arms)
  | _, _, _, [] => by
      rw [checkArms]
      exact d.keeps_pure _
  | ty?, before, merged, .mk s test body fallsThrough :: rest => by
      have hrest := fun test => d.keeps_checkArmsFrom ty? before merged s test body fallsThrough rest
        (grows_checkStmts body) fun merged => keeps_checkArms ty? before merged rest
      cases test with
      | none =>
          rw [checkArms]
          exact hrest none
      | some e =>
          rw [checkArms]
          exact d.keeps_bind (d.keeps (d.looks_checkAgainst _ _)) fun e' => hrest (some e')

theorem keeps_checkClauses : (before merged : FlowSnapshot) → (clauses : List CatchClause) →
    Keeps (checkClauses before merged clauses)
  | _, _, [] => by
      rw [checkClauses]
      exact d.keeps_pure _
  | before, merged, .mk s proto binding body :: rest => by
      rw [checkClauses]
      refine d.keeps_bind (d.keeps_restore _) fun _ =>
        d.keeps_bind (d.keeps (d.looks_checkCatchable _ _)) fun _ => ?_
      refine d.keeps_bind (d.inScope (d.grows_bind (d.grows_define _ _) fun _ =>
        grows_checkStmts body) _) fun _ => ?_
      refine d.keeps_bind d.keeps_snapshot fun _ => d.keeps_bind (keeps_checkClauses _ _ rest) fun _ => ?_
      exact d.keeps_pure _

end

theorem grows_checkStmt (stmt : Stmt) : Grows (checkStmt stmt) :=
  d.grows_checkStmt_of_keeps (d.keeps_checkStmt stmt)

/-! ## Declarations -/

theorem grows_checkParams (params : List Param) : Grows (checkParams params) := by
  induction params with
  | nil => exact d.grows (d.keeps_pure _)
  | cons p rest ih =>
      refine d.grows_bind (d.grows (d.keeps_checkTy _ _)) fun _ =>
        d.grows_bind (d.grows_define _ _) fun _ => ?_
      split
      · exact ih
      · exact d.grows_bind (d.grows (d.keeps_report _ _)) fun _ => ih

theorem keeps_checkFunction (proto? : Option String) (f : FunctionDecl) :
    Keeps (checkFunction proto? f) := by
  refine d.withReader ?_ fun c c' h => (h.inProto proto?).withRet f.ret
  refine d.keeps_bind (d.keeps_checkTy _ _) fun _ => d.inScope ?_ _
  refine d.grows_bind (d.grows_checkParams _) fun _ => d.grows_bind (d.grows_checkStmts _) fun _ => ?_
  exact d.grows (d.keeps_bind (d.keeps_expect _ _ _) fun _ => d.keeps_pure _)

theorem keeps_checkField (proto : String) (f : FieldDecl) : Keeps (checkField proto f) := by
  refine d.keeps_bind (d.keeps_checkTy _ _) fun _ => d.keeps_bind (d.keeps_expect _ _ _) fun _ => ?_
  split
  · exact d.keeps_pure _
  · refine d.withReader (d.keeps_bind ?_ fun _ => d.keeps_pure _) fun c c' h => h.inProto none
    exact d.inScope (d.grows (d.keeps (d.looks_checkAgainst _ _))) _

theorem keeps_mapM {α β : Type} {f : α → Check β} (h : ∀ a, Keeps (f a)) (l : List α) :
    Keeps (l.mapM f) := by
  induction l with
  | nil =>
      rw [List.mapM_nil]
      exact d.keeps_pure _
  | cons a rest ih =>
      rw [List.mapM_cons]
      exact d.keeps_bind (h a) fun _ => d.keeps_bind ih fun _ => d.keeps_pure _

theorem keeps_checkPrototype (decl : PrototypeDecl) : Keeps (checkPrototype decl) := by
  have haccepted : Looks (isAccepted decl) :=
    d.looks_read (fun c c' h => by rw [h.hierarchy.accepts]) fun _ => d.looks_pure _
  have hcheck : checkPrototype decl = (do
      if ← isAccepted decl then
        let fields ← decl.fields.mapM (checkField decl.name)
        let methods ← decl.methods.mapM fun m => do
          return { m with function := ← checkFunction (some decl.name) m.function }
        return { decl with fields, methods }
      else return decl) := rfl
  rw [hcheck]
  refine d.keeps_bind (d.keeps haccepted) fun _ => ?_
  split
  · refine d.keeps_bind (d.keeps_mapM (d.keeps_checkField _) _) fun _ =>
      d.keeps_bind (d.keeps_mapM ?_ _) fun _ => ?_
    · exact fun m => d.keeps_bind (d.keeps_checkFunction _ _) fun _ => d.keeps_pure _
    · exact d.keeps_pure _
  · exact d.keeps_pure _

/-- Behind a declaration of the program the scopes are as before it. -/
theorem keeps_checkDecl (decl : Decl) : Keeps (checkDecl decl) := by
  unfold checkDecl
  split
  · exact d.keeps_bind (d.keeps_checkFunction _ _) fun _ => d.keeps_pure _
  · exact d.keeps_bind (d.keeps_checkPrototype _) fun _ => d.keeps_pure _
  · exact d.keeps_pure _

end Discipline

/-! ## Names in scope -/

/-- Steps that look at something, that keep the names in scope, and that may add names to the innermost one. -/
theorem namesKept : Discipline Inspects Keeps Grows where
  keeps := Inspects.keeps
  grows := Keeps.grows
  looks_pure := inspects_pure
  looks_bind := Inspects.bind
  keeps_bind := Keeps.bind
  grows_bind := Grows.bind
  looks_get := inspects_get
  looks_read _ hf := inspects_read.bind hf
  looks_report := inspects_report
  looks_reportName := inspects_reportName
  looks_modifyScopes := inspects_modifyScopes
  keeps_modifyScopes := keeps_modifyScopes
  grows_define := grows_define
  inScope := Grows.inScope
  withReader h _ := h.withReader _

/-- A step that may happen any number of times. -/
theorem Keeps.repeated {α : Type} {m : Check α} (h : Keeps m) : Keeps (Analysis.repeated m) := namesKept.repeated h

/-- Checking an expression leaves the names in scope as they are. -/
theorem inspects_checkExpr (expected : Option Ty) (e : Expr) : Inspects (checkExpr expected e) :=
  namesKept.looks_checkExpr expected e

/-- Statements other than declarations leave the names in scope as they are. -/
theorem keeps_checkStmt (stmt : Stmt) (h : declares stmt = false) : Keeps (checkStmt stmt) :=
  namesKept.keeps_checkStmt stmt h

/-- Statements add names at most to the innermost scope. -/
theorem grows_checkStmts (stmts : List Stmt) : Grows (checkStmts stmts) := namesKept.grows_checkStmts stmts

/-- Behind a declaration of the program the scopes are as before it. -/
theorem keeps_checkDecl (decl : Decl) : Keeps (checkDecl decl) := namesKept.keeps_checkDecl decl

end ProtoScript.Analysis
