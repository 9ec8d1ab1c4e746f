import ProtoScript.Proofs.Analysis.Keeps
import ProtoScript.Proofs.Lowering.Relates

set_option autoImplicit false

/-!
# Scopes and jump targets while lowering

A step of lowering that writes an expression leaves what names stand for and where jumps go (`Steady`).
A statement may add a name to the innermost scope, and leaves the scopes around it (`Scoped`); only a
declaration does add one (`steady_lowerStmt`), and the name it adds stands for the variable it makes
(`Declares`).
-/

namespace ProtoScript.Lowering

/-! ## Steps -/

/-- The names and the targets of jumps are the same. -/
structure Builder.SameScopes (b b' : Builder) : Prop where
  scopes : b'.scopes = b.scopes
  jumps : b'.jumps = b.jumps

/-- The names around the innermost scope and the targets of jumps are the same. -/
structure Builder.SameOuter (b b' : Builder) : Prop where
  tail : b'.scopes.tail = b.scopes.tail
  jumps : b'.jumps = b.jumps

/-- Wherever the step succeeds, names and targets stay. -/
def Steady {α : Type} (m : Lower α) : Prop :=
  ∀ c b a b', Runs c m b a b' → b.SameScopes b'

/-- Wherever the step succeeds, names of outer scopes and targets stay. -/
def Scoped {α : Type} (m : Lower α) : Prop :=
  ∀ c b a b', Runs c m b a b' → b.SameOuter b'

section

variable {α β : Type} {m : Lower α} {f : α → Lower β}

theorem Builder.SameScopes.refl (b : Builder) : b.SameScopes b := ⟨rfl, rfl⟩

theorem Builder.SameScopes.trans {b b' b'' : Builder} (h : b.SameScopes b') (h' : b'.SameScopes b'') :
    b.SameScopes b'' := ⟨h'.scopes.trans h.scopes, h'.jumps.trans h.jumps⟩

theorem Builder.SameScopes.outer {b b' : Builder} (h : b.SameScopes b') : b.SameOuter b' :=
  ⟨congrArg List.tail h.scopes, h.jumps⟩

theorem Steady.scoped (h : Steady m) : Scoped m := fun c b a b' hrun => (h c b a b' hrun).outer

theorem Steady.bind (hm : Steady m) (hf : ∀ a, Steady (f a)) : Steady (m >>= f) := by
  intro c b d b' h
  obtain ⟨a, b₁, h₁, h₂⟩ := h.of_bind
  exact (hm c b a b₁ h₁).trans (hf a c b₁ d b' h₂)

theorem Scoped.bind (hm : Scoped m) (hf : ∀ a, Scoped (f a)) : Scoped (m >>= f) := by
  intro c b d b' h
  obtain ⟨a, b₁, h₁, h₂⟩ := h.of_bind
  have k₁ := hm c b a b₁ h₁
  have k₂ := hf a c b₁ d b' h₂
  exact ⟨k₂.tail.trans k₁.tail, k₂.jumps.trans k₁.jumps⟩

theorem steady_pure (a : α) : Steady (pure a : Lower α) := by
  intro c b a' b' h
  cases h
  exact ⟨rfl, rfl⟩

theorem steady_fail (cause : Cause) : Steady (fail cause : Lower α) := by
  intro c b a b' h
  cases h

theorem steady_modify {g : Builder → Builder} (h : ∀ b : Builder, b.SameScopes (g b)) :
    Steady (modify g : Lower Unit) := by
  intro c b a b' hrun
  cases hrun
  exact h b

theorem steady_get : Steady (get : Lower Builder) := by
  intro c b a b' h
  cases h
  exact ⟨rfl, rfl⟩

/-- A scope of its own hides what is declared in it. -/
theorem Scoped.inScope (h : Scoped m) : Steady (inScope m) := by
  intro c b a b' hrun
  obtain ⟨_, b₁, h₁, hrun⟩ := hrun.of_bind
  obtain ⟨a', b₂, h₂, hrun⟩ := hrun.of_bind
  obtain ⟨_, b₃, h₃, hrun⟩ := hrun.of_bind
  cases h₁
  cases h₃
  cases hrun
  have k := h c _ a b₂ h₂
  exact ⟨k.tail, k.jumps⟩

/-- The targets of jumps are set for the step alone. -/
theorem Steady.withJumps (h : Steady m) (breakLabel : String) (continueLabel : Option String) :
    Steady (withJumps breakLabel continueLabel m) := by
  intro c b a b' hrun
  obtain ⟨_, b₁, h₁, hrun⟩ := hrun.of_bind
  obtain ⟨a', b₂, h₂, hrun⟩ := hrun.of_bind
  obtain ⟨_, b₃, h₃, hrun⟩ := hrun.of_bind
  cases h₁
  cases h₃
  cases hrun
  have k := h c _ a b₂ h₂
  exact ⟨k.scopes, congrArg List.tail k.jumps⟩

end

/-! ## What the builder offers -/

/-- Whatever writes expressions changes neither names nor targets. -/
theorem writing_sameScopes : Writing Builder.SameScopes where
  refl := .refl
  trans h h' := h.trans h'
  emit _ _ := ⟨rfl, rfl⟩
  takeTemp _ := ⟨rfl, rfl⟩
  takeLabel _ := ⟨rfl, rfl⟩
  close _ _ := ⟨rfl, rfl⟩
  start _ _ := ⟨rfl, rfl⟩
  useName _ _ := ⟨rfl, rfl⟩
  putBack h := ⟨rfl, h.jumps⟩

theorem steady_emit (i : Ir.Instr) : Steady (emit i) := relates_emit writing_sameScopes i

theorem steady_freshLabel (stem : String) : Steady (freshLabel stem) :=
  relates_freshLabel writing_sameScopes stem

theorem steady_emitValue (make : Ir.Temp → Ir.Instr) : Steady (emitValue make) :=
  relates_emitValue writing_sameScopes make

theorem steady_isOpen : Steady isOpen := steady_get.bind fun _ => steady_pure _

theorem steady_endWith (t : Ir.Terminator) : Steady (endWith t) := relates_endWith writing_sameScopes t

theorem steady_jump (label : String) : Steady (jump label) := steady_endWith _

theorem steady_startBlock (label : String) : Steady (startBlock label) :=
  relates_startBlock writing_sameScopes label

theorem steady_declare (base : String) (ty : Ty) : Steady (declare base ty) :=
  relates_declare writing_sameScopes base ty

theorem steady_declareJoin (ty : Ty) : Steady (declareJoin ty) :=
  relates_declareJoin writing_sameScopes ty

theorem steady_varOf? (x : String) : Steady (varOf? x) := relates_varOf? writing_sameScopes x

theorem steady_unwindTo (depth : Nat) : Steady (unwindTo depth) := steady_modify fun _ => ⟨rfl, rfl⟩

theorem steady_typeOf (e : Expr) : Steady (typeOf e) := relates_typeOf writing_sameScopes e

/-- What the step adds is one name in the innermost scope, which stands for the variable it gives. -/
def Declares (m : Lower String) (x : String) : Prop :=
  ∀ c b v b', Runs c m b v b' → b'.scopes = Frames.declare x v b.scopes ∧ b'.jumps = b.jumps

theorem Declares.scoped {m : Lower String} {x : String} (h : Declares m x) : Scoped m := by
  intro c b v b' hrun
  obtain ⟨hscopes, hjumps⟩ := h c b v b' hrun
  exact ⟨by rw [hscopes]; exact Frames.tail_declare x v b.scopes, hjumps⟩

theorem Steady.declares {α : Type} {m : Lower α} {f : α → Lower String} {x : String} (hm : Steady m)
    (hf : ∀ a, Declares (f a) x) : Declares (m >>= f) x := by
  intro c b v b' hrun
  obtain ⟨a, b₁, h₁, h₂⟩ := hrun.of_bind
  have k₁ := hm c b a b₁ h₁
  obtain ⟨hscopes, hjumps⟩ := hf a c b₁ v b' h₂
  exact ⟨by rw [hscopes, k₁.scopes], hjumps.trans k₁.jumps⟩

/-- What is written behind a declaration does not matter. -/
theorem Declares.before {m : Lower String} {x : String} (hm : Declares m x)
    {k : String → Lower Unit} (hk : ∀ v, Steady (k v)) :
    Declares (do let v ← m; k v; return v) x := by
  intro c b v b' hrun
  obtain ⟨v', b₁, h₁, hrun⟩ := hrun.of_bind
  obtain ⟨_, b₂, h₂, hrun⟩ := hrun.of_bind
  cases hrun
  obtain ⟨hscopes, hjumps⟩ := hm c b v b₁ h₁
  have k₂ := hk v c b₁ () b' h₂
  exact ⟨k₂.scopes.trans hscopes, k₂.jumps.trans hjumps⟩

theorem declares_declareVar (x : String) (ty : Ty) : Declares (declareVar x ty) x := by
  refine (steady_declare x ty).declares fun v => ?_
  intro c b v' b' hrun
  obtain ⟨_, b₁, h₁, hrun⟩ := hrun.of_bind
  cases hrun
  have hbind := (runs_bindName (c := c) (b := b) x v).symm.trans h₁
  cases hbind
  exact ⟨rfl, rfl⟩

/-! ## Expressions -/

theorem steady_valueOf (e : Expr) (t : Option Ir.Temp) : Steady (valueOf e t) :=
  relates_valueOf writing_sameScopes e t

theorem steady_callOf (n : Note) : Steady (callOf n) := relates_callOf writing_sameScopes n

theorem steady_emitBinary (op : BinaryOp) (left right : Ir.Temp) (ty : Ty) :
    Steady (emitBinary op left right ty) :=
  relates_emitBinary writing_sameScopes op left right ty

theorem steady_isTrivial (e : Expr) : Steady (isTrivial e) := relates_isTrivial writing_sameScopes e

theorem steady_startLogical (op : BinaryOp) (left : Ir.Temp) : Steady (startLogical op left) :=
  relates_startLogical writing_sameScopes op left

/-- The initial values of fields see no names, and change none. -/
theorem steady_newInstance (depth : Nat) (proto : String) : Steady (newInstance depth proto) :=
  relates_newInstance writing_sameScopes depth proto

section

variable {ni : String → Lower Ir.Temp} (hni : ∀ proto, Steady (ni proto))

include hni

theorem steady_lowerExpr? (e : Expr) : Steady (lowerExpr? ni e) :=
  relates_lowerExpr? writing_sameScopes hni e

theorem steady_lowerExpr (e : Expr) : Steady (lowerExpr ni e) :=
  relates_lowerExpr writing_sameScopes hni e

theorem steady_lowerExprs (es : List Expr) : Steady (lowerExprs ni es) :=
  relates_lowerExprs writing_sameScopes hni es

theorem steady_lowerEntries (entries : List (Expr × Expr)) : Steady (lowerEntries ni entries) :=
  relates_lowerEntries writing_sameScopes hni entries

omit hni in
theorem steady_openTernary {n : Note} {e x y : Expr} (he : Steady (lowerExpr ni e)) :
    Steady (openTernary ni n e x y) := relates_openTernary writing_sameScopes he

omit hni in
theorem steady_openTernaryElse {n : Note} {e x y : Expr} (he : Steady (lowerExpr ni e))
    (hx : Steady (lowerExpr ni x)) : Steady (openTernaryElse ni n e x y) :=
  relates_openTernaryElse writing_sameScopes he hx

/-! ## Statements -/

theorem declares_lowerDeclared (x : String) (ty : Ty) (init : Option Expr) :
    Declares (lowerDeclared ni x ty init) x := by
  cases init with
  | none => exact declares_declareVar x ty
  | some e =>
      exact (steady_lowerExpr hni e).declares fun _ =>
        (declares_declareVar x ty).before fun _ => steady_emit _

omit hni in
theorem steady_lowerCurrent (op : Option BinaryOp) {current : Lower Ir.Temp} (h : Steady current) :
    Steady (lowerCurrent op current) := by
  cases op with
  | none => exact steady_pure _
  | some op => exact h.bind fun _ => steady_pure _

omit hni in
theorem steady_lowerElement (ty : Ty) (object index : Ir.Temp) : Steady (lowerElement ty object index) := by
  unfold lowerElement
  split
  · exact (steady_emit _).bind fun _ => steady_emitValue _
  · exact steady_emitValue _

theorem steady_openElement (ty : Ty) (object i : Expr) : Steady (openElement ni ty object i) := by
  refine (steady_lowerExpr hni object).bind fun a => (steady_lowerExpr hni i).bind fun b => ?_
  dsimp only
  split
  · exact (steady_emit _).bind fun _ => steady_pure _
  · exact steady_pure _

theorem steady_lowerStored (target value : Expr) (op : Option BinaryOp) (current : Option Ir.Temp) :
    Steady (lowerStored ni target value op current) := by
  refine (steady_lowerExpr hni value).bind fun new => ?_
  split
  · exact (steady_typeOf _).bind fun _ => steady_emitBinary _ _ _ _
  · exact steady_pure _

theorem steady_lowerAssigned (target : Expr) (op : Option BinaryOp) (value : Expr)
    {current : Lower Ir.Temp} (hcurrent : Steady current) :
    Steady (lowerAssigned ni target op value current) := by
  rw [lowerAssigned_eq]
  exact (steady_lowerCurrent op hcurrent).bind fun _ => steady_lowerStored hni target value op _

theorem steady_lowerAssign (target : Expr) (op : Option BinaryOp) (value : Expr) :
    Steady (lowerAssign ni target op value) := by
  cases target with
  | ident n x =>
      refine (steady_varOf? x).bind fun v => ?_
      cases v with
      | none => exact steady_fail _
      | some v =>
          exact (steady_lowerAssigned hni _ op value (steady_emitValue _)).bind fun _ => steady_emit _
  | member n object name =>
      unfold lowerAssign
      dsimp only
      split
      · exact (steady_lowerExpr hni object).bind fun _ =>
          (steady_lowerAssigned hni _ op value (steady_emitValue _)).bind fun _ => steady_emit _
      · exact steady_fail _
  | index n object i =>
      rw [lowerAssign_index]
      exact (steady_typeOf object).bind fun _ => (steady_openElement hni _ object i).bind fun _ =>
        (steady_lowerAssigned hni _ op value (steady_lowerElement _ _ _)).bind fun _ => steady_emit _
  | _ => exact steady_fail _

theorem steady_lowerReturn (value : Option Expr) : Steady (lowerReturn ni value) := by
  cases value with
  | none => exact (steady_unwindTo _).bind fun _ => steady_endWith _
  | some e =>
      exact (steady_lowerExpr hni e).bind fun _ => (steady_unwindTo _).bind fun _ => steady_endWith _

/-- A statement declares a name, or none. -/
theorem scoped_lowerStmt_of_steady {s : Stmt}
    (h : Analysis.declares s = false → Steady (lowerStmt ni s)) : Scoped (lowerStmt ni s) := by
  cases s with
  | varDecl sp x ty isConst init =>
      rw [lowerStmt_varDecl]
      exact (declares_lowerDeclared hni x ty init).scoped.bind fun _ => (steady_pure _).scoped
  | _ => exact (h rfl).scoped

end

theorem steady_lowerBreak : Steady lowerBreak := by
  refine steady_get.bind fun b => ?_
  split
  · exact steady_fail _
  · exact (steady_unwindTo _).bind fun _ => steady_jump _

theorem steady_lowerContinue : Steady lowerContinue := by
  refine steady_get.bind fun b => ?_
  split
  · exact steady_fail _
  · exact (steady_unwindTo _).bind fun _ => steady_jump _

theorem steady_freshLabels (stem : String) (n : Nat) : Steady (freshLabels stem n) := by
  induction n with
  | zero => exact steady_pure _
  | succ n ih => exact (steady_freshLabel _).bind fun _ => ih.bind fun _ => steady_pure _

/-! ### What is written between the parts of a statement -/

section

variable {ni : String → Lower Ir.Temp} (hni : ∀ proto, Steady (ni proto))

include hni

theorem steady_openIf (e : Expr) : Steady (openIf ni e) :=
  (steady_lowerExpr hni e).bind fun _ => (steady_freshLabel _).bind fun _ =>
    (steady_freshLabel _).bind fun _ => (steady_endWith _).bind fun _ =>
    (steady_startBlock _).bind fun _ => steady_pure _

theorem steady_openIfElse (e : Expr) : Steady (openIfElse ni e) :=
  (steady_lowerExpr hni e).bind fun _ => (steady_freshLabel _).bind fun _ =>
    (steady_freshLabel _).bind fun _ => (steady_freshLabel _).bind fun _ =>
    (steady_endWith _).bind fun _ => (steady_startBlock _).bind fun _ => steady_pure _

theorem steady_openElse (e : Expr) {a : List Stmt} (ha : Scoped (lowerStmts ni a)) :
    Steady (openElse ni e a) :=
  (steady_openIfElse hni e).bind fun _ => ha.inScope.bind fun _ => (steady_jump _).bind fun _ =>
    (steady_startBlock _).bind fun _ => steady_pure _

omit hni in
theorem steady_openWhile : Steady openWhile :=
  (steady_freshLabel _).bind fun _ => (steady_freshLabel _).bind fun _ =>
    (steady_freshLabel _).bind fun _ => (steady_jump _).bind fun _ =>
    (steady_startBlock _).bind fun _ => steady_pure _

theorem steady_openWhileBody (e : Expr) : Steady (openWhileBody ni e) :=
  steady_openWhile.bind fun _ => (steady_lowerExpr hni e).bind fun _ =>
    (steady_endWith _).bind fun _ => (steady_startBlock _).bind fun _ => steady_pure _

omit hni in
theorem steady_openDo : Steady openDo :=
  (steady_freshLabel _).bind fun _ => (steady_freshLabel _).bind fun _ =>
    (steady_freshLabel _).bind fun _ => (steady_jump _).bind fun _ =>
    (steady_startBlock _).bind fun _ => steady_pure _

omit hni in
theorem steady_openDoTest {body : List Stmt} (hbody : Scoped (lowerStmts ni body)) :
    Steady (openDoTest ni body) :=
  steady_openDo.bind fun _ => (hbody.inScope.withJumps _ _).bind fun _ => (steady_jump _).bind fun _ =>
    (steady_startBlock _).bind fun _ => steady_pure _

omit hni in
theorem steady_openFor : Steady openFor :=
  (steady_freshLabel _).bind fun _ => (steady_freshLabel _).bind fun _ =>
    (steady_freshLabel _).bind fun _ => (steady_freshLabel _).bind fun _ =>
    (steady_jump _).bind fun _ => (steady_startBlock _).bind fun _ => steady_pure _

theorem steady_openForBody (e : Option Expr) : Steady (openForBody ni e) := by
  refine steady_openFor.bind fun labels => ?_
  cases e with
  | none => exact (steady_jump _).bind fun _ => (steady_startBlock _).bind fun _ => steady_pure _
  | some e =>
      exact (steady_lowerExpr hni e).bind fun _ => (steady_endWith _).bind fun _ =>
        (steady_startBlock _).bind fun _ => steady_pure _

theorem steady_openForStep (e : Option Expr) {body : List Stmt} (hbody : Scoped (lowerStmts ni body)) :
    Steady (openForStep ni e body) :=
  (steady_openForBody hni e).bind fun _ => (hbody.inScope.withJumps _ _).bind fun _ =>
    (steady_jump _).bind fun _ => (steady_startBlock _).bind fun _ => steady_pure _

theorem steady_openForEach (kind : IterKind) (declared : Option Ty) (e : Expr) :
    Steady (openForEach ni kind declared e) :=
  (steady_typeOf e).bind fun _ => (steady_lowerExpr hni e).bind fun _ =>
    (steady_emitValue _).bind fun _ => (steady_freshLabel _).bind fun _ =>
    (steady_freshLabel _).bind fun _ => (steady_freshLabel _).bind fun _ =>
    (steady_jump _).bind fun _ => (steady_startBlock _).bind fun _ =>
    (steady_endWith _).bind fun _ => (steady_startBlock _).bind fun _ => steady_pure _

omit hni in
theorem declares_lowerVisited (x : String) (iter : Ir.Temp) (elem : Ty) :
    Declares (lowerVisited x iter elem) x :=
  (steady_emitValue _).declares fun _ => (declares_declareVar x elem).before fun _ => steady_emit _

theorem steady_openSwitch (e : Expr) (count : Nat) : Steady (openSwitch ni e count) :=
  (steady_lowerExpr hni e).bind fun _ => (steady_freshLabel _).bind fun _ =>
    (steady_freshLabels _ _).bind fun _ => steady_pure _

theorem steady_lowerTest (value : Ir.Temp) (label : String) (e : Expr) :
    Steady (lowerTest ni value label e) :=
  (steady_lowerExpr hni e).bind fun _ => (steady_emitValue _).bind fun _ =>
    (steady_freshLabel _).bind fun _ => (steady_endWith _).bind fun _ => steady_startBlock _

theorem steady_lowerTests (value : Ir.Temp) (otherwise : String) (tests : List (String × Expr)) :
    Steady (lowerTests ni value otherwise tests) := by
  induction tests with
  | nil => exact steady_jump _
  | cons test rest ih =>
      obtain ⟨label, e⟩ := test
      cases rest with
      | nil =>
          exact (steady_lowerExpr hni e).bind fun _ => (steady_emitValue _).bind fun _ => steady_endWith _
      | cons next rest =>
          rw [lowerTests_cons_cons]
          exact (steady_lowerTest hni value label e).bind fun _ => ih

theorem steady_openArms (e : Expr) (arms : List SwitchArm) : Steady (openArms ni e arms) :=
  (steady_openSwitch hni e _).bind fun _ => (steady_lowerTests hni _ _ _).bind fun _ => steady_pure _

omit hni in
theorem steady_lowerArm (done label : String) (labels : List String) {body : List Stmt}
    (hbody : Scoped (lowerStmts ni body)) (fallsThrough : Bool) :
    Steady (lowerArm ni done label labels body fallsThrough) :=
  (steady_startBlock _).bind fun _ => (hbody.inScope.withJumps _ _).bind fun _ => steady_jump _

omit hni in
theorem steady_openTry : Steady openTry :=
  (steady_freshLabel _).bind fun _ => (steady_freshLabel _).bind fun _ => (steady_emit _).bind fun _ =>
    (steady_modify (g := fun b => { b with tryDepth := b.tryDepth + 1 }) fun _ => ⟨rfl, rfl⟩).bind
      fun _ => steady_pure _

omit hni in
theorem steady_openClauses {body : List Stmt} (hbody : Scoped (lowerStmts ni body)) :
    Steady (openClauses ni body) := by
  refine steady_openTry.bind fun labels => hbody.inScope.bind fun _ => (steady_modify
    (g := fun b => { b with tryDepth := b.tryDepth - 1 }) fun _ => ⟨rfl, rfl⟩).bind fun _ =>
    steady_isOpen.bind fun isOpen => ?_
  have hrest : Steady (do
      jump labels.2
      startBlock labels.1
      let exception ← emitValue .catchValue
      return (exception, labels.2)) :=
    (steady_jump _).bind fun _ => (steady_startBlock _).bind fun _ => (steady_emitValue _).bind fun _ =>
      steady_pure _
  cases isOpen with
  | true => exact (steady_emit _).bind fun _ => hrest
  | false => exact hrest

omit hni in
theorem steady_openClause (exception : Ir.Temp) (proto : String) : Steady (openClause exception proto) :=
  (steady_emitValue _).bind fun _ => (steady_freshLabel _).bind fun _ =>
    (steady_freshLabel _).bind fun _ => (steady_endWith _).bind fun _ =>
    (steady_startBlock _).bind fun _ => steady_pure _

omit hni in
theorem declares_lowerCaught (exception : Ir.Temp) (x proto : String) :
    Declares (lowerCaught exception x proto) x :=
  (declares_declareVar x _).before fun _ => steady_emit _

omit hni in
theorem steady_lowerClause (exception : Ir.Temp) (done proto x : String) {body : List Stmt}
    (hbody : Scoped (lowerStmts ni body)) : Steady (lowerClause ni exception done proto x body) :=
  (steady_openClause exception proto).bind fun _ =>
    (Scoped.inScope ((declares_lowerCaught exception x proto).scoped.bind fun _ => hbody)).bind fun _ =>
    (steady_jump _).bind fun _ => steady_startBlock _

end

/-! ### Statements as a whole -/

mutual

/-- What a statement other than a declaration declares is gone behind it. -/
theorem steady_lowerStmt {ni : String → Lower Ir.Temp} (hni : ∀ proto, Steady (ni proto)) :
    (s : Stmt) → Analysis.declares s = false → Steady (lowerStmt ni s)
  | .varDecl .., h => by cases h
  | .assign _ target op e, _ => by
      rw [lowerStmt]
      exact steady_lowerAssign hni target op e
  | .expr _ e, _ => by
      rw [lowerStmt]
      exact (steady_lowerExpr? hni e).bind fun _ => steady_pure _
  | .ifThen sp e body, _ => by
      rw [lowerStmt_ifThen_eq]
      exact (steady_openIf hni e).bind fun _ => (scoped_lowerStmts hni body).inScope.bind fun _ =>
        (steady_jump _).bind fun _ => steady_startBlock _
  | .ifElse sp e a b, _ => by
      rw [lowerStmt_ifElse_eq]
      exact (steady_openElse hni e (scoped_lowerStmts hni a)).bind fun _ =>
        (scoped_lowerStmts hni b).inScope.bind fun _ => (steady_jump _).bind fun _ => steady_startBlock _
  | .while sp e body, _ => by
      rw [lowerStmt_while_eq]
      exact (steady_openWhileBody hni e).bind fun _ =>
        ((scoped_lowerStmts hni body).inScope.withJumps _ _).bind fun _ =>
        (steady_jump _).bind fun _ => steady_startBlock _
  | .doWhile sp body e, _ => by
      rw [lowerStmt_doWhile_eq]
      exact (steady_openDoTest (scoped_lowerStmts hni body)).bind fun _ =>
        (steady_lowerExpr hni e).bind fun _ => (steady_endWith _).bind fun _ => steady_startBlock _
  | .for sp init e update body, _ => by
      rw [lowerStmt_for_eq]
      exact Scoped.inScope ((scoped_lowerStmt? hni init).bind fun _ =>
        (steady_openForStep hni e (scoped_lowerStmts hni body)).scoped.bind fun _ =>
        (scoped_lowerStmt? hni update).bind fun _ => (steady_jump _).scoped.bind fun _ =>
        (steady_startBlock _).scoped)
  | .forEach sp kind ty x e body, _ => by
      rw [lowerStmt_forEach_eq]
      exact (steady_openForEach hni kind ty e).bind fun _ =>
        (Scoped.inScope ((declares_lowerVisited x _ _).scoped.bind fun _ =>
          ((scoped_lowerStmts hni body).inScope.withJumps _ _).scoped)).bind fun _ =>
        (steady_jump _).bind fun _ => steady_startBlock _
  | .switch sp e arms, _ => by
      rw [lowerStmt_switch_eq]
      exact (steady_openArms hni e arms).bind fun _ => (steady_lowerArms hni _ _ arms).bind fun _ =>
        steady_startBlock _
  | .break _, _ => by
      rw [lowerStmt]
      exact steady_lowerBreak
  | .continue _, _ => by
      rw [lowerStmt]
      exact steady_lowerContinue
  | .ret _ e, _ => by
      rw [lowerStmt]
      exact steady_lowerReturn hni e
  | .throw _ e, _ => by
      rw [lowerStmt]
      exact (steady_lowerExpr hni e).bind fun _ => (steady_emit _).bind fun _ => steady_endWith _
  | .try sp body clauses, _ => by
      rw [lowerStmt_try_eq]
      exact (steady_openClauses (scoped_lowerStmts hni body)).bind fun _ =>
        (steady_lowerClauses hni _ _ clauses).bind fun _ => (steady_emit _).bind fun _ =>
        (steady_endWith _).bind fun _ => steady_startBlock _
  | .block _ body, _ => by
      rw [lowerStmt]
      exact (scoped_lowerStmts hni body).inScope

theorem scoped_lowerStmts {ni : String → Lower Ir.Temp} (hni : ∀ proto, Steady (ni proto)) :
    (body : List Stmt) → Scoped (lowerStmts ni body)
  | [] => by
      rw [lowerStmts]
      exact (steady_pure _).scoped
  | s :: rest => by
      have hs := scoped_lowerStmt_of_steady hni (steady_lowerStmt hni s)
      have hrest := scoped_lowerStmts hni rest
      rw [lowerStmts]
      refine steady_isOpen.scoped.bind fun isOpen => ?_
      cases isOpen with
      | true => exact hs.bind fun _ => hrest
      | false => exact (steady_pure _).scoped

theorem scoped_lowerStmt? {ni : String → Lower Ir.Temp} (hni : ∀ proto, Steady (ni proto)) :
    (s : Option Stmt) → Scoped (lowerStmt? ni s)
  | none => by
      rw [lowerStmt?]
      exact (steady_pure _).scoped
  | some s => by
      have hs := scoped_lowerStmt_of_steady hni (steady_lowerStmt hni s)
      rw [lowerStmt?]
      refine steady_isOpen.scoped.bind fun isOpen => ?_
      cases isOpen with
      | true => exact hs
      | false => exact (steady_pure _).scoped

theorem steady_lowerArms {ni : String → Lower Ir.Temp} (hni : ∀ proto, Steady (ni proto))
    (done : String) : (labels : List String) → (arms : List SwitchArm) →
    Steady (lowerArms ni done labels arms)
  | label :: labels, .mk sp test body falls :: rest => by
      rw [lowerArms_cons]
      exact (steady_lowerArm done label labels (scoped_lowerStmts hni body) falls).bind fun _ =>
        steady_lowerArms hni done labels rest
  | [], [] => steady_pure _
  | [], _ :: _ => steady_pure _
  | _ :: _, [] => steady_pure _

theorem steady_lowerClauses {ni : String → Lower Ir.Temp} (hni : ∀ proto, Steady (ni proto))
    (exception : Ir.Temp) (done : String) : (clauses : List CatchClause) →
    Steady (lowerClauses ni exception done clauses)
  | [] => by
      rw [lowerClauses]
      exact steady_pure _
  | .mk sp proto x body :: rest => by
      rw [lowerClauses_cons]
      exact (steady_lowerClause exception done proto x (scoped_lowerStmts hni body)).bind fun _ =>
        steady_lowerClauses hni exception done rest

end

end ProtoScript.Lowering
