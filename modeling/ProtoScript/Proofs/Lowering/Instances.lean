import ProtoScript.Proofs.Lowering.Calm
import ProtoScript.Proofs.Lowering.Visits

set_option autoImplicit false

/-!
# New instances that lowering asks for

An expression asks for new instances of the prototypes that it names as values or clones
(`Expr.instances`), a statement for those of its expressions. How new instances are written matters to
lowering only where they are asked for: two ways of writing them that agree there agree on all that is
lowered (`agrees_lowerStmts`).
-/

namespace ProtoScript

/-! ## What is asked for -/

/-- The prototype of which a name stands for a new instance. -/
def ValueTarget.instances : ValueTarget → List String
  | .prototype proto => [proto]
  | _ => []

mutual

/-- The prototypes whose new instances an expression needs for its value. -/
def Expr.instances : Expr → List String
  | .literal .. | .self _ => []
  | .ident n _ => (n.value?.map ValueTarget.instances).getD []
  | .unary _ _ e | .cast _ e _ => e.instances
  | .binary _ _ a b | .index _ a b => a.instances ++ b.instances
  | .ternary _ e a b => e.instances ++ (a.instances ++ b.instances)
  | .call n _ args =>
    match n.call? with
    | some (.newInstance proto) => [proto]
    | _ => instancesOf args
  | .methodCall n e _ args =>
    match n.call? with
    | some (.newInstance proto) => [proto]
    | some target =>
      (if Lowering.needsReceiver e target then e.instances else []) ++
        if Lowering.needsArgs target then instancesOf args else []
    | none => []
  | .member n e _ =>
    match n.value? with
    | some (.field ..) => e.instances
    | _ => []
  | .list _ items => instancesOf items
  | .map _ entries => instancesOfEntries entries

/-- Those that expressions need. -/
def instancesOf : List Expr → List String
  | [] => []
  | e :: rest => e.instances ++ instancesOf rest

/-- Those that keys and values need. -/
def instancesOfEntries : List (Expr × Expr) → List String
  | [] => []
  | (key, value) :: rest => key.instances ++ (value.instances ++ instancesOfEntries rest)

end

/-- Those that the parts of an assignment's target need. -/
def Expr.targetInstances : Expr → List String
  | .member _ object _ => object.instances
  | .index _ object i => object.instances ++ i.instances
  | _ => []

/-- Those that an expression needs, if there is one. -/
def instancesOf? : Option Expr → List String
  | none => []
  | some e => e.instances

mutual

/-- The prototypes whose new instances a statement asks for. -/
def Stmt.instances : Stmt → List String
  | .varDecl _ _ _ _ init => instancesOf? init
  | .assign _ target _ value => target.targetInstances ++ value.instances
  | .expr _ e | .throw _ e => e.instances
  | .ifThen _ e body | .while _ e body | .doWhile _ body e | .forEach _ _ _ _ e body =>
    e.instances ++ stmtsInstances body
  | .ifElse _ e thenBody elseBody => e.instances ++ (stmtsInstances thenBody ++ stmtsInstances elseBody)
  | .for _ init e update body =>
    stmtInstances? init ++ (instancesOf? e ++ (stmtsInstances body ++ stmtInstances? update))
  | .switch _ e arms => e.instances ++ armsInstances arms
  | .break _ | .continue _ => []
  | .ret _ value => instancesOf? value
  | .try _ body clauses => stmtsInstances body ++ clausesInstances clauses
  | .block _ body => stmtsInstances body

/-- Those that statements ask for. -/
def stmtsInstances : List Stmt → List String
  | [] => []
  | s :: rest => s.instances ++ stmtsInstances rest

/-- Those that a statement asks for, if there is one. -/
def stmtInstances? : Option Stmt → List String
  | none => []
  | some s => s.instances

/-- Those that the arms of a switch ask for. -/
def armsInstances : List SwitchArm → List String
  | [] => []
  | .mk _ test body _ :: rest => instancesOf? test ++ (stmtsInstances body ++ armsInstances rest)

/-- Those that clauses ask for. -/
def clausesInstances : List CatchClause → List String
  | [] => []
  | .mk _ _ _ body :: rest => stmtsInstances body ++ clausesInstances rest

end

namespace Lowering

variable {α β : Type} {c : Comparison} {m m' : Lower α} {f f' : α → Lower β}

/-! ## Expressions that agree -/

/-- Two ways of writing new instances agree on those of the given prototypes. -/
def AgreeOn (c : Comparison) (ni ni' : String → Lower Ir.Temp) (protos : List String) : Prop :=
  ∀ proto ∈ protos, Agrees c (ni proto) (ni' proto)

theorem AgreeOn.left {ni ni' : String → Lower Ir.Temp} {ps qs : List String}
    (h : AgreeOn c ni ni' (ps ++ qs)) : AgreeOn c ni ni' ps :=
  fun proto hproto => h proto (List.mem_append_left _ hproto)

theorem AgreeOn.right {ni ni' : String → Lower Ir.Temp} {ps qs : List String}
    (h : AgreeOn c ni ni' (ps ++ qs)) : AgreeOn c ni ni' qs :=
  fun proto hproto => h proto (List.mem_append_right _ hproto)

section

variable {ni ni' : String → Lower Ir.Temp}

theorem agrees_emitTarget {name : String} {target : Option ValueTarget}
    (h : AgreeOn c ni ni' ((target.map ValueTarget.instances).getD [])) :
    Agrees c (emitTarget ni name target) (emitTarget ni' name target) := by
  unfold emitTarget
  split
  · exact (calm_emitValue _).agrees
  · exact h _ (List.mem_singleton_self _)
  · exact (calm_unresolvedName name).agrees

theorem Agrees.value {e : Expr} {m m' : Lower (Option Ir.Temp)} (hm : Agrees c m m')
    {f f' : Ir.Temp → Lower β} (hf : ∀ t, Agrees c (f t) (f' t)) :
    Agrees c (do let t ← valueOf e (← m); f t) (do let t ← valueOf e (← m'); f' t) :=
  hm.bind fun _ => (calm_valueOf _ _).before hf

theorem call_of_callOf {c : Context} {n : Note} {b : Builder} {r : (CallTarget × Bool) × Builder}
    (hrun : callOf n c b = .ok r) : n.call? = some r.1.1 := by
  unfold callOf at hrun
  cases hcall : n.call? with
  | none =>
      rw [hcall] at hrun
      cases hrun
  | some target =>
      cases hty : n.type? with
      | none =>
          rw [hcall, hty] at hrun
          cases hrun
      | some ty =>
          rw [hcall, hty] at hrun
          cases hrun
          rfl

/-- It suffices to agree for the target that a call has. -/
theorem agrees_callOf {n : Note} {f f' : CallTarget × Bool → Lower β}
    (hf : ∀ target hasResult, n.call? = some target → Agrees c (f (target, hasResult)) (f' (target, hasResult))) :
    Agrees c (callOf n >>= f) (callOf n >>= f') where
  same b := by
    rw [bind_apply, bind_apply, ← (calm_callOf n).same c.left c.right c.sameName b]
    cases hrun : callOf n c.left b with
    | error e => rfl
    | ok r =>
        exact (hf _ _ (call_of_callOf hrun)).same r.2
  calm b e proto he := by
    rw [bind_apply] at he
    cases hrun : callOf n c.left b with
    | error e' =>
        rw [hrun] at he
        cases he
        exact (calm_callOf n).agrees.calm b _ proto hrun
    | ok r =>
        rw [hrun] at he
        exact (hf _ _ (call_of_callOf hrun)).calm r.2 e proto he

mutual

theorem agrees_lowerExpr? : (e : Expr) → AgreeOn c ni ni' e.instances →
    Agrees c (lowerExpr? ni e) (lowerExpr? ni' e)
  | .literal .., _ => by
      rw [lowerExpr?, lowerExpr?]
      exact ((calm_emitValue _).bind fun _ => calm_pure _).agrees
  | .ident n x, h => by
      rw [Expr.instances] at h
      rw [lowerExpr?, lowerExpr?]
      refine (calm_varOf? x).before fun v => ?_
      cases v with
      | none => exact (agrees_emitTarget h).bind fun _ => (calm_pure _).agrees
      | some v => exact ((calm_emitValue _).bind fun _ => calm_pure _).agrees
  | .self _, _ => by
      rw [lowerExpr?, lowerExpr?]
      exact ((calm_emitValue _).bind fun _ => calm_pure _).agrees
  | .unary _ op e, h => by
      rw [Expr.instances] at h
      rw [lowerExpr?, lowerExpr?]
      exact (calm_typeOf e).before fun _ => (agrees_lowerExpr? e h).value fun _ =>
        ((calm_emitUnary _ _ _).bind fun _ => calm_pure _).agrees
  | .binary _ op l r, h => by
      rw [Expr.instances] at h
      have hl := agrees_lowerExpr? l h.left
      have hr := agrees_lowerExpr? r h.right
      rw [lowerExpr?, lowerExpr?]
      split
      · refine hl.value fun a => (calm_isTrivial r).before fun trivial => ?_
        cases trivial with
        | true => exact hr.value fun _ => ((calm_emitValue _).bind fun _ => calm_pure _).agrees
        | false =>
            exact (calm_startLogical op a).before fun _ => (calm_startBlock _).before fun _ =>
              hr.value fun _ => ((calm_emit _).bind fun _ => (calm_jump _).bind fun _ =>
              (calm_startBlock _).bind fun _ => (calm_emitValue _).bind fun _ => calm_pure _).agrees
      · exact (calm_typeOf l).before fun _ => hl.value fun _ => hr.value fun _ =>
          ((calm_emitBinary _ _ _ _).bind fun _ => calm_pure _).agrees
  | .ternary n e x y, h => by
      rw [Expr.instances] at h
      rw [lowerExpr?, lowerExpr?]
      exact (calm_typeOf _).before fun _ => (agrees_lowerExpr? e h.left).value fun _ =>
        (calm_declareJoin _).before fun _ => (calm_freshLabel _).before fun _ =>
        (calm_freshLabel _).before fun _ => (calm_freshLabel _).before fun _ =>
        (calm_endWith _).before fun _ => (calm_startBlock _).before fun _ =>
        (agrees_lowerExpr? x h.right.left).value fun _ => (calm_emit _).before fun _ =>
        (calm_jump _).before fun _ => (calm_startBlock _).before fun _ =>
        (agrees_lowerExpr? y h.right.right).value fun _ => ((calm_emit _).bind fun _ =>
        (calm_jump _).bind fun _ => (calm_startBlock _).bind fun _ =>
        (calm_emitValue _).bind fun _ => calm_pure _).agrees
  | .call n name args, h => by
      rw [Expr.instances] at h
      rw [lowerExpr?, lowerExpr?]
      refine agrees_callOf fun target hasResult hcall => ?_
      rw [hcall] at h
      have hplain : AgreeOn c ni ni' (instancesOf args) →
          Agrees c (do emitPlainCall n target hasResult (← lowerExprs ni args))
            (do emitPlainCall n target hasResult (← lowerExprs ni' args)) := fun h =>
        (agrees_lowerExprs args h).bind fun _ => (calm_emitPlainCall _ _ _ _).agrees
      cases target with
      | newInstance proto => exact (h proto (List.mem_singleton_self _)).bind fun _ => (calm_pure _).agrees
      | function | print | foreign => exact hplain h
      | method | copyInstance | container =>
          exact (calm_unresolvedCall n.span).agrees
  | .methodCall n e name args, h => by
      rw [Expr.instances] at h
      rw [lowerExpr?, lowerExpr?]
      refine agrees_callOf fun target hasResult hcall => ?_
      rw [hcall] at h
      have hargs : AgreeOn c ni ni' (instancesOf args) → ∀ {m : List Ir.Temp → Lower (Option Ir.Temp)},
          (∀ ts, Calm (m ts)) →
          Agrees c (do m (← lowerExprs ni args)) (do m (← lowerExprs ni' args)) := fun h _ hm =>
        (agrees_lowerExprs args h).bind fun ts => (hm ts).agrees
      cases target with
      | newInstance proto => exact (h proto (List.mem_singleton_self _)).bind fun _ => (calm_pure _).agrees
      | function | print => exact hargs h.right fun _ => calm_emitPlainCall _ _ _ _
      | foreign =>
          dsimp only
          split
          · rename_i htype
            have he : AgreeOn c ni ni' e.instances := by simpa [needsReceiver, htype] using h.left
            exact (agrees_lowerExpr? e he).value fun _ => hargs h.right fun _ => calm_emitPlainCall _ _ _ _
          · exact hargs h.right fun _ => calm_emitPlainCall _ _ _ _
      | copyInstance =>
          exact (agrees_lowerExpr? e h.left).value fun _ => (calm_emitMethodCall _ _ _ _ _).agrees
      | method | container =>
          exact (agrees_lowerExpr? e h.left).value fun _ => hargs h.right fun _ =>
            calm_emitMethodCall _ _ _ _ _
  | .member n e name, h => by
      rw [Expr.instances] at h
      rw [lowerExpr?, lowerExpr?]
      split
      · exact ((calm_emitValue _).bind fun _ => calm_pure _).agrees
      · rename_i hvalue
        rw [hvalue] at h
        exact (agrees_lowerExpr? e h).value fun _ => ((calm_emitValue _).bind fun _ => calm_pure _).agrees
      · exact (calm_unresolvedName name).agrees
  | .index _ e i, h => by
      rw [Expr.instances] at h
      rw [lowerExpr?, lowerExpr?]
      exact (calm_typeOf e).before fun _ => (agrees_lowerExpr? e h.left).value fun _ =>
        (agrees_lowerExpr? i h.right).value fun _ => ((calm_emit _).bind fun _ =>
        (calm_emitValue _).bind fun _ => calm_pure _).agrees
  | .cast _ e _, h => by
      rw [Expr.instances] at h
      rw [lowerExpr?, lowerExpr?]
      exact (agrees_lowerExpr? e h).value fun _ => ((calm_emitValue _).bind fun _ => calm_pure _).agrees
  | .list _ items, h => by
      rw [Expr.instances] at h
      rw [lowerExpr?, lowerExpr?]
      exact (calm_typeOf _).before fun _ => (agrees_lowerExprs items h).bind fun _ =>
        ((calm_emitValue _).bind fun _ => calm_pure _).agrees
  | .map _ entries, h => by
      rw [Expr.instances] at h
      rw [lowerExpr?, lowerExpr?]
      exact (calm_typeOf _).before fun _ => (agrees_lowerEntries entries h).bind fun _ =>
        ((calm_emitValue _).bind fun _ => calm_pure _).agrees

theorem agrees_lowerExprs : (es : List Expr) → AgreeOn c ni ni' (instancesOf es) →
    Agrees c (lowerExprs ni es) (lowerExprs ni' es)
  | [], _ => by
      rw [lowerExprs, lowerExprs]
      exact (calm_pure _).agrees
  | e :: rest, h => by
      rw [instancesOf] at h
      rw [lowerExprs, lowerExprs]
      exact (agrees_lowerExpr? e h.left).value fun _ => (agrees_lowerExprs rest h.right).bind fun _ =>
        (calm_pure _).agrees

theorem agrees_lowerEntries : (entries : List (Expr × Expr)) →
    AgreeOn c ni ni' (instancesOfEntries entries) → Agrees c (lowerEntries ni entries) (lowerEntries ni' entries)
  | [], _ => by
      rw [lowerEntries, lowerEntries]
      exact (calm_pure _).agrees
  | (key, value) :: rest, h => by
      rw [instancesOfEntries] at h
      rw [lowerEntries, lowerEntries]
      exact (agrees_lowerExpr? key h.left).value fun _ => (agrees_lowerExpr? value h.right.left).value
        fun _ => (agrees_lowerEntries rest h.right.right).bind fun _ => (calm_pure _).agrees

end

theorem agrees_lowerExpr (e : Expr) (h : AgreeOn c ni ni' e.instances) :
    Agrees c (lowerExpr ni e) (lowerExpr ni' e) :=
  (agrees_lowerExpr? e h).bind fun _ => (calm_valueOf _ _).agrees

/-! ## Statements that agree -/

theorem agrees_lowerVarDecl {x : String} {ty : Ty} (init : Option Expr)
    (h : AgreeOn c ni ni' (instancesOf? init)) :
    Agrees c (lowerVarDecl ni x ty init) (lowerVarDecl ni' x ty init) := by
  cases init with
  | none => exact ((calm_declareVar x ty).bind fun _ => calm_pure _).agrees
  | some e =>
      exact (agrees_lowerExpr e h).bind fun _ => ((calm_declareVar x ty).bind fun _ => calm_emit _).agrees

theorem agrees_lowerAssigned {target value : Expr} {op : Option BinaryOp} {current : Lower Ir.Temp}
    (hcurrent : Calm current) (h : AgreeOn c ni ni' value.instances) :
    Agrees c (lowerAssigned ni target op value current) (lowerAssigned ni' target op value current) := by
  cases op with
  | none => exact agrees_lowerExpr value h
  | some op =>
      exact hcurrent.before fun _ => (agrees_lowerExpr value h).bind fun _ =>
        ((calm_typeOf _).bind fun _ => calm_emitBinary _ _ _ _).agrees

theorem calm_lowerElement (ty : Ty) (object index : Ir.Temp) : Calm (lowerElement ty object index) := by
  unfold lowerElement
  split
  · exact (calm_emit _).bind fun _ => calm_emitValue _
  · exact calm_emitValue _

theorem agrees_lowerAssign (target : Expr) {op : Option BinaryOp} {value : Expr}
    (h : AgreeOn c ni ni' (target.targetInstances ++ value.instances)) :
    Agrees c (lowerAssign ni target op value) (lowerAssign ni' target op value) := by
  cases target with
  | ident n x =>
      refine (calm_varOf? x).before fun v => ?_
      cases v with
      | none => exact (calm_unresolvedName x).agrees
      | some v => exact (agrees_lowerAssigned (calm_emitValue _) h.right).bind fun _ => (calm_emit _).agrees
  | member n object name =>
      unfold lowerAssign
      dsimp only
      split
      · exact (agrees_lowerExpr object h.left).bind fun _ =>
          (agrees_lowerAssigned (calm_emitValue _) h.right).bind fun _ => (calm_emit _).agrees
      · exact (calm_unresolvedName name).agrees
  | index n object i =>
      rw [lowerAssign_index, lowerAssign_index]
      refine (calm_typeOf object).before fun ty => Agrees.bind ?_ fun _ =>
        (agrees_lowerAssigned (calm_lowerElement _ _ _) h.right).bind fun _ => (calm_emit _).agrees
      refine (agrees_lowerExpr object h.left.left).bind fun a => (agrees_lowerExpr i h.left.right).bind
        fun b => ?_
      cases isMap ty with
      | true => exact (calm_pure _).agrees
      | false => exact ((calm_emit _).bind fun _ => calm_pure _).agrees
  | _ => exact (calm_unresolvedName "<assignment target>").agrees

theorem agrees_lowerReturn (value : Option Expr) (h : AgreeOn c ni ni' (instancesOf? value)) :
    Agrees c (lowerReturn ni value) (lowerReturn ni' value) := by
  cases value with
  | none => exact ((calm_unwindTo _).bind fun _ => calm_endWith _).agrees
  | some e =>
      exact (agrees_lowerExpr e h).bind fun _ => ((calm_unwindTo _).bind fun _ => calm_endWith _).agrees

/-- The tests of a switch are those of its arms. -/
theorem instances_subset_of_mem_armTests {arms : List SwitchArm} {labels : List String}
    {test : String × Expr} (htest : test ∈ armTests arms labels) :
    test.2.instances ⊆ armsInstances arms := by
  induction arms generalizing labels with
  | nil => simp [armTests] at htest
  | cons arm rest ih =>
      obtain ⟨sp, e?, body, falls⟩ := arm
      cases labels with
      | nil => cases htest
      | cons label labels =>
          have hrest : test ∈ armTests rest labels →
              test.2.instances ⊆ armsInstances (.mk sp e? body falls :: rest) := fun h =>
            List.Subset.trans (ih h)
              (List.subset_append_of_subset_right _ (List.subset_append_right _ _))
          cases e? with
          | none => exact hrest htest
          | some e =>
              rcases List.mem_cons.1 htest with rfl | htest
              · exact List.subset_append_left _ _
              · exact hrest htest

theorem agrees_lowerTests {value : Ir.Temp} {otherwise : String} {tests : List (String × Expr)}
    (h : ∀ test ∈ tests, AgreeOn c ni ni' test.2.instances) :
    Agrees c (lowerTests ni value otherwise tests) (lowerTests ni' value otherwise tests) := by
  induction tests with
  | nil => exact (calm_jump _).agrees
  | cons test rest ih =>
      obtain ⟨label, e⟩ := test
      have he := agrees_lowerExpr e (h _ List.mem_cons_self)
      cases rest with
      | nil => exact he.bind fun _ => ((calm_emitValue _).bind fun _ => calm_endWith _).agrees
      | cons next rest =>
          rw [lowerTests_cons_cons, lowerTests_cons_cons]
          have htest : Agrees c (lowerTest ni value label e) (lowerTest ni' value label e) :=
            he.bind fun _ => ((calm_emitValue _).bind fun _ => (calm_freshLabel _).bind fun _ =>
              (calm_endWith _).bind fun _ => calm_startBlock _).agrees
          exact htest.bind fun _ => ih fun test htest => h test (List.mem_cons_of_mem _ htest)

theorem calm_openFor : Calm openFor :=
  (calm_freshLabel _).bind fun _ => (calm_freshLabel _).bind fun _ => (calm_freshLabel _).bind fun _ =>
    (calm_freshLabel _).bind fun _ => (calm_jump _).bind fun _ => (calm_startBlock _).bind fun _ =>
    calm_pure _

theorem agrees_openForBody (e : Option Expr) (h : AgreeOn c ni ni' (instancesOf? e)) :
    Agrees c (openForBody ni e) (openForBody ni' e) := by
  refine calm_openFor.before fun labels => ?_
  cases e with
  | none => exact ((calm_jump _).bind fun _ => (calm_startBlock _).bind fun _ => calm_pure _).agrees
  | some e =>
      exact (agrees_lowerExpr e h).bind fun _ =>
        ((calm_endWith _).bind fun _ => (calm_startBlock _).bind fun _ => calm_pure _).agrees

mutual

theorem agrees_lowerStmt : (s : Stmt) → AgreeOn c ni ni' s.instances →
    Agrees c (lowerStmt ni s) (lowerStmt ni' s)
  | .varDecl _ _ _ _ init, h => by
      rw [Stmt.instances] at h
      rw [lowerStmt, lowerStmt]
      exact agrees_lowerVarDecl init h
  | .assign _ target op value, h => by
      rw [Stmt.instances] at h
      rw [lowerStmt, lowerStmt]
      exact agrees_lowerAssign target h
  | .expr _ e, h => by
      rw [Stmt.instances] at h
      rw [lowerStmt, lowerStmt]
      exact (agrees_lowerExpr? e h).bind fun _ => (calm_pure _).agrees
  | .ifThen _ e body, h => by
      rw [Stmt.instances] at h
      rw [lowerStmt, lowerStmt]
      exact (agrees_lowerExpr e h.left).bind fun _ => (calm_freshLabel _).before fun _ =>
        (calm_freshLabel _).before fun _ => (calm_endWith _).before fun _ =>
        (calm_startBlock _).before fun _ => (agrees_lowerStmts body h.right).inScope.bind fun _ =>
        ((calm_jump _).bind fun _ => calm_startBlock _).agrees
  | .ifElse _ e x y, h => by
      rw [Stmt.instances] at h
      rw [lowerStmt, lowerStmt]
      exact (agrees_lowerExpr e h.left).bind fun _ => (calm_freshLabel _).before fun _ =>
        (calm_freshLabel _).before fun _ => (calm_freshLabel _).before fun _ =>
        (calm_endWith _).before fun _ => (calm_startBlock _).before fun _ =>
        (agrees_lowerStmts x h.right.left).inScope.bind fun _ => (calm_jump _).before fun _ =>
        (calm_startBlock _).before fun _ => (agrees_lowerStmts y h.right.right).inScope.bind fun _ =>
        ((calm_jump _).bind fun _ => calm_startBlock _).agrees
  | .while _ e body, h => by
      rw [Stmt.instances] at h
      rw [lowerStmt, lowerStmt]
      exact (calm_freshLabel _).before fun _ => (calm_freshLabel _).before fun _ =>
        (calm_freshLabel _).before fun _ => (calm_jump _).before fun _ =>
        (calm_startBlock _).before fun _ => (agrees_lowerExpr e h.left).bind fun _ =>
        (calm_endWith _).before fun _ => (calm_startBlock _).before fun _ =>
        ((agrees_lowerStmts body h.right).inScope.withJumps _ _).bind fun _ =>
        ((calm_jump _).bind fun _ => calm_startBlock _).agrees
  | .doWhile _ body e, h => by
      rw [Stmt.instances] at h
      rw [lowerStmt, lowerStmt]
      exact (calm_freshLabel _).before fun _ => (calm_freshLabel _).before fun _ =>
        (calm_freshLabel _).before fun _ => (calm_jump _).before fun _ =>
        (calm_startBlock _).before fun _ =>
        ((agrees_lowerStmts body h.right).inScope.withJumps _ _).bind fun _ =>
        (calm_jump _).before fun _ => (calm_startBlock _).before fun _ =>
        (agrees_lowerExpr e h.left).bind fun _ =>
        ((calm_endWith _).bind fun _ => calm_startBlock _).agrees
  | .for _ init e update body, h => by
      rw [Stmt.instances] at h
      rw [lowerStmt_for_eq, lowerStmt_for_eq]
      have hstep : Agrees c (openForStep ni e body) (openForStep ni' e body) :=
        (agrees_openForBody e h.right.left).bind fun _ =>
          ((agrees_lowerStmts body h.right.right.left).inScope.withJumps _ _).bind fun _ =>
          ((calm_jump _).bind fun _ => (calm_startBlock _).bind fun _ => calm_pure _).agrees
      exact Agrees.inScope ((agrees_lowerStmt? init h.left).bind fun _ => hstep.bind fun _ =>
        (agrees_lowerStmt? update h.right.right.right).bind fun _ =>
        ((calm_jump _).bind fun _ => calm_startBlock _).agrees)
  | .forEach _ _ _ x e body, h => by
      rw [Stmt.instances] at h
      rw [lowerStmt, lowerStmt]
      exact (calm_typeOf e).before fun _ => (agrees_lowerExpr e h.left).bind fun _ =>
        (calm_emitValue _).before fun _ => (calm_freshLabel _).before fun _ =>
        (calm_freshLabel _).before fun _ => (calm_freshLabel _).before fun _ =>
        (calm_jump _).before fun _ => (calm_startBlock _).before fun _ =>
        (calm_endWith _).before fun _ => (calm_startBlock _).before fun _ =>
        (Agrees.inScope ((calm_emitValue _).before fun _ => (calm_declareVar x _).before fun _ =>
          (calm_emit _).before fun _ => (agrees_lowerStmts body h.right).inScope.withJumps _ _)).bind
        fun _ => ((calm_jump _).bind fun _ => calm_startBlock _).agrees
  | .switch _ e arms, h => by
      rw [Stmt.instances] at h
      rw [lowerStmt, lowerStmt]
      exact (agrees_lowerExpr e h.left).bind fun _ => (calm_freshLabel _).before fun _ =>
        (calm_freshLabels _ _).before fun _ =>
        (agrees_lowerTests fun _ htest proto hproto =>
          h.right proto (instances_subset_of_mem_armTests htest hproto)).bind fun _ =>
        (agrees_lowerArms arms h.right).bind fun _ => (calm_startBlock _).agrees
  | .break _, _ => by
      rw [lowerStmt, lowerStmt]
      exact calm_lowerBreak.agrees
  | .continue _, _ => by
      rw [lowerStmt, lowerStmt]
      exact calm_lowerContinue.agrees
  | .ret _ value, h => by
      rw [Stmt.instances] at h
      rw [lowerStmt, lowerStmt]
      exact agrees_lowerReturn value h
  | .throw _ e, h => by
      rw [Stmt.instances] at h
      rw [lowerStmt, lowerStmt]
      exact (agrees_lowerExpr e h).bind fun _ => ((calm_emit _).bind fun _ => calm_endWith _).agrees
  | .try _ body clauses, h => by
      rw [Stmt.instances] at h
      rw [lowerStmt, lowerStmt]
      refine (calm_freshLabel _).before fun _ => (calm_freshLabel _).before fun _ =>
        (calm_emit _).before fun _ => (calm_modify _).before fun _ =>
        (agrees_lowerStmts body h.left).inScope.bind fun _ => (calm_modify _).before fun _ =>
        calm_isOpen.before fun isOpen => ?_
      have hrest : ∀ handler done, Agrees c
          (do
            jump done
            startBlock handler
            let exception ← emitValue .catchValue
            lowerClauses ni exception done clauses
            emit (.throw exception)
            endWith .unreachable
            startBlock done)
          (do
            jump done
            startBlock handler
            let exception ← emitValue .catchValue
            lowerClauses ni' exception done clauses
            emit (.throw exception)
            endWith .unreachable
            startBlock done) := fun _ _ =>
        (calm_jump _).before fun _ => (calm_startBlock _).before fun _ =>
          (calm_emitValue _).before fun _ => (agrees_lowerClauses clauses h.right).bind fun _ =>
          ((calm_emit _).bind fun _ => (calm_endWith _).bind fun _ => calm_startBlock _).agrees
      cases isOpen with
      | true => exact (calm_emit _).before fun _ => hrest _ _
      | false => exact hrest _ _
  | .block _ body, h => by
      rw [Stmt.instances] at h
      rw [lowerStmt, lowerStmt]
      exact (agrees_lowerStmts body h).inScope

theorem agrees_lowerStmts : (body : List Stmt) → AgreeOn c ni ni' (stmtsInstances body) →
    Agrees c (lowerStmts ni body) (lowerStmts ni' body)
  | [], _ => by
      rw [lowerStmts, lowerStmts]
      exact (calm_pure _).agrees
  | s :: rest, h => by
      rw [stmtsInstances] at h
      rw [lowerStmts, lowerStmts]
      refine calm_isOpen.before fun isOpen => ?_
      cases isOpen with
      | true => exact (agrees_lowerStmt s h.left).bind fun _ => agrees_lowerStmts rest h.right
      | false => exact (calm_pure _).agrees

theorem agrees_lowerStmt? : (s : Option Stmt) → AgreeOn c ni ni' (stmtInstances? s) →
    Agrees c (lowerStmt? ni s) (lowerStmt? ni' s)
  | none, _ => by
      rw [lowerStmt?, lowerStmt?]
      exact (calm_pure _).agrees
  | some s, h => by
      rw [stmtInstances?] at h
      rw [lowerStmt?, lowerStmt?]
      refine calm_isOpen.before fun isOpen => ?_
      cases isOpen with
      | true => exact agrees_lowerStmt s h
      | false => exact (calm_pure _).agrees

theorem agrees_lowerArms {done : String} : (arms : List SwitchArm) → {labels : List String} →
    AgreeOn c ni ni' (armsInstances arms) →
    Agrees c (lowerArms ni done labels arms) (lowerArms ni' done labels arms)
  | .mk _ test body falls :: rest, label :: labels, h => by
      rw [armsInstances] at h
      rw [lowerArms, lowerArms]
      exact (calm_startBlock _).before fun _ =>
        ((agrees_lowerStmts body h.right.left).inScope.withJumps _ _).bind fun _ =>
        (calm_jump _).before fun _ => agrees_lowerArms rest h.right.right
  | [], [], _ => (calm_pure _).agrees
  | [], _ :: _, _ => (calm_pure _).agrees
  | _ :: _, [], _ => (calm_pure _).agrees

theorem agrees_lowerClauses {exception : Ir.Temp} {done : String} : (clauses : List CatchClause) →
    AgreeOn c ni ni' (clausesInstances clauses) →
    Agrees c (lowerClauses ni exception done clauses) (lowerClauses ni' exception done clauses)
  | [], _ => by
      rw [lowerClauses, lowerClauses]
      exact (calm_pure _).agrees
  | .mk _ proto x body :: rest, h => by
      rw [clausesInstances] at h
      rw [lowerClauses, lowerClauses]
      exact (calm_emitValue _).before fun _ => (calm_freshLabel _).before fun _ =>
        (calm_freshLabel _).before fun _ => (calm_endWith _).before fun _ =>
        (calm_startBlock _).before fun _ =>
        (Agrees.inScope ((calm_declareVar x _).before fun _ => (calm_emit _).before fun _ =>
          agrees_lowerStmts body h.left)).bind fun _ =>
        (calm_jump _).before fun _ => (calm_startBlock _).before fun _ => agrees_lowerClauses rest h.right

end

end

end Lowering

end ProtoScript
