import ProtoScript.Proofs.Lowering.Endless
import ProtoScript.Proofs.Lowering.Module
import ProtoScript.Proofs.Lowering.Total
import ProtoScript.Proofs.Source.Jumps

set_option autoImplicit false

/-!
# Programs that can be lowered

A checked function can still be refused by lowering: where the value of a call without a result is used, where
the step of a loop jumps or uses a name of the loop's body, and where new instances do not come to an end. In
every other program without problems all functions are lowered (`lower_of_isClean`).

The proof follows the statements (`succeeds_lowerStmt`). The checker and lowering have the same names in sight
at every statement that is written; what stands behind a jump is not. The step of a loop is the one place where
they differ: it is checked behind the body, and written outside of the body's scope.
-/

namespace ProtoScript

/-! ## Operands of statements -/

mutual

/-- The operands of the statement have values. An expression that stands by itself need not have one. -/
def Stmt.isValued : Stmt → Bool
  | .varDecl _ _ _ _ init => init.all Expr.hasValue
  | .assign _ target _ e => target.isValued && e.hasValue
  | .expr _ e => e.isValued
  | .ifThen _ e body | .while _ e body | .doWhile _ body e | .forEach _ _ _ _ e body =>
    e.hasValue && stmtsValued body
  | .ifElse _ e a b => e.hasValue && (stmtsValued a && stmtsValued b)
  | .for _ init e update body =>
    stmtValued? init && (e.all Expr.hasValue && (stmtValued? update && stmtsValued body))
  | .switch _ e arms => e.hasValue && armsValued arms
  | .break _ | .continue _ => true
  | .ret _ e => e.all Expr.hasValue
  | .throw _ e => e.hasValue
  | .try _ body clauses => stmtsValued body && clausesValued clauses
  | .block _ body => stmtsValued body

def stmtsValued : List Stmt → Bool
  | [] => true
  | s :: rest => s.isValued && stmtsValued rest

def stmtValued? : Option Stmt → Bool
  | none => true
  | some s => s.isValued

def armsValued : List SwitchArm → Bool
  | [] => true
  | .mk _ test body _ :: rest => test.all Expr.hasValue && (stmtsValued body && armsValued rest)

def clausesValued : List CatchClause → Bool
  | [] => true
  | .mk _ _ _ body :: rest => stmtsValued body && clausesValued rest

end

namespace Lowering

variable {α : Type} {k : Context} {ni : String → Lower Ir.Temp} {c : Analysis.Context} {loop brk : Bool}
  {Γ : TyEnv}

/-! ## Between the parts of a statement -/

theorem sure_modify {g : Builder → Builder} (h : ∀ b : Builder, b.SameScopes (g b)) :
    Sure.Any k (modify g : Lower Unit) := .of_runs (fun _ => ⟨_, _, rfl⟩) (steady_modify h)

theorem sure_unwindTo (depth : Nat) : Sure.Any k (unwindTo depth) :=
  .of_runs (fun _ => ⟨_, _, rfl⟩) (steady_unwindTo depth)

theorem sure_freshLabels (stem : String) (n : Nat) : Sure.Any k (freshLabels stem n) := by
  induction n with
  | zero => exact sure_pure trivial
  | succ n ih => exact (sure_freshLabel _).bind fun _ => ih.bind fun _ => sure_pure trivial

theorem sure_lowerElement (ty : Ty) (object index : Ir.Temp) :
    Sure.Any k (lowerElement ty object index) := by
  unfold lowerElement
  split
  · exact (sure_emit _).bind fun _ => sure_emitValue _
  · exact sure_emitValue _

/-- A variable is declared. Only its name matters, not the type it is written with. -/
theorem succeeds_declareVar (x : String) (ty τ : Ty) :
    Succeeds k (·.At loop brk Γ) (declareVar x ty) fun _ b => b.At loop brk (Frames.declare x τ Γ) := by
  intro b hb
  have hrun : ∃ v b', Runs k (declareVar x ty) b v b' := ⟨_, _, rfl⟩
  obtain ⟨v, b', hrun⟩ := hrun
  obtain ⟨hscopes, hjumps⟩ := declares_declareVar x ty k b v b' hrun
  exact ⟨v, b', hrun, hb.declare τ hscopes hjumps⟩

/-- What is declared in a scope of its own is gone behind it. -/
theorem Succeeds.inScope {m : Lower Unit} {P R : Builder → Prop} (h : Succeeds k P m fun _ _ => True)
    (hm : Scoped m) (hP : ∀ b : Builder, R b → b.At loop brk Γ ∧ P (b.withScopes ([] :: b.scopes))) :
    Succeeds k R (inScope m) fun _ b => b.At loop brk Γ := by
  intro b hb
  obtain ⟨hat, hpush⟩ := hP b hb
  obtain ⟨u, b', hrun, _⟩ := h _ hpush
  have hrun := runs_inScope hrun
  exact ⟨u, _, hrun, hat.same (hm.inScope k b u _ hrun)⟩

/-- Inside, jumps have the targets that are set. -/
theorem Succeeds.withJumps {m : Lower Unit} {loop' brk' : Bool}
    (h : Succeeds k (·.At loop' brk' Γ) m fun _ _ => True) (hm : Steady m) (breakLabel : String)
    {continueLabel : Option String} (hloop : loop' → loop ∨ continueLabel.isSome) :
    Succeeds k (·.At loop brk Γ) (withJumps breakLabel continueLabel m) fun _ b => b.At loop brk Γ := by
  intro b hb
  have hat : (b.jumpingTo (⟨breakLabel, continueLabel, b.tryDepth⟩ :: b.jumps)).At loop' brk' Γ := by
    refine ⟨hb.names, hb.nonempty, hb.inner, fun hl => ?_, fun _ => nofun⟩
    rcases hloop hl with hl | hl
    · obtain ⟨t, ht, hsome⟩ := hb.continues hl
      exact ⟨t, List.mem_cons_of_mem _ ht, hsome⟩
    · exact ⟨_, List.mem_cons_self, hl⟩
  obtain ⟨u, b', hrun, _⟩ := h _ hat
  have hrun := runs_withJumps hrun
  exact ⟨u, _, hrun, hb.same (hm.withJumps breakLabel continueLabel k b u _ hrun)⟩

/-! ## Expressions in statements -/

/-- An expression that obeys the rules is lowered to a value, if it has one and the new instances it asks for
can be made. -/
theorem succeeds_lowerExpr {e : Expr} {τ : Ty} (he : e.Typed c Γ τ) (hvalue : e.hasValue)
    (hmakes : Makes k ni e.instances) :
    Succeeds k (·.At loop brk Γ) (lowerExpr ni e) fun _ b => b.At loop brk Γ := by
  obtain ⟨haction, hvalued⟩ := Expr.hasValue_iff.1 hvalue
  refine (lowerable_expr e he hvalued hmakes).bind_of fun r hr => ?_
  obtain ⟨t, rfl⟩ := Option.isSome_iff_exists.1 (hr haction)
  exact succeeds_pure fun b hb => hb

theorem succeeds_lowerStored {e : Expr} {τ : Ty} (he : e.Stored c Γ τ) (hvalue : e.hasValue)
    (hmakes : Makes k ni e.instances) :
    Succeeds k (·.At loop brk Γ) (lowerExpr ni e) fun _ b => b.At loop brk Γ :=
  let ⟨_, he, _⟩ := he
  succeeds_lowerExpr he hvalue hmakes

theorem succeeds_lowerVarDecl {x : String} {ty : Ty} {init : Option Expr}
    (hinit : ∀ e, init = some e → e.Stored c Γ ty) (hvalue : init.all Expr.hasValue)
    (hmakes : Makes k ni (instancesOf? init)) :
    Succeeds k (·.At loop brk Γ) (lowerVarDecl ni x ty init)
      fun _ b => b.At loop brk (Frames.declare x ty Γ) := by
  cases init with
  | none => exact (succeeds_declareVar x ty ty).bind fun _ => succeeds_pure fun b hb => hb
  | some e =>
      exact (succeeds_lowerStored (hinit e rfl) hvalue hmakes).bind fun _ =>
        (succeeds_declareVar x ty ty).bind fun _ => (sure_emit _).last

theorem Target.type? {target : Expr} {τ : Ty} (h : target.Target c Γ τ) : target.type? = some τ := by
  cases h <;> assumption

theorem succeeds_lowerAssigned {target e : Expr} {op : Option BinaryOp} {τ : Ty} {current : Lower Ir.Temp}
    (htarget : target.Target c Γ τ) (he : e.Assigned c Γ τ op) (hvalue : e.hasValue)
    (hmakes : Makes k ni e.instances) (hcurrent : Sure.Any k current) :
    Succeeds k (·.At loop brk Γ) (lowerAssigned ni target op e current) fun _ b => b.At loop brk Γ := by
  cases op with
  | none => exact succeeds_lowerStored he hvalue hmakes
  | some op =>
      obtain ⟨σ, he, _⟩ := he
      unfold lowerAssigned
      dsimp only
      rw [typeOf_eq (Target.type? htarget)]
      exact hcurrent.before fun _ => (succeeds_lowerExpr he hvalue hmakes).bind fun _ =>
        (sure_emitBinary _ _ _ _).last

theorem succeeds_lowerAssign {target e : Expr} {op : Option BinaryOp} {τ : Ty}
    (htarget : target.Target c Γ τ) (he : e.Assigned c Γ τ op) (hoperands : target.isValued)
    (hvalue : e.hasValue) (hmakes : Makes k ni (target.targetInstances ++ e.instances)) :
    Succeeds k (·.At loop brk Γ) (lowerAssign ni target op e) fun _ b => b.At loop brk Γ := by
  have hassigned {current : Lower Ir.Temp} (hcurrent : Sure.Any k current) :
      Succeeds k (·.At loop brk Γ) (lowerAssigned ni target op e current) fun _ b => b.At loop brk Γ :=
    succeeds_lowerAssigned htarget he hvalue hmakes.right hcurrent
  cases htarget with
  | @name _ x _ _ hx =>
      have hvar : Succeeds k (·.At loop brk Γ) (varOf? x) fun v b => v.isSome ∧ b.At loop brk Γ :=
        fun b hb => ⟨_, b, runs_varOf? x, by rw [hb.names x, hx, Option.isSome_some], hb⟩
      refine hvar.bind_of fun v hv => ?_
      obtain ⟨v, rfl⟩ := Option.isSome_iff_exists.1 hv
      exact (hassigned (sure_emitValue _)).bind fun _ => (sure_emit _).last
  | @field n object proto name f _ hfield hobject _ =>
      simp only [Expr.isValued, Bool.and_eq_true, Bool.not_eq_true'] at hoperands
      unfold lowerAssign
      dsimp only
      rw [hfield]
      exact (succeeds_lowerExpr hobject (Expr.hasValue_iff.2 hoperands) hmakes.left).bind fun _ =>
        (hassigned (sure_emitValue _)).bind fun _ => (sure_emit _).last
  | @element n object i _ _ _ _ hobject hi _ _ =>
      simp only [Expr.isValued, Bool.and_eq_true, Bool.not_eq_true'] at hoperands
      rw [lowerAssign_index, typeOf_eq hobject.type?, pure_bind]
      have hopen : ∀ ty, Succeeds k (·.At loop brk Γ) (openElement ni ty object i)
          fun _ b => b.At loop brk Γ := by
        intro ty
        refine (succeeds_lowerExpr hobject (Expr.hasValue_iff.2 hoperands.1) hmakes.left.left).bind
          fun _ => (succeeds_lowerExpr hi (Expr.hasValue_iff.2 hoperands.2) hmakes.left.right).bind
          fun _ => ?_
        split
        · exact (sure_emit _).before fun _ => succeeds_pure fun b hb => hb
        · exact succeeds_pure fun b hb => hb
      exact (hopen _).bind fun _ => (hassigned (sure_lowerElement _ _ _)).bind fun _ => (sure_emit _).last

theorem succeeds_lowerReturn {value : Option Expr} {ret : Ty}
    (htyped : ∀ e, value = some e → e.Stored c Γ ret) (hvalue : value.all Expr.hasValue)
    (hmakes : Makes k ni (instancesOf? value)) :
    Succeeds k (·.At loop brk Γ) (lowerReturn ni value) fun _ b => b.At loop brk Γ := by
  cases value with
  | none => exact (sure_unwindTo _).before fun _ => (sure_endWith _).last
  | some e =>
      exact (succeeds_lowerStored (htyped e rfl) hvalue hmakes).bind fun _ =>
        (sure_unwindTo _).before fun _ => (sure_endWith _).last

/-! ## Jumps -/

theorem succeeds_get : Succeeds k (·.At loop brk Γ) get fun b b' => b.At loop brk Γ ∧ b'.At loop brk Γ :=
  fun b hb => ⟨b, b, runs_get, hb, hb⟩

theorem succeeds_lowerBreak (hbrk : brk) :
    Succeeds k (·.At loop brk Γ) lowerBreak fun _ b => b.At loop brk Γ := by
  refine succeeds_get.bind_of fun b hb => ?_
  obtain ⟨t, rest, hjumps⟩ := List.exists_cons_of_ne_nil (hb.breaks hbrk)
  rw [hjumps]
  exact (sure_unwindTo _).before fun _ => (sure_jump _).last

theorem succeeds_lowerContinue (hloop : loop) :
    Succeeds k (·.At loop brk Γ) lowerContinue fun _ b => b.At loop brk Γ := by
  refine succeeds_get.bind_of fun b hb => ?_
  obtain ⟨t, ht, hlabel⟩ := hb.continues hloop
  have hfound : (b.jumps.findSome? fun t => t.continueLabel.map fun label => (label, t.tryDepth)).isSome := by
    rw [List.findSome?_isSome_iff]
    exact ⟨t, ht, by rw [Option.isSome_map]; exact hlabel⟩
  obtain ⟨target, htarget⟩ := Option.isSome_iff_exists.1 hfound
  rw [htarget]
  exact (sure_unwindTo _).before fun _ => (sure_jump _).last

/-! ## Bodies -/

/-- The statements are lowered without fail. -/
def BodyLowerable (k : Context) (ni : String → Lower Ir.Temp) (loop brk : Bool) (Γ : TyEnv)
    (body : List Stmt) : Prop :=
  Succeeds k (·.At loop brk Γ) (lowerStmts ni body) fun _ _ => True

section

variable (hni : ∀ proto, Steady (ni proto)) {body : List Stmt}

include hni

theorem succeeds_block (h : BodyLowerable k ni loop brk ([] :: Γ) body) :
    Succeeds k (·.At loop brk Γ) (inScope (lowerStmts ni body)) fun _ b => b.At loop brk Γ :=
  h.inScope (scoped_lowerStmts hni body) fun _ hb => ⟨hb, hb.enter⟩

theorem succeeds_loopBody (h : BodyLowerable k ni true true ([] :: Γ) body)
    (breakLabel continueLabel : String) :
    Succeeds k (·.At loop brk Γ) (withJumps breakLabel (some continueLabel) (inScope (lowerStmts ni body)))
      fun _ b => b.At loop brk Γ :=
  ((succeeds_block hni h).mono fun _ _ _ => trivial).withJumps (scoped_lowerStmts hni body).inScope _
    fun _ => .inr rfl

theorem succeeds_armBody (h : BodyLowerable k ni loop true ([] :: Γ) body) (breakLabel : String) :
    Succeeds k (·.At loop brk Γ) (withJumps breakLabel none (inScope (lowerStmts ni body)))
      fun _ b => b.At loop brk Γ :=
  ((succeeds_block hni h).mono fun _ _ _ => trivial).withJumps (scoped_lowerStmts hni body).inScope _ .inl

end

/-! ## Switches and regions -/

/-- The tests of a switch are expressions of its arms. -/
theorem succeeds_test {τ : Ty} {arms : List SwitchArm} {labels : List String}
    (htyped : ArmsTyped c loop τ Γ arms) (hvalued : armsValued arms) (hmakes : Makes k ni (armsInstances arms))
    {test : String × Expr} (htest : test ∈ armTests arms labels) {brk : Bool} :
    Succeeds k (·.At loop brk Γ) (lowerExpr ni test.2) fun _ b => b.At loop brk Γ := by
  induction arms generalizing labels with
  | nil => simp [armTests] at htest
  | cons arm rest ih =>
      obtain ⟨sp, e?, body, falls⟩ := arm
      rw [ArmsTyped] at htyped
      simp only [armsValued, Bool.and_eq_true] at hvalued
      rw [armsInstances] at hmakes
      cases labels with
      | nil => cases htest
      | cons label labels =>
          have hrest : test ∈ armTests rest labels → Succeeds k (·.At loop brk Γ) (lowerExpr ni test.2)
              fun _ b => b.At loop brk Γ := ih htyped.2.2 hvalued.2.2 hmakes.right.right
          cases e? with
          | none => exact hrest htest
          | some e =>
              rcases List.mem_cons.1 htest with rfl | htest
              · exact succeeds_lowerStored (htyped.1 e rfl) hvalued.1 hmakes.left
              · exact hrest htest

theorem succeeds_lowerTests {value : Ir.Temp} {otherwise : String} {tests : List (String × Expr)}
    (h : ∀ test ∈ tests, Succeeds k (·.At loop brk Γ) (lowerExpr ni test.2) fun _ b => b.At loop brk Γ) :
    Succeeds k (·.At loop brk Γ) (lowerTests ni value otherwise tests) fun _ b => b.At loop brk Γ := by
  induction tests with
  | nil => exact (sure_jump _).last
  | cons test rest ih =>
      obtain ⟨label, e⟩ := test
      have he := h _ List.mem_cons_self
      cases rest with
      | nil => exact he.bind fun _ => (sure_emitValue _).before fun _ => (sure_endWith _).last
      | cons next rest =>
          rw [lowerTests_cons_cons]
          have htest : Succeeds k (·.At loop brk Γ) (lowerTest ni value label e) fun _ b => b.At loop brk Γ :=
            he.bind fun _ => (sure_emitValue _).before fun _ => (sure_freshLabel _).before fun _ =>
              (sure_endWith _).before fun _ => (sure_startBlock _).last
          exact htest.bind fun _ => ih fun test htest => h test (List.mem_cons_of_mem _ htest)

section

variable (hni : ∀ proto, Steady (ni proto))

include hni

/-- A `try` region up to its clauses. -/
theorem succeeds_openClauses {body : List Stmt} (h : BodyLowerable k ni loop brk ([] :: Γ) body) :
    Succeeds k (·.At loop brk Γ) (openClauses ni body) fun _ b => b.At loop brk Γ := by
  have hopen : Sure.Any k openTry :=
    (sure_freshLabel _).bind fun _ => (sure_freshLabel _).bind fun _ => (sure_emit _).bind fun _ =>
      (sure_modify (g := fun b => { b with tryDepth := b.tryDepth + 1 }) fun _ => ⟨rfl, rfl⟩).bind fun _ =>
      sure_pure trivial
  have hleave : Sure.Any k leaveTry := by
    refine (sure_modify (g := fun b => { b with tryDepth := b.tryDepth - 1 }) fun _ => ⟨rfl, rfl⟩).bind
      fun _ => (Sure.of_runs (fun _ => ⟨_, _, runs_isOpen⟩) steady_isOpen).bind fun isOpen => ?_
    cases isOpen with
    | true => exact sure_emit _
    | false => exact sure_pure trivial
  rw [openClauses_eq]
  exact hopen.before fun _ => (succeeds_block hni h).bind fun _ => hleave.before fun _ =>
    (sure_jump _).before fun _ => (sure_startBlock _).before fun _ => (sure_emitValue _).before fun _ =>
    succeeds_pure fun b hb => hb

/-- A clause declares the exception in the scope of its body. -/
theorem succeeds_lowerClause {exception : Ir.Temp} {done proto x : String} {body : List Stmt}
    (h : BodyLowerable k ni loop brk ([(x, .named proto)] :: Γ) body) :
    Succeeds k (·.At loop brk Γ) (lowerClause ni exception done proto x body)
      fun _ b => b.At loop brk Γ := by
  have hopen : Sure.Any k (openClause exception proto) :=
    (sure_emitValue _).bind fun _ => (sure_freshLabel _).bind fun _ => (sure_freshLabel _).bind fun _ =>
      (sure_endWith _).bind fun _ => (sure_startBlock _).bind fun _ => sure_pure trivial
  have hcaught : Succeeds k (·.At loop brk ([] :: Γ)) (lowerCaught exception x proto)
      fun _ b => b.At loop brk ([(x, .named proto)] :: Γ) :=
    (succeeds_declareVar x _ _).bind fun _ => (sure_emit _).before fun _ => succeeds_pure fun b hb => hb
  have hscope : Succeeds k (·.At loop brk Γ)
      (inScope do let _ ← lowerCaught exception x proto; lowerStmts ni body) fun _ b => b.At loop brk Γ :=
    (hcaught.bind fun _ => h).inScope
      ((declares_lowerCaught exception x proto).scoped.bind fun _ => scoped_lowerStmts hni body)
      fun _ hb => ⟨hb, hb.enter⟩
  exact hopen.before fun _ => hscope.bind fun _ => (sure_jump _).before fun _ => (sure_startBlock _).last

/-- A loop over a container declares its variable in a scope around that of its body. -/
theorem succeeds_eachScope {x head done : String} {iter : Ir.Temp} {elem ty : Ty} {body : List Stmt}
    (h : BodyLowerable k ni true true ([(x, ty)] :: Γ) body) :
    Succeeds k (·.At loop brk Γ) (inScope do
      let _ ← lowerVisited x iter elem
      withJumps done (some head) (inScope (lowerStmts ni body))) fun _ b => b.At loop brk Γ := by
  have hvisited : Succeeds k (·.At loop brk ([] :: Γ)) (lowerVisited x iter elem)
      fun _ b => b.At loop brk ([(x, ty)] :: Γ) :=
    (sure_emitValue _).before fun _ => (succeeds_declareVar x elem ty).bind fun _ =>
      (sure_emit _).before fun _ => succeeds_pure fun b hb => hb
  have hbody : Succeeds k (·.At true true ([(x, ty)] :: Γ)) (inScope (lowerStmts ni body)) fun _ _ => True :=
    (h.inScope (Γ := [(x, ty)] :: Γ) (scoped_lowerStmts hni body) fun _ hb => ⟨hb, hb.push⟩).mono
      fun _ _ _ => trivial
  have hloop := (scoped_lowerStmts hni body).inScope
  exact ((hvisited.bind fun _ => hbody.withJumps hloop done fun _ => .inr rfl).mono
    fun _ _ _ => trivial).inScope
    ((declares_lowerVisited x iter elem).scoped.bind fun _ => (hloop.withJumps _ _).scoped)
    fun _ hb => ⟨hb, hb.enter⟩

end

/-! ## Steps of loops -/

section

variable {Γ' : TyEnv}

mutual

/-- What an expression means depends on the names in it alone. -/
theorem typed_of_names : (e : Expr) → {τ : Ty} → e.Typed c Γ τ →
    (∀ x ∈ e.names, Frames.find? Γ' x = Frames.find? Γ x) → e.Typed c Γ' τ
  | .literal _ _, _, hτ, _ => by
      cases hτ with
      | literal hn hv => exact .literal hn hv
  | .ident _ x, _, hτ, h => by
      have hx' := h x (List.mem_singleton_self _)
      cases hτ with
      | bound hn hx => exact .bound hn (hx'.trans hx)
      | global hn hx hvalue ht => exact .global hn (hx'.trans hx) hvalue ht
  | .self _, _, hτ, _ => by
      cases hτ with
      | self hn hproto => exact .self hn hproto
  | .unary _ _ e, _, hτ, h => by
      cases hτ with
      | unary hn he hop => exact .unary hn (typed_of_names e he h) hop
  | .binary _ _ a b, _, hτ, h => by
      cases hτ with
      | binary hn ha hb hop =>
          exact .binary hn (typed_of_names a ha fun x hx => h x (List.mem_append_left _ hx))
            (typed_of_names b hb fun x hx => h x (List.mem_append_right _ hx)) hop
  | .ternary _ e a b, _, hτ, h => by
      cases hτ with
      | ternary hn he ha hb hτ =>
          exact .ternary hn
            (typed_of_names e he fun x hx => h x (List.mem_append_left _ (List.mem_append_left _ hx)))
            (typed_of_names a ha fun x hx => h x (List.mem_append_left _ (List.mem_append_right _ hx)))
            (typed_of_names b hb fun x hx => h x (List.mem_append_right _ hx)) hτ
  | .call _ _ args, _, hτ, h => by
      have hall := fun {types} (hargs : List.Forall₂ (Expr.Typed c Γ) args types) =>
        allTyped_of_names args hargs h
      cases hτ with
      | print hn hcall ha hτ =>
          cases hall (.cons ha .nil) with
          | cons ha _ => exact .print hn hcall ha hτ
      | call hn hcall hk hargs hfit => exact .call hn hcall hk (hall hargs) hfit
  | .methodCall _ e _ args, _, hτ, h => by
      have hreceiver := fun {τ} (he : e.Typed c Γ τ) =>
        typed_of_names e he fun x hx => h x (List.mem_append_left _ hx)
      have hall := fun {types} (hargs : List.Forall₂ (Expr.Typed c Γ) args types) =>
        allTyped_of_names args hargs fun x hx => h x (List.mem_append_right _ hx)
      cases hτ with
      | moduleCall hn hn' hcall hx hmodule hf hargs hfit =>
          exact .moduleCall hn hn' hcall ((h _ List.mem_cons_self).trans hx) hmodule hf (hall hargs) hfit
      | newInstance hn hcall hx he =>
          exact .newInstance hn hcall ((h _ List.mem_cons_self).trans hx) (hreceiver he)
      | methodCall hn hcall he hk hargs hfit =>
          exact .methodCall hn hcall (hreceiver he) hk (hall hargs) hfit
  | .member _ e _, _, hτ, h => by
      have hobject := fun {τ} (he : e.Typed c Γ τ) => typed_of_names e he h
      cases hτ with
      | constant hn hx howner hvalue hv =>
          exact .constant hn ((h _ (List.mem_singleton_self _)).trans hx) howner hvalue hv
      | field hn hvalue he hf => exact .field hn hvalue (hobject he) hf
  | .index _ a b, _, hτ, h => by
      cases hτ with
      | index hn ha hb hτ =>
          exact .index hn (typed_of_names a ha fun x hx => h x (List.mem_append_left _ hx))
            (typed_of_names b hb fun x hx => h x (List.mem_append_right _ hx)) hτ
  | .cast _ e _, _, hτ, h => by
      cases hτ with
      | cast hn he hsource htarget => exact .cast hn (typed_of_names e he h) hsource htarget
  | .list _ items, _, hτ, h => by
      cases hτ with
      | list hn hitems hfit => exact .list hn (allTyped_of_names items hitems h) hfit
  | .map _ entries, _, hτ, h => by
      cases hτ with
      | map hn hkeys hvalues hscalar hkey hvalue =>
          obtain ⟨hkeys, hvalues⟩ := entriesTyped_of_names entries hkeys hvalues h
          exact .map hn hkeys hvalues hscalar hkey hvalue

theorem allTyped_of_names : (es : List Expr) → {types : List Ty} →
    List.Forall₂ (Expr.Typed c Γ) es types → (∀ x ∈ allNames es, Frames.find? Γ' x = Frames.find? Γ x) →
    List.Forall₂ (Expr.Typed c Γ') es types
  | [], _, .nil, _ => .nil
  | e :: rest, _, .cons he hrest, h =>
      .cons (typed_of_names e he fun x hx => h x (List.mem_append_left _ hx))
        (allTyped_of_names rest hrest fun x hx => h x (List.mem_append_right _ hx))

theorem entriesTyped_of_names : (entries : List (Expr × Expr)) → {keys values : List Ty} →
    List.Forall₂ (Expr.Typed c Γ) (entries.map Prod.fst) keys →
    List.Forall₂ (Expr.Typed c Γ) (entries.map Prod.snd) values →
    (∀ x ∈ entryNames entries, Frames.find? Γ' x = Frames.find? Γ x) →
    List.Forall₂ (Expr.Typed c Γ') (entries.map Prod.fst) keys ∧
      List.Forall₂ (Expr.Typed c Γ') (entries.map Prod.snd) values
  | [], _, _, .nil, .nil, _ => ⟨.nil, .nil⟩
  | (k, v) :: rest, _, _, .cons hk hkeys, .cons hv hvalues, h =>
      let hrest := entriesTyped_of_names rest hkeys hvalues fun x hx => h x (List.mem_append_right _ hx)
      ⟨.cons (typed_of_names k hk fun x hx => h x (List.mem_append_left _ (List.mem_append_left _ hx)))
        hrest.1,
       .cons (typed_of_names v hv fun x hx => h x (List.mem_append_left _ (List.mem_append_right _ hx)))
        hrest.2⟩

end

theorem target_of_names {target : Expr} {τ : Ty} (h : target.Target c Γ τ)
    (hnames : ∀ x ∈ target.names, Frames.find? Γ' x = Frames.find? Γ x) : target.Target c Γ' τ := by
  cases h with
  | name hn hx => exact .name hn ((hnames _ (List.mem_singleton_self _)).trans hx)
  | field hn hvalue he hf => exact .field hn hvalue (typed_of_names _ he hnames) hf
  | element hn he hi hτ hwritable =>
      exact .element hn (typed_of_names _ he fun x hx => hnames x (List.mem_append_left _ hx))
        (typed_of_names _ hi fun x hx => hnames x (List.mem_append_right _ hx)) hτ hwritable

theorem assigned_of_names {e : Expr} {op : Option BinaryOp} {τ : Ty} (h : e.Assigned c Γ τ op)
    (hnames : ∀ x ∈ e.names, Frames.find? Γ' x = Frames.find? Γ x) : e.Assigned c Γ' τ op := by
  cases op with
  | none => exact h.imp fun _ h => ⟨typed_of_names e h.1 hnames, h.2⟩
  | some op => exact h.imp fun _ h => ⟨typed_of_names e h.1 hnames, h.2⟩

/-- A step that is an assignment or an expression depends on the names in it alone. -/
theorem step_of_names {step : Stmt} {names : List String} (hstep : step.stepNames? = some names)
    (h : step.Typed c true true Γ) (hnames : ∀ x ∈ names, Frames.find? Γ' x = Frames.find? Γ x) :
    step.Typed c loop brk Γ' := by
  cases step with
  | assign sp target op e =>
      cases hstep
      rw [Stmt.Typed] at h ⊢
      obtain ⟨τ, htarget, he⟩ := h
      exact ⟨τ, target_of_names htarget fun x hx => hnames x (List.mem_append_left _ hx),
        assigned_of_names he fun x hx => hnames x (List.mem_append_right _ hx)⟩
  | expr sp e =>
      cases hstep
      rw [Stmt.Typed] at h ⊢
      exact h.imp fun _ h => typed_of_names e h hnames
  | _ => cases hstep

/-- Names that the statements do not declare mean behind them what they meant before. -/
theorem find?_afterAll {body : List Stmt} (hΓ : Γ ≠ []) {x : String} (hx : x ∉ declaredBy body) :
    Frames.find? (Γ.afterAll body) x = Frames.find? Γ x := by
  induction body generalizing Γ with
  | nil => rfl
  | cons s rest ih =>
      obtain ⟨hs, hrest⟩ : x ∉ s.declared ∧ x ∉ declaredBy rest := by
        rw [declaredBy, List.flatMap_cons, List.mem_append, not_or] at hx
        exact hx
      have hrest : ∀ {Γ : TyEnv}, Γ ≠ [] → Frames.find? (Γ.afterAll rest) x = Frames.find? Γ x :=
        fun hΓ => ih hΓ hrest
      cases s with
      | varDecl sp y ty isConst init =>
          obtain ⟨top, outer, rfl⟩ := List.exists_cons_of_ne_nil hΓ
          have hne : x ≠ y := fun heq => hs (heq ▸ List.mem_singleton_self _)
          refine (hrest (Γ := Frames.declare y ty (top :: outer)) nofun).trans ?_
          rw [Frames.find?_declare, if_neg hne]
      | _ => exact hrest hΓ

/-- A step that uses no name of the body obeys the rules outside of the body's scope. -/
theorem step?_outside {body : List Stmt} {step : Option Stmt} {late : List String}
    (horderly : stepOrderly late body step)
    (h : StmtTyped? c true true (TyEnv.afterAll ([] :: Γ) body) step) : StmtTyped? c loop brk Γ step := by
  cases step with
  | none =>
      rw [StmtTyped?]
      trivial
  | some step =>
      rw [StmtTyped?] at h ⊢
      obtain ⟨names, hnames, hall⟩ := stepOrderly_some horderly
      refine step_of_names hnames h fun x hx => ?_
      rw [find?_afterAll (List.cons_ne_nil _ _) (hall x hx).1]
      rfl

/-- There is no loop within such a step. -/
theorem isOrderly?_of_step {body : List Stmt} {step : Option Stmt} {late : List String}
    (horderly : stepOrderly late body step) : isOrderly? late step := by
  cases step with
  | none => rfl
  | some step =>
      obtain ⟨names, hnames, _⟩ := stepOrderly_some horderly
      cases step with
      | assign | expr => rfl
      | _ => cases hnames

end

/-! ## Statements -/

theorem Succeeds.whenOpen {m : Lower α} {Q : α → Builder → Prop} (h : Succeeds k (·.At loop brk Γ) m Q) :
    Succeeds k (fun b => b.At loop brk Γ ∧ b.ended = none) m Q := fun b hb => h b hb.1

theorem succeeds_startBlock (label : String) :
    Succeeds k (·.At loop brk Γ) (startBlock label) fun _ b => b.At loop brk Γ ∧ b.ended = none :=
  fun b hb => ⟨(), _, rfl, hb.same (steady_startBlock label k b () _ rfl), rfl⟩

theorem succeeds_isOpen :
    Succeeds k (·.At loop brk Γ) isOpen fun isOpen b => isOpen = b.ended.isNone ∧ b.At loop brk Γ :=
  fun b hb => ⟨_, b, runs_isOpen, rfl, hb⟩

/-- A loop from behind its first statement up to its step. -/
theorem succeeds_openForStep (hni : ∀ proto, Steady (ni proto)) {e : Option Expr} {body : List Stmt}
    (he : ∀ e', e = some e' → e'.Typed c Γ .bool) (hvalue : e.all Expr.hasValue)
    (hmakes : Makes k ni (instancesOf? e)) (hbody : BodyLowerable k ni true true ([] :: Γ) body) :
    Succeeds k (·.At loop brk Γ) (openForStep ni e body)
      fun _ b => b.At loop brk Γ ∧ b.ended = none := by
  have hopen : Sure.Any k openFor :=
    (sure_freshLabel _).bind fun _ => (sure_freshLabel _).bind fun _ => (sure_freshLabel _).bind fun _ =>
      (sure_freshLabel _).bind fun _ => (sure_jump _).bind fun _ => (sure_startBlock _).bind fun _ =>
      sure_pure trivial
  have hcond : Succeeds k (·.At loop brk Γ) (openForBody ni e) fun _ b => b.At loop brk Γ := by
    refine hopen.before fun labels => ?_
    cases e with
    | none =>
        exact (sure_jump _).before fun _ => (sure_startBlock _).before fun _ => succeeds_pure fun b hb => hb
    | some e =>
        exact (succeeds_lowerExpr (he e rfl) hvalue hmakes).bind fun _ => (sure_endWith _).before fun _ =>
          (sure_startBlock _).before fun _ => succeeds_pure fun b hb => hb
  exact hcond.bind fun _ => (succeeds_loopBody hni hbody _ _).bind fun _ => (sure_jump _).before fun _ =>
    (succeeds_startBlock _).bind fun _ => succeeds_pure fun b hb => hb

mutual

/-- A statement that obeys the rules is lowered without fail where it can be reached, if its operands have
values, the steps of loops keep to themselves and the new instances it asks for can be made. -/
theorem succeeds_lowerStmt (hni : ∀ proto, Steady (ni proto)) : (s : Stmt) → {loop brk : Bool} →
    {Γ : TyEnv} → s.Typed c loop brk Γ → s.isValued → s.isOrderly [] → Makes k ni s.instances →
    Succeeds k (fun b => b.At loop brk Γ ∧ b.ended = none) (lowerStmt ni s)
      fun _ b => b.At loop brk (Γ.after s)
  | .varDecl _ x ty _ init, _, _, _, htyped, hvalued, _, hmakes => by
      rw [Stmt.Typed] at htyped
      rw [Stmt.isValued] at hvalued
      rw [Stmt.instances] at hmakes
      rw [lowerStmt]
      exact (succeeds_lowerVarDecl htyped.2.2.2 hvalued hmakes).whenOpen
  | .assign _ target op e, _, _, _, htyped, hvalued, _, hmakes => by
      rw [Stmt.Typed] at htyped
      simp only [Stmt.isValued, Bool.and_eq_true] at hvalued
      rw [Stmt.instances] at hmakes
      obtain ⟨τ, htarget, he⟩ := htyped
      rw [lowerStmt]
      exact (succeeds_lowerAssign htarget he hvalued.1 hvalued.2 hmakes).whenOpen
  | .expr _ e, _, _, _, htyped, hvalued, _, hmakes => by
      rw [Stmt.Typed] at htyped
      rw [Stmt.isValued] at hvalued
      rw [Stmt.instances] at hmakes
      obtain ⟨τ, he⟩ := htyped
      rw [lowerStmt]
      exact ((lowerable_expr e he hvalued hmakes).bind_of fun _ _ =>
        succeeds_pure (a := ()) fun b hb => hb).whenOpen
  | .ifThen _ e body, _, _, _, htyped, hvalued, horderly, hmakes => by
      rw [Stmt.Typed] at htyped
      simp only [Stmt.isValued, Bool.and_eq_true] at hvalued
      rw [Stmt.isOrderly] at horderly
      rw [Stmt.instances] at hmakes
      have hbody := succeeds_lowerStmts hni body htyped.2 hvalued.2 horderly hmakes.right
      rw [lowerStmt]
      exact ((succeeds_lowerExpr htyped.1 hvalued.1 hmakes.left).bind fun _ =>
        (sure_freshLabel _).before fun _ => (sure_freshLabel _).before fun _ =>
        (sure_endWith _).before fun _ => (sure_startBlock _).before fun _ =>
        (succeeds_block hni hbody).bind fun _ => (sure_jump _).before fun _ =>
        (sure_startBlock _).last).whenOpen
  | .ifElse _ e x y, _, _, _, htyped, hvalued, horderly, hmakes => by
      rw [Stmt.Typed] at htyped
      simp only [Stmt.isValued, Bool.and_eq_true] at hvalued
      simp only [Stmt.isOrderly, Bool.and_eq_true] at horderly
      rw [Stmt.instances] at hmakes
      have hx := succeeds_lowerStmts hni x htyped.2.1 hvalued.2.1 horderly.1 hmakes.right.left
      have hy := succeeds_lowerStmts hni y htyped.2.2 hvalued.2.2 horderly.2 hmakes.right.right
      rw [lowerStmt]
      exact ((succeeds_lowerExpr htyped.1 hvalued.1 hmakes.left).bind fun _ =>
        (sure_freshLabel _).before fun _ => (sure_freshLabel _).before fun _ =>
        (sure_freshLabel _).before fun _ => (sure_endWith _).before fun _ =>
        (sure_startBlock _).before fun _ => (succeeds_block hni hx).bind fun _ =>
        (sure_jump _).before fun _ => (sure_startBlock _).before fun _ =>
        (succeeds_block hni hy).bind fun _ => (sure_jump _).before fun _ =>
        (sure_startBlock _).last).whenOpen
  | .while _ e body, _, _, _, htyped, hvalued, horderly, hmakes => by
      rw [Stmt.Typed] at htyped
      simp only [Stmt.isValued, Bool.and_eq_true] at hvalued
      rw [Stmt.isOrderly] at horderly
      rw [Stmt.instances] at hmakes
      have hbody := succeeds_lowerStmts hni body htyped.2 hvalued.2 horderly hmakes.right
      rw [lowerStmt]
      exact ((sure_freshLabel _).before fun _ => (sure_freshLabel _).before fun _ =>
        (sure_freshLabel _).before fun _ => (sure_jump _).before fun _ =>
        (sure_startBlock _).before fun _ => (succeeds_lowerExpr htyped.1 hvalued.1 hmakes.left).bind fun _ =>
        (sure_endWith _).before fun _ => (sure_startBlock _).before fun _ =>
        (succeeds_loopBody hni hbody _ _).bind fun _ => (sure_jump _).before fun _ =>
        (sure_startBlock _).last).whenOpen
  | .doWhile _ body e, _, _, _, htyped, hvalued, horderly, hmakes => by
      rw [Stmt.Typed] at htyped
      simp only [Stmt.isValued, Bool.and_eq_true] at hvalued
      simp only [Stmt.isOrderly, Bool.and_eq_true] at horderly
      rw [Stmt.instances] at hmakes
      have hbody := succeeds_lowerStmts hni body htyped.1 hvalued.2 horderly.1 hmakes.right
      rw [lowerStmt]
      exact ((sure_freshLabel _).before fun _ => (sure_freshLabel _).before fun _ =>
        (sure_freshLabel _).before fun _ => (sure_jump _).before fun _ =>
        (sure_startBlock _).before fun _ => (succeeds_loopBody hni hbody _ _).bind fun _ =>
        (sure_jump _).before fun _ => (sure_startBlock _).before fun _ =>
        (succeeds_lowerExpr htyped.2 hvalued.1 hmakes.left).bind fun _ =>
        (sure_endWith _).before fun _ => (sure_startBlock _).last).whenOpen
  | .for _ init e update body, loop, brk, Γ, htyped, hvalued, horderly, hmakes => by
      rw [Stmt.Typed] at htyped
      simp only [Stmt.isValued, Bool.and_eq_true] at hvalued
      simp only [Stmt.isOrderly, Bool.and_eq_true] at horderly
      rw [Stmt.instances] at hmakes
      obtain ⟨hinit, he, hbody, hupdate⟩ := htyped
      obtain ⟨hinitValued, heValued, hupdateValued, hbodyValued⟩ := hvalued
      have hinit := succeeds_lowerStmt? hni init hinit hinitValued horderly.1.1 hmakes.left
      have hbody := succeeds_lowerStmts hni body hbody hbodyValued horderly.1.2 hmakes.right.right.left
      -- the step obeys the rules where it is written, too
      have hupdate : StmtTyped? c loop brk (TyEnv.after? ([] :: Γ) init) update :=
        step?_outside horderly.2 hupdate
      have hupdate := succeeds_lowerStmt? hni update hupdate hupdateValued (isOrderly?_of_step horderly.2)
        hmakes.right.right.right
      rw [lowerStmt_for_eq]
      refine Succeeds.inScope (hinit.bind fun _ =>
        (succeeds_openForStep hni he heValued hmakes.right.left hbody).bind fun _ =>
        hupdate.bind fun _ => (sure_jump _).before fun _ =>
        (sure_startBlock _).last.mono fun _ _ _ => trivial) ?_ fun b hb => ⟨hb.1, hb.1.enter, hb.2⟩
      exact (scoped_lowerStmt? hni init).bind fun _ =>
        (steady_openForStep hni e (scoped_lowerStmts hni body)).scoped.bind fun _ =>
        (scoped_lowerStmt? hni update).bind fun _ => (steady_jump _).scoped.bind fun _ =>
        (steady_startBlock _).scoped
  | .forEach _ kind ty x e body, _, _, Γ, htyped, hvalued, horderly, hmakes => by
      rw [Stmt.Typed] at htyped
      simp only [Stmt.isValued, Bool.and_eq_true] at hvalued
      rw [Stmt.isOrderly] at horderly
      rw [Stmt.instances] at hmakes
      obtain ⟨τ, elem, he, _, _, hbody⟩ := htyped
      have hbody := succeeds_lowerStmts hni body hbody hvalued.2 horderly hmakes.right
      rw [lowerStmt_forEach_eq, openForEach, typeOf_eq he.type?]
      simp only [bind_assoc, pure_bind]
      exact ((succeeds_lowerExpr he hvalued.1 hmakes.left).bind fun _ => (sure_emitValue _).before fun _ =>
        (sure_freshLabel _).before fun _ => (sure_freshLabel _).before fun _ =>
        (sure_freshLabel _).before fun _ => (sure_jump _).before fun _ =>
        (sure_startBlock _).before fun _ => (sure_endWith _).before fun _ =>
        (sure_startBlock _).before fun _ => (succeeds_eachScope hni hbody).bind fun _ =>
        (sure_jump _).before fun _ => (sure_startBlock _).last).whenOpen
  | .switch _ e arms, _, _, _, htyped, hvalued, horderly, hmakes => by
      rw [Stmt.Typed] at htyped
      simp only [Stmt.isValued, Bool.and_eq_true] at hvalued
      simp only [Stmt.isOrderly, Bool.and_eq_true] at horderly
      rw [Stmt.instances] at hmakes
      obtain ⟨τ, he, _, harms⟩ := htyped
      rw [lowerStmt]
      exact ((succeeds_lowerExpr he hvalued.1 hmakes.left).bind fun _ => (sure_freshLabel _).before fun _ =>
        (sure_freshLabels _ _).before fun _ =>
        (succeeds_lowerTests fun _ htest => succeeds_test harms hvalued.2 hmakes.right htest).bind fun _ =>
        (succeeds_lowerArms hni _ _ arms harms hvalued.2 horderly.1 hmakes.right).bind fun _ =>
        (sure_startBlock _).last).whenOpen
  | .break _, _, _, _, htyped, _, _, _ => by
      rw [Stmt.Typed] at htyped
      rw [lowerStmt]
      exact (succeeds_lowerBreak htyped).whenOpen
  | .continue _, _, _, _, htyped, _, _, _ => by
      rw [Stmt.Typed] at htyped
      rw [lowerStmt]
      exact (succeeds_lowerContinue htyped).whenOpen
  | .ret _ value, _, _, Γ, htyped, hvalued, _, hmakes => by
      rw [Stmt.isValued] at hvalued
      rw [Stmt.instances] at hmakes
      rw [lowerStmt]
      have hstored : ∀ e, value = some e → e.Stored c Γ c.ret := by
        rintro e rfl
        rw [Stmt.Typed] at htyped
        exact htyped.2
      exact (succeeds_lowerReturn hstored hvalued hmakes).whenOpen
  | .throw _ e, _, _, _, htyped, hvalued, _, hmakes => by
      rw [Stmt.Typed] at htyped
      rw [Stmt.isValued] at hvalued
      rw [Stmt.instances] at hmakes
      obtain ⟨proto, he, _⟩ := htyped
      rw [lowerStmt]
      exact ((succeeds_lowerExpr he hvalued hmakes).bind fun _ => (sure_emit _).before fun _ =>
        (sure_endWith _).last).whenOpen
  | .try _ body clauses, _, _, _, htyped, hvalued, horderly, hmakes => by
      rw [Stmt.Typed] at htyped
      simp only [Stmt.isValued, Bool.and_eq_true] at hvalued
      simp only [Stmt.isOrderly, Bool.and_eq_true] at horderly
      rw [Stmt.instances] at hmakes
      have hbody := succeeds_lowerStmts hni body htyped.1 hvalued.1 horderly.1 hmakes.left
      have hclauses := fun exception done =>
        succeeds_lowerClauses hni exception done clauses htyped.2 hvalued.2 horderly.2 hmakes.right
      rw [lowerStmt_try_eq]
      exact ((succeeds_openClauses hni hbody).bind fun _ => (hclauses _ _).bind fun _ =>
        (sure_emit _).before fun _ => (sure_endWith _).before fun _ => (sure_startBlock _).last).whenOpen
  | .block _ body, _, _, _, htyped, hvalued, horderly, hmakes => by
      rw [Stmt.Typed] at htyped
      rw [Stmt.isValued] at hvalued
      rw [Stmt.isOrderly] at horderly
      rw [Stmt.instances] at hmakes
      rw [lowerStmt]
      exact (succeeds_block hni (succeeds_lowerStmts hni body htyped hvalued horderly hmakes)).whenOpen

theorem succeeds_lowerStmts (hni : ∀ proto, Steady (ni proto)) : (body : List Stmt) →
    {loop brk : Bool} → {Γ : TyEnv} → StmtsTyped c loop brk Γ body → stmtsValued body →
    areOrderly [] body → Makes k ni (stmtsInstances body) → BodyLowerable k ni loop brk Γ body
  | [], _, _, _, _, _, _, _ => by
      unfold BodyLowerable
      rw [lowerStmts]
      exact succeeds_pure fun _ _ => trivial
  | s :: rest, _, _, _, htyped, hvalued, horderly, hmakes => by
      rw [StmtsTyped] at htyped
      simp only [stmtsValued, Bool.and_eq_true] at hvalued
      simp only [areOrderly, Bool.and_eq_true] at horderly
      rw [stmtsInstances] at hmakes
      have hs := succeeds_lowerStmt hni s htyped.1 hvalued.1 horderly.1 hmakes.left
      have hrest := succeeds_lowerStmts hni rest htyped.2 hvalued.2 horderly.2 hmakes.right
      unfold BodyLowerable
      rw [lowerStmts]
      refine succeeds_isOpen.bind fun isOpen => ?_
      cases isOpen with
      | true =>
          intro b hb
          exact (hs.bind fun _ => hrest) b ⟨hb.2, Option.isNone_iff_eq_none.1 hb.1.symm⟩
      | false => exact succeeds_pure fun _ _ => trivial

theorem succeeds_lowerStmt? (hni : ∀ proto, Steady (ni proto)) : (s : Option Stmt) →
    {loop brk : Bool} → {Γ : TyEnv} → StmtTyped? c loop brk Γ s → stmtValued? s → isOrderly? [] s →
    Makes k ni (stmtInstances? s) →
    Succeeds k (fun b => b.At loop brk Γ ∧ b.ended = none) (lowerStmt? ni s)
      fun _ b => b.At loop brk (TyEnv.after? Γ s)
  | none, _, _, _, _, _, _, _ => by
      rw [lowerStmt?]
      exact succeeds_pure fun _ hb => hb.1
  | some s, _, _, _, htyped, hvalued, horderly, hmakes => by
      rw [StmtTyped?] at htyped
      rw [stmtValued?] at hvalued
      rw [isOrderly?] at horderly
      rw [stmtInstances?] at hmakes
      have hs := succeeds_lowerStmt hni s htyped hvalued horderly hmakes
      rw [lowerStmt?]
      intro b hb
      obtain ⟨u, b', hrun, hb'⟩ := hs b hb
      refine ⟨u, b', (runs_isOpen).bind ?_, hb'⟩
      rw [hb.2]
      exact hrun

theorem succeeds_lowerArms (hni : ∀ proto, Steady (ni proto)) (done : String) :
    (labels : List String) → (arms : List SwitchArm) → {loop brk : Bool} → {Γ : TyEnv} → {τ : Ty} →
    ArmsTyped c loop τ Γ arms → armsValued arms →
    armsOrderly [] arms → Makes k ni (armsInstances arms) →
    Succeeds k (·.At loop brk Γ) (lowerArms ni done labels arms) fun _ b => b.At loop brk Γ
  | label :: labels, .mk sp test body falls :: rest, _, _, _, _, htyped, hvalued, horderly, hmakes => by
      rw [ArmsTyped] at htyped
      simp only [armsValued, Bool.and_eq_true] at hvalued
      simp only [armsOrderly, Bool.and_eq_true] at horderly
      rw [armsInstances] at hmakes
      have hbody := succeeds_lowerStmts hni body htyped.2.1 hvalued.2.1 horderly.1.1 hmakes.right.left
      rw [lowerArms_cons]
      exact ((sure_startBlock _).before fun _ => (succeeds_armBody hni hbody done).bind fun _ =>
        (sure_jump _).last).bind fun _ =>
        succeeds_lowerArms hni done labels rest htyped.2.2 hvalued.2.2 horderly.2 hmakes.right.right
  | [], [], _, _, _, _, _, _, _, _ => succeeds_pure (a := ()) fun _ hb => hb
  | [], _ :: _, _, _, _, _, _, _, _, _ => succeeds_pure (a := ()) fun _ hb => hb
  | _ :: _, [], _, _, _, _, _, _, _, _ => succeeds_pure (a := ()) fun _ hb => hb

theorem succeeds_lowerClauses (hni : ∀ proto, Steady (ni proto)) (exception : Ir.Temp) (done : String) :
    (clauses : List CatchClause) → {loop brk : Bool} → {Γ : TyEnv} →
    ClausesTyped c loop brk Γ clauses → clausesValued clauses →
    clausesOrderly [] clauses → Makes k ni (clausesInstances clauses) →
    Succeeds k (·.At loop brk Γ) (lowerClauses ni exception done clauses) fun _ b => b.At loop brk Γ
  | [], _, _, _, _, _, _, _ => by
      rw [lowerClauses]
      exact succeeds_pure fun _ hb => hb
  | .mk _ proto x body :: rest, _, _, _, htyped, hvalued, horderly, hmakes => by
      rw [ClausesTyped] at htyped
      simp only [clausesValued, Bool.and_eq_true] at hvalued
      simp only [clausesOrderly, Bool.and_eq_true] at horderly
      rw [clausesInstances] at hmakes
      have hbody := succeeds_lowerStmts hni body htyped.2.2.1 hvalued.1 horderly.1 hmakes.left
      have hrest := succeeds_lowerClauses hni exception done rest htyped.2.2.2 hvalued.2 horderly.2
        hmakes.right
      rw [lowerClauses_cons]
      exact (succeeds_lowerClause hni hbody).bind fun _ => hrest

end

/-! ## New instances -/

/-- The initial values of fields can be lowered where no variable is in sight, but for the new instances they
ask for. -/
def FieldsLowerable (k : Context) : Prop :=
  ∀ f e, initialValue? k.prototypes f = some e →
    ∃ (c : Analysis.Context) (τ : Ty), e.Typed c [[]] τ ∧ e.hasValue

/-- A step that sees no variable. -/
theorem runs_withoutLocals {m : Lower Ir.Temp} {Q : Ir.Temp → Builder → Prop}
    (h : Succeeds k (·.At false false [[]]) m Q) (b : Builder) :
    ∃ t b', Runs k (withoutLocals m) b t b' := by
  have hat : (b.withScopes [[]]).At false false [[]] := ⟨fun _ => rfl, nofun, nofun, nofun, nofun⟩
  obtain ⟨t, b', hrun, _⟩ := h _ hat
  exact ⟨t, b'.withScopes b.scopes,
    (runs_get).bind ((runs_modify _).bind (hrun.bind ((runs_modify _).bind (runs_pure t))))⟩

theorem runs_initFields {proto : String} {object : Ir.Temp} {fields : List FieldInfo}
    (h : ∀ f ∈ fields, ∀ e, initialValue? k.prototypes f = some e →
      Succeeds k (·.At false false [[]]) (lowerExpr ni e) fun _ _ => True) (b : Builder) :
    ∃ b', Runs k (initFields ni proto object fields) b () b' := by
  induction fields generalizing b with
  | nil => exact ⟨b, rfl⟩
  | cons f rest ih =>
      have hrest := fun b => ih (fun g hg => h g (List.mem_cons_of_mem _ hg)) b
      have hread : Runs k (read : Lower Context) b k b := rfl
      rw [initFields]
      cases hvalue : initialValue? k.prototypes f with
      | none =>
          obtain ⟨b', hrun⟩ := hrest b
          refine ⟨b', hread.bind ?_⟩
          rw [hvalue]
          exact hrun
      | some e =>
          obtain ⟨t, b₁, hvalueRun⟩ := runs_withoutLocals (h f List.mem_cons_self e hvalue) b
          obtain ⟨b', hrun⟩ := hrest (b₁.emit (.fieldSet object proto f.name t))
          refine ⟨b', hread.bind ?_⟩
          rw [hvalue]
          exact hvalueRun.bind ((runs_emit _).bind hrun)

/-- A new instance can be made if the instances it needs come to an end within the depth. -/
theorem sure_newInstance (hfields : FieldsLowerable k) {proto : String}
    (hends : Ends k.hierarchy k.prototypes proto) {depth : Nat}
    (hdepth : (keysAhead k.hierarchy k.prototypes proto).card < depth) :
    Sure.Any k (newInstance depth proto) := by
  induction hends generalizing depth with
  | intro proto hnext ih =>
      obtain ⟨depth, rfl⟩ := Nat.exists_eq_add_one_of_ne_zero (Nat.ne_zero_of_lt hdepth)
      refine .of_runs (fun b => ?_) (steady_newInstance _ proto)
      have hread : ∀ b, Runs k (read : Lower Context) b k b := fun _ => rfl
      have hvalues : ∀ f ∈ initialized k.hierarchy proto, ∀ e, initialValue? k.prototypes f = some e →
          Succeeds k (·.At false false [[]]) (lowerExpr (newInstance depth) e) fun _ _ => True := by
        intro f hf e he
        obtain ⟨c, τ, htyped, hvalue⟩ := hfields f e he
        refine (succeeds_lowerExpr htyped hvalue fun needed hneeded => ?_).mono fun _ _ _ => trivial
        have hneeds : Needs k.hierarchy k.prototypes proto needed := ⟨f, hf, e, he, hneeded⟩
        have hlt := card_keysAhead_lt (Acc.intro proto hnext) hneeds
        exact ih needed hneeds (by omega)
      obtain ⟨b', hrun⟩ := runs_initFields hvalues (b.takeTemp.emit (.newObject b.nextTemp proto))
      exact ⟨b.nextTemp, b', (runs_emitValue _).bind ((hread _).bind (hrun.bind (runs_pure _)))⟩

/-! ## Functions -/

theorem at_startOf {proto? : Option String} {f : FunctionDecl} :
    (startOf proto? f).At false false [paramTypes f.params] where
  names x := by
    have hnamed : Frames.Rel (fun _ _ => True) [paramTypes f.params] (startOf proto? f).scopes := named_startOf
    have hrel := hnamed.find? x
    generalize Frames.find? [paramTypes f.params] x = τ?, Frames.find? (startOf proto? f).scopes x = v? at hrel
    rcases hrel with ⟨rfl, rfl⟩ | ⟨_, _, rfl, rfl, _⟩ <;> rfl
  nonempty := nofun
  inner := nofun
  continues := nofun
  breaks := nofun

/-- A function that obeys the rules is lowered. -/
theorem exists_lowerFunction {h : Hierarchy} {ps : List PrototypeDecl} {proto? : Option String}
    {f : FunctionDecl} (htyped : f.Typed c proto?) (hvalued : stmtsValued f.body)
    (horderly : areOrderly [] f.body) (hfields : FieldsLowerable (contextOf h ps proto? f))
    (hends : ∀ proto ∈ stmtsInstances f.body, Ends h ps proto) :
    ∃ F, LowersTo h ps (proto?, f) F := by
  have hmakes : Makes (contextOf h ps proto? f) (newInstance (depthBound ps)) (stmtsInstances f.body) :=
    fun proto hproto => sure_newInstance hfields (hends proto hproto) card_keysAhead_lt_depthBound
  obtain ⟨u, b, hrun, _⟩ := succeeds_lowerStmts (steady_newInstance _) f.body htyped.body hvalued horderly
    hmakes _ at_startOf
  have hbody : Runs (contextOf h ps proto? f) (lowerBody (newInstance (depthBound ps)) f) (startOf proto? f)
      () (b.close (if f.ret.isVoid then .retVoid else .unreachable)) := hrun.bind (runs_close _)
  exact ⟨_, congrArg (· >>= _) hbody⟩

/-- Steps that can all succeed succeed one after the other. -/
theorem exists_mapM {α β : Type} {step : α → Except Error β} {l : List α}
    (h : ∀ a ∈ l, ∃ b, step a = .ok b) : ∃ l', l.mapM step = .ok l' := by
  induction l with
  | nil => exact ⟨[], rfl⟩
  | cons a rest ih =>
      obtain ⟨b, hb⟩ := h a List.mem_cons_self
      obtain ⟨l', hl'⟩ := ih fun a ha => h a (List.mem_cons_of_mem _ ha)
      refine ⟨b :: l', ?_⟩
      rw [List.mapM_cons, hb, hl']
      rfl

/-- A declaration is lowered if its functions are. -/
theorem exists_lowerDecl {h : Hierarchy} {ps : List PrototypeDecl} {d : Decl}
    (hbodies : ∀ q ∈ Program.bodiesOf d, ∃ F, LowersTo h ps q F) : ∃ fs, lowerDecl h ps d = .ok fs := by
  cases d with
  | function f =>
      obtain ⟨F, hF⟩ := hbodies _ (List.mem_singleton_self _)
      exact ⟨[F], congrArg (· >>= _) hF⟩
  | prototype d =>
      rw [lowerDecl]
      split
      · exact exists_mapM fun m hm => hbodies _ (List.mem_map_of_mem hm)
      · exact ⟨[], rfl⟩
  | group g => exact ⟨[], rfl⟩

end Lowering

/-! ## Programs -/

/-- The operands in the declaration have values. -/
def Decl.isValued : Decl → Bool
  | .function f => stmtsValued f.body
  | .prototype d =>
    d.fields.all (fun f => f.init.all Expr.hasValue) && d.methods.all fun m => stmtsValued m.function.body
  | .group _ => true

/-- Nothing in the checked program is refused by lowering: operands have values, the steps of loops do not jump
and use no name of the bodies, and the new instances that are asked for come to an end. -/
structure Program.Lowerable (p : Program) (h : Hierarchy) : Prop where
  valued : ∀ d ∈ p.decls, d.isValued
  orderly : ∀ q ∈ p.bodies, areOrderly [] q.2.body
  ends : ∀ q ∈ p.bodies, ∀ proto ∈ stmtsInstances q.2.body, Lowering.Ends h p.prototypes proto

namespace Program

variable {p : Program} {library : Library}

theorem Lowerable.stmts {h : Hierarchy} (hp : p.Lowerable h) {q : Option String × FunctionDecl}
    (hq : q ∈ p.bodies) : stmtsValued q.2.body := by
  rw [bodies_eq] at hq
  obtain ⟨d, hd, hq⟩ := List.mem_flatMap.1 hq
  have hvalued := hp.valued d hd
  cases d with
  | function f =>
      rw [List.mem_singleton.1 hq]
      exact hvalued
  | prototype d =>
      obtain ⟨m, hm, rfl⟩ := List.mem_map.1 hq
      rw [Decl.isValued, Bool.and_eq_true] at hvalued
      exact List.all_eq_true.1 hvalued.2 m hm
  | group g => cases hq

/-- The functions and methods of a program without problems obey the rules. -/
theorem typed_body (hclean : (p.analyze library).isClean) {q : Option String × FunctionDecl}
    (hq : q ∈ (p.analyze library).program.bodies) : q.2.Typed (p.context library) q.1 := by
  rw [bodies_eq] at hq
  obtain ⟨d, hd, hq⟩ := List.mem_flatMap.1 hq
  have htyped := typed_of_isClean hclean hd
  cases d with
  | function f =>
      rw [List.mem_singleton.1 hq]
      exact htyped
  | prototype d =>
      obtain ⟨m, hm, rfl⟩ := List.mem_map.1 hq
      exact PrototypeDecl.Typed.methods htyped m hm
  | group g => cases hq

/-- In a program without problems initial values can be lowered, if they have values. -/
theorem fieldsLowerable (hclean : (p.analyze library).isClean)
    (hp : (p.analyze library).program.Lowerable (p.analyze library).hierarchy)
    {k : Lowering.Context} (hk : k.prototypes = (p.analyze library).program.prototypes) :
    Lowering.FieldsLowerable k := by
  intro f e he
  rw [hk] at he
  obtain ⟨d, hd, hfield⟩ := Option.bind_eq_some_iff.1 he
  obtain ⟨g, hg, he⟩ := Option.bind_eq_some_iff.1 hfield
  have hd : Decl.prototype d ∈ (p.analyze library).program.decls := by
    obtain ⟨decl, hdecl, heq⟩ := List.mem_filterMap.1 (List.mem_of_find?_eq_some hd)
    cases decl <;> cases heq
    exact hdecl
  have hg := List.mem_of_find?_eq_some hg
  have htyped : d.Typed (p.context library) := typed_of_isClean hclean hd
  have hvalued := hp.valued _ hd
  rw [Decl.isValued, Bool.and_eq_true] at hvalued
  have hvalue := List.all_eq_true.1 hvalued.1 g hg
  obtain ⟨τ, hτ, _⟩ := (htyped.fields g hg).init e he
  rw [he] at hvalue
  exact ⟨_, τ, hτ, hvalue⟩

/-- A program without problems in which nothing is refused by lowering has a module. -/
theorem exists_lower (hclean : (p.analyze library).isClean)
    (hp : (p.analyze library).program.Lowerable (p.analyze library).hierarchy) (moduleName : String) :
    ∃ m, (p.analyze library).program.lower (p.analyze library).hierarchy moduleName = .ok m := by
  have hbodies : ∀ q ∈ (p.analyze library).program.bodies, ∃ F, Lowering.LowersTo (p.analyze library).hierarchy
      (p.analyze library).program.prototypes q F := fun q hq =>
    Lowering.exists_lowerFunction (typed_body hclean hq) (hp.stmts hq) (hp.orderly q hq)
      (fieldsLowerable hclean hp rfl) (hp.ends q hq)
  obtain ⟨fs, hfs⟩ := Lowering.exists_mapM fun d hd => Lowering.exists_lowerDecl fun q hq =>
    hbodies q ((bodies_eq _).symm ▸ List.mem_flatMap.2 ⟨d, hd, hq⟩)
  exact ⟨_, congrArg (· >>= _) hfs⟩

end Program

end ProtoScript
