import ProtoScript.Proofs.Lowering.ExprMoves

set_option autoImplicit false

/-!
# Statements start the blocks of their labels

The code of a statement starts the blocks of all labels that were made for it, and goes to no others but
the targets of `break` and `continue` around it (`settles_lowerStmt`). At its end the current block
may be closed, so that nothing is known there.
-/

namespace ProtoScript.Lowering

open Ir

variable {base known : List Temp} {targets todo : List String}

section

variable {newInstance : String → Lower Temp} (hnew : ∀ proto, Yields (newInstance proto) fun t => [t])

include hnew

/-! ## Declarations and assignments -/

theorem settles_lowerVarDecl (name : String) (ty : Ty) (init : Option Expr) :
    Settles (lowerVarDecl newInstance name ty init) := by
  unfold lowerVarDecl
  refine .of_moves fun known => ?_
  split
  · exact (moves_declareVar name ty).bind fun _ => Moves.anywhere (moves_pure rfl)
  · refine (yields_lowerExpr hnew _).bind fun value => (moves_declareVar name ty).bind fun var => ?_
    refine Moves.forget (moves_emit rfl rfl ?_) (List.Subset.refl _)
    simp [Instr.operands]

theorem moves_lowerAssigned {target : Expr} {op : Option BinaryOp} {value : Expr} {current : Lower Temp}
    (hcurrent : Moves base ⟨targets, todo, some known⟩ current
      fun t => ⟨targets, todo, some (t :: known)⟩) :
    Moves base ⟨targets, todo, some known⟩ (lowerAssigned newInstance target op value current)
      fun t => ⟨targets, todo, some (t :: known)⟩ := by
  unfold lowerAssigned
  split
  · exact (yields_lowerExpr hnew value).moves
  · refine hcurrent.bind fun old => (yields_lowerExpr hnew value).bind fun new => ?_
    refine (moves_typeOf target).bind fun ty => ?_
    exact (moves_emitBinary (by simp) (by simp)).keep fun t => by grind

theorem settles_lowerAssign (target : Expr) (op : Option BinaryOp) (value : Expr) :
    Settles (lowerAssign newInstance target op value) := by
  unfold lowerAssign
  refine .of_moves fun known => ?_
  cases target with
  | ident n name =>
      refine (moves_varOf? name).bind fun var? => ?_
      split
      · exact moves_fail _
      · refine Moves.bind (moves_lowerAssigned hnew ?_) fun t => ?_
        · exact moves_emitValue (fun _ => rfl) fun _ => List.nil_subset _
        · exact Moves.forget (moves_emit rfl rfl (by simp [Instr.operands])) (List.Subset.refl _)
  | member n object name =>
      dsimp only
      split
      · refine (yields_lowerExpr hnew object).bind fun a => ?_
        refine Moves.bind (moves_lowerAssigned hnew ?_) fun t => ?_
        · exact moves_emitValue (fun _ => rfl) fun _ => by simp [Instr.operands]
        · exact Moves.forget (moves_emit rfl rfl (by simp [Instr.operands])) (List.Subset.refl _)
      · exact moves_fail _
  | index n object i =>
      refine (moves_typeOf object).bind fun ty => ?_
      refine (yields_lowerExpr hnew object).bind fun a => (yields_lowerExpr hnew i).bind fun b => ?_
      have hread : Moves known ⟨[], [], some (b :: a :: known)⟩ (emitValue (.indexGet · a b))
          fun t => ⟨[], [], some (t :: b :: a :: known)⟩ :=
        moves_emitValue (fun _ => rfl) fun _ => by simp [Instr.operands]
      have hcheck : ∀ {α : Type} {c : Check} {m : Lower α} {q : α → Stage}, c.operands = [a, b] →
          Moves known ⟨[], [], some (b :: a :: known)⟩ m q →
          Moves known ⟨[], [], some (b :: a :: known)⟩ (do emit (.check c); m) q := by
        intro α c m q hc hm
        refine Moves.bind (moves_emit rfl rfl ?_) fun _ => hm
        simp [Instr.operands, hc]
      have hstore : ∀ {current : Lower Temp},
          Moves known ⟨[], [], some (b :: a :: known)⟩ current
            (fun t => ⟨[], [], some (t :: b :: a :: known)⟩) →
          Moves known ⟨[], [], some (b :: a :: known)⟩ (do
            let t ← lowerAssigned newInstance (.index n object i) op value current
            emit (.indexSet a b t)) fun _ => ⟨[], [], none⟩ := by
        intro current hcurrent
        refine (moves_lowerAssigned hnew hcurrent).bind fun t => ?_
        exact Moves.forget (moves_emit rfl rfl (by simp [Instr.operands])) (List.Subset.refl _)
      -- The key of a map is checked before it is read, the position in a list before anything else.
      cases isMap ty with
      | true => exact hstore (hcheck rfl hread)
      | false => exact hcheck rfl (hstore hread)
  | _ => exact moves_fail _

end

/-! ## Jumps -/

/-- Control leaves the function. -/
theorem moves_leave {t : Terminator} (hreads : t.operands ⊆ known) (hsuccessors : t.successors = []) :
    Moves base ⟨targets, todo, some known⟩ (do unwindTo 0; endWith t)
      fun _ => ⟨targets, todo, none⟩ := by
  intro s₀ s _ _ hs
  refine builds_leave hs hs.isOpen (Nat.zero_le _) ⟨List.Subset.trans hreads hs.subset, ?_, fun _ => rfl⟩
  rw [hsuccessors]
  exact nofun

theorem settles_lowerReturn {newInstance : String → Lower Temp}
    (hnew : ∀ proto, Yields (newInstance proto) fun t => [t]) (value : Option Expr) :
    Settles (lowerReturn newInstance value) := by
  unfold lowerReturn
  refine .of_moves fun known => ?_
  split
  · exact moves_leave (List.nil_subset _) rfl
  · refine (yields_lowerExpr hnew _).bind fun t => moves_leave ?_ rfl
    simp [Terminator.operands]

/-- Control goes to a target of the loops and switches around. -/
theorem Site.At.jumpTo {s₀ s : Site} (hs : s₀.At ⟨targets, todo, some known⟩ s)
    (htargeted : s₀.Targeted) {t : JumpTargets} (ht : t ∈ s.builder.jumps) {label : String}
    (hlabel : label ∈ t.labels) :
    Builds (do unwindTo t.tryDepth; jump label) s fun _ => s₀.At ⟨targets, todo, none⟩ := by
  obtain ⟨hle, hmeets⟩ := hs.reaches.targeted htargeted t ht
  refine builds_leave hs hs.isOpen hle ⟨List.nil_subset _, fun l hl => ?_, nofun⟩
  rw [List.mem_singleton.1 hl]
  exact hmeets label hlabel

theorem settles_lowerBreak : Settles lowerBreak := by
  constructor
  intro base known targets todo s₀ s htargeted _ hs
  refine builds_bind s.builder s (fun _ => runs_get) .refl ?_
  split
  · exact builds_fail _
  · next t rest hjumps =>
    refine hs.jumpTo htargeted ?_ List.mem_cons_self
    rw [hjumps]
    exact List.mem_cons_self

theorem settles_lowerContinue : Settles lowerContinue := by
  constructor
  intro base known targets todo s₀ s htargeted _ hs
  refine builds_bind s.builder s (fun _ => runs_get) .refl ?_
  split
  · exact builds_fail _
  · next label depth hfind =>
    obtain ⟨t, ht, hcontinue⟩ := List.exists_of_findSome?_eq_some hfind
    obtain ⟨l, hl, heq⟩ := Option.map_eq_some_iff.1 hcontinue
    cases heq
    refine hs.jumpTo htargeted ht (List.mem_cons_of_mem _ ?_)
    rw [hl]
    exact List.mem_singleton_self _

/-! ## Switches -/

theorem length_of_runs_freshLabels {stem : String} {n : Nat} {c : Context} {b b' : Builder}
    {labels : List String} (h : Runs c (freshLabels stem n) b labels b') : labels.length = n := by
  induction n generalizing b labels b' with
  | zero =>
      cases h
      rfl
  | succ n ih =>
      obtain ⟨label, b₁, _, h⟩ := h.of_bind
      obtain ⟨rest, b₂, hrest, h⟩ := h.of_bind
      cases h
      rw [List.length_cons, ih hrest]

theorem moves_freshLabels {stem : String} (hstem : isStem stem) (n : Nat) :
    Moves base ⟨targets, todo, some known⟩ (freshLabels stem n)
      fun labels => ⟨labels ++ targets, todo ++ labels, some known⟩ := by
  induction n generalizing targets todo with
  | zero => exact moves_pure (by simp)
  | succ n ih =>
      refine (moves_freshLabel hstem).bind fun label => ih.bind fun labels => ?_
      have hsub : label :: labels ++ targets ⊆ labels ++ label :: targets := by grind
      exact Moves.of_subset hsub (List.Subset.refl _) (moves_pure (by simp))

theorem armTests_subset (arms : List SwitchArm) (labels : List String) :
    (armTests arms labels).map Prod.fst ⊆ labels := by
  intro l hl
  obtain ⟨⟨l', e⟩, hmem, rfl⟩ := List.mem_map.1 hl
  obtain ⟨⟨label, arm⟩, hzip, htest⟩ := List.mem_filterMap.1 hmem
  obtain ⟨e', _, heq⟩ := Option.map_eq_some_iff.1 htest
  cases heq
  exact (List.of_mem_zip hzip).1

theorem defaultLabel_mem (arms : List SwitchArm) (labels : List String) (done : String) :
    defaultLabel arms labels done ∈ labels ++ [done] := by
  unfold defaultLabel
  generalize hfind : List.findSome? _ (labels.zip arms) = found
  cases found with
  | none => exact List.mem_append_right _ (List.mem_singleton_self _)
  | some label =>
      obtain ⟨⟨l, arm⟩, hzip, heq⟩ := List.exists_of_findSome?_eq_some hfind
      refine List.mem_append_left _ ?_
      dsimp only at heq
      split at heq
      · cases heq
        exact (List.of_mem_zip hzip).1
      · cases heq

theorem head?_getD_mem {labels : List String} {done : String} (hlabels : labels ⊆ targets)
    (hdone : done ∈ targets) : labels.head?.getD done ∈ targets := by
  cases labels with
  | nil => exact hdone
  | cons l rest => exact hlabels List.mem_cons_self

section

variable {newInstance : String → Lower Temp} (hnew : ∀ proto, Yields (newInstance proto) fun t => [t])

include hnew

/-- The tests of a switch. The value they are compared with is defined in the block of each of them. -/
theorem moves_lowerTests {value : Temp} (hvalue : value ∈ base) {otherwise : String} :
    (tests : List (String × Expr)) → {known : List Temp} → {targets todo : List String} →
    base ⊆ known → otherwise ∈ targets → tests.map Prod.fst ⊆ targets →
    Moves base ⟨targets, todo, some known⟩ (lowerTests newInstance value otherwise tests)
      fun _ => ⟨targets, todo, none⟩
  | [], known, targets, todo, hknown, hotherwise, hlabels => by
      rw [lowerTests]
      exact moves_jump hotherwise
  | [(label, test)], known, targets, todo, hknown, hotherwise, hlabels => by
      rw [lowerTests]
      refine (yields_lowerExpr hnew test).bind fun t => ?_
      refine Moves.bind (moves_emitValue (fun _ => rfl) fun _ => ?_) fun same => ?_
      · simp [Instr.operands, hknown hvalue]
      · exact moves_branch (by simp) (by simpa using hlabels) hotherwise
  | (label, test) :: next :: rest, known, targets, todo, hknown, hotherwise, hlabels => by
      rw [lowerTests]
      · obtain ⟨hlabel, hrest⟩ := List.cons_subset.1 hlabels
        refine (yields_lowerExpr hnew test).bind fun t => ?_
        refine Moves.bind (moves_emitValue (fun _ => rfl) fun _ => ?_) fun same => ?_
        · simp [Instr.operands, hknown hvalue]
        refine (moves_freshLabel rfl).bind fun nextLabel => ?_
        refine (moves_branch (by simp) (by simp [hlabel]) (by simp)).bind fun _ => ?_
        -- The block of the next test comes before those that were to come already.
        refine Moves.perm (List.perm_append_singleton _ _) (moves_startBlock.bind fun _ => ?_)
        refine Moves.of_subset (List.subset_cons_self _ _) (List.Subset.refl _) ?_
        exact moves_lowerTests hvalue (next :: rest) (List.Subset.refl _) hotherwise hrest
      · exact List.cons_ne_nil _ _

/-! ## Parts of statements -/

theorem moves_openIf (e : Expr) :
    Moves known ⟨[], [], some known⟩ (openIf newInstance e) fun done => ⟨[done], [done], some known⟩ := by
  unfold openIf
  refine (yields_lowerExpr hnew e).bind fun cond => ?_
  refine (moves_freshLabel rfl).bind fun thenLabel => (moves_freshLabel rfl).bind fun done => ?_
  refine (moves_branch (by simp) (by simp) (by simp)).bind fun _ => moves_startBlock.bind fun _ => ?_
  exact Moves.of_subset (by simp) (List.Subset.refl _) (moves_pure rfl)

theorem moves_openIfElse (e : Expr) :
    Moves known ⟨[], [], some known⟩ (openIfElse newInstance e)
      fun (elseLabel, done) => ⟨[elseLabel, done], [elseLabel, done], some known⟩ := by
  unfold openIfElse
  refine (yields_lowerExpr hnew e).bind fun cond => ?_
  refine (moves_freshLabel rfl).bind fun thenLabel => (moves_freshLabel rfl).bind fun done => ?_
  refine (moves_freshLabel rfl).bind fun elseLabel => ?_
  refine (moves_branch (by simp) (by simp) (by simp)).bind fun _ => moves_startBlock.bind fun _ => ?_
  -- The label behind both bodies was made before that of the second one.
  refine Moves.perm (List.Perm.swap _ _ _) ?_
  exact Moves.of_subset (by simp) (List.Subset.refl _) (moves_pure rfl)

theorem moves_openElse (e : Expr) {thenBody : List Stmt} (hbody : Settles (lowerStmts newInstance thenBody)) :
    Moves known ⟨[], [], some known⟩ (openElse newInstance e thenBody)
      fun done => ⟨[done], [done], some known⟩ := by
  refine (moves_openIfElse hnew e).bind fun (elseLabel, done) => hbody.inScope.moves.bind fun _ => ?_
  refine (moves_jump (by simp)).bind fun _ => moves_startBlock.bind fun _ => ?_
  exact Moves.of_subset (by simp) (List.Subset.refl _) (moves_pure rfl)

/-- All three blocks of the loop start with what is defined in front of it; nothing of a round is assumed. -/
theorem moves_openWhileBody (e : Expr) :
    Moves known ⟨[], [], some known⟩ (openWhileBody newInstance e)
      fun (condLabel, done) => ⟨[condLabel, done], [done], some known⟩ := by
  unfold openWhileBody openWhile
  simp only [bind_assoc, pure_bind]
  refine (moves_freshLabel rfl).bind fun condLabel => (moves_freshLabel rfl).bind fun bodyLabel => ?_
  refine (moves_freshLabel rfl).bind fun done => ?_
  refine (moves_jump (by simp)).bind fun _ => moves_startBlock.bind fun _ => ?_
  refine (yields_lowerExpr hnew e).bind fun cond => ?_
  refine (moves_branch (by simp) (by simp) (by simp)).bind fun _ => moves_startBlock.bind fun _ => ?_
  exact Moves.of_subset (by simp) (List.Subset.refl _) (moves_pure rfl)

omit hnew in
theorem moves_openDo : Moves known ⟨[], [], some known⟩ openDo
    fun (condLabel, bodyLabel, done) =>
      ⟨[condLabel, bodyLabel, done], [condLabel, done], some known⟩ := by
  unfold openDo
  refine (moves_freshLabel rfl).bind fun bodyLabel => (moves_freshLabel rfl).bind fun condLabel => ?_
  refine (moves_freshLabel rfl).bind fun done => ?_
  refine (moves_jump (by simp)).bind fun _ => moves_startBlock.bind fun _ => ?_
  exact Moves.of_subset (by simp) (List.Subset.refl _) (moves_pure rfl)

/-- The end of such a loop, behind its body. -/
theorem moves_closeDo (e : Expr) {condLabel bodyLabel done : String} :
    Moves known ⟨[condLabel, bodyLabel, done], [condLabel, done], none⟩ (do
      jump condLabel
      startBlock condLabel
      let cond ← lowerExpr newInstance e
      endWith (.branch cond bodyLabel done)
      startBlock done) fun _ => ⟨[], [], none⟩ := by
  refine (moves_jump (by simp)).bind fun _ => moves_startBlock.bind fun _ => ?_
  refine (yields_lowerExpr hnew e).bind fun cond => ?_
  refine (moves_branch (by simp) (by simp) (by simp)).bind fun _ => ?_
  exact moves_startBlock.forget (List.nil_subset _)

omit hnew in
/-- The current block goes on to a label, and the block of the last label to come is started. -/
theorem moves_close {label done : String} (hlabel : label ∈ targets) :
    Moves base ⟨targets, [done], none⟩ (do jump label; startBlock done) fun _ => ⟨[], [], none⟩ :=
  (moves_jump hlabel).bind fun _ => moves_startBlock.forget (List.nil_subset _)

theorem moves_openForBody (e : Option Expr) :
    Moves base ⟨[], [], none⟩ (openForBody newInstance e) fun labels =>
      ⟨[labels.condLabel, labels.stepLabel, labels.done], [labels.stepLabel, labels.done], some base⟩ := by
  unfold openForBody openFor
  simp only [bind_assoc, pure_bind]
  refine (moves_freshLabel rfl).bind fun condLabel => (moves_freshLabel rfl).bind fun bodyLabel => ?_
  refine (moves_freshLabel rfl).bind fun stepLabel => (moves_freshLabel rfl).bind fun done => ?_
  refine (moves_jump (by simp)).bind fun _ => moves_startBlock.bind fun _ => ?_
  have hbody : Moves base ⟨[done, stepLabel, bodyLabel, condLabel], [bodyLabel, stepLabel, done], none⟩
      (do startBlock bodyLabel; return (⟨condLabel, bodyLabel, stepLabel, done⟩ : ForLabels))
      fun labels =>
        ⟨[labels.condLabel, labels.stepLabel, labels.done], [labels.stepLabel, labels.done], some base⟩ :=
    moves_startBlock.bind fun _ => Moves.of_subset (by simp) (List.Subset.refl _) (moves_pure rfl)
  cases e with
  | none => exact (moves_jump (by simp)).bind fun _ => hbody
  | some e =>
      refine (yields_lowerExpr hnew e).bind fun cond => ?_
      exact (moves_branch (by simp) (by simp) (by simp)).bind fun _ => hbody

theorem moves_openForStep (e : Option Expr) {body : List Stmt}
    (hbody : Settles (lowerStmts newInstance body)) :
    Moves base ⟨[], [], none⟩ (openForStep newInstance e body) fun labels =>
      ⟨[labels.condLabel, labels.done], [labels.done], some base⟩ := by
  refine (moves_openForBody hnew e).bind fun labels => ?_
  refine (hbody.inScope.withJumps (by simp) (by simp)).bind fun _ => ?_
  refine (moves_jump (by simp)).bind fun _ => moves_startBlock.bind fun _ => ?_
  exact Moves.of_subset (by simp) (List.Subset.refl _) (moves_pure rfl)

theorem moves_openIterator (kind : IterKind) (declared : Option Ty) (e : Expr) :
    Moves base ⟨targets, todo, some known⟩ (openIterator newInstance kind declared e)
      fun (iter, _) => ⟨targets, todo, some (iter :: known)⟩ := by
  refine (moves_typeOf e).bind fun ty => (yields_lowerExpr hnew e).bind fun iterable => ?_
  refine Moves.bind (moves_emitValue (fun _ => rfl) fun _ => by simp [Instr.operands]) fun iter => ?_
  exact Moves.of_subset (List.Subset.refl _) (by simp) (moves_pure rfl)

omit hnew in
/-- The loop reads its iterator in the head and in the body. -/
theorem moves_openEach {iter : Temp} (hiter : iter ∈ known) :
    Moves known ⟨[], [], some known⟩ (openEach iter)
      fun (head, done) => ⟨[head, done], [done], some known⟩ := by
  unfold openEach
  refine (moves_freshLabel rfl).bind fun head => (moves_freshLabel rfl).bind fun bodyLabel => ?_
  refine (moves_freshLabel rfl).bind fun done => ?_
  refine (moves_jump (by simp)).bind fun _ => moves_startBlock.bind fun _ => ?_
  refine (moves_endWith (by simp [Terminator.operands, hiter]) (by simp [Terminator.successors])
    rfl).bind fun _ => moves_startBlock.bind fun _ => ?_
  exact Moves.of_subset (by simp) (List.Subset.refl _) (moves_pure rfl)

omit hnew in
theorem moves_lowerVisited {x : String} {iter : Temp} {elem : Ty} (hiter : iter ∈ known) :
    Moves base ⟨targets, todo, some known⟩ (lowerVisited x iter elem)
      fun _ => ⟨targets, todo, some known⟩ := by
  refine Moves.bind (moves_emitValue (fun _ => rfl) fun _ => by simp [Instr.operands, hiter])
    fun item => ?_
  refine (moves_declareVar _ _).bind fun var => ?_
  refine (moves_emit rfl rfl (by simp [Instr.operands])).bind fun _ => ?_
  exact Moves.of_subset (List.Subset.refl _) (List.subset_cons_self _ _) (moves_pure rfl)

/-- The labels of the arms come in front of the one behind the switch, which was made first. -/
theorem moves_openTests {value : Temp} (hvalue : value ∈ known) (arms : List SwitchArm) :
    Moves known ⟨[], [], some known⟩ (openTests newInstance value arms)
      fun (done, labels) => ⟨labels ++ [done], labels ++ [done], none⟩ := by
  unfold openTests
  refine (moves_freshLabel rfl).bind fun done => (moves_freshLabels rfl _).bind fun labels => ?_
  refine (moves_lowerTests hnew hvalue _ (List.Subset.refl _) ?_ ?_).bind fun _ => ?_
  · exact defaultLabel_mem arms labels done
  · exact List.Subset.trans (armTests_subset arms labels) (List.subset_append_left _ _)
  · exact Moves.perm List.perm_append_comm (moves_pure rfl)

omit hnew in
theorem length_of_runs_openTests {value : Temp} {arms : List SwitchArm} {c : Context} {b b' : Builder}
    {r : String × List String} (h : Runs c (openTests newInstance value arms) b r b') :
    r.2.length = arms.length := by
  obtain ⟨done, _, _, h⟩ := h.of_bind
  obtain ⟨labels, _, hlabels, h⟩ := h.of_bind
  obtain ⟨_, _, _, h⟩ := h.of_bind
  cases h
  exact length_of_runs_freshLabels hlabels

omit hnew in
theorem moves_lowerArm {label done : String} {labels : List String} {body : List Stmt}
    {fallsThrough : Bool} (hbody : Settles (lowerStmts newInstance body)) (hlabels : labels ⊆ targets)
    (hdone : done ∈ targets) :
    Moves base ⟨targets, label :: todo, none⟩ (lowerArm newInstance done label labels body fallsThrough)
      fun _ => ⟨targets, todo, none⟩ := by
  refine moves_startBlock.bind fun _ => (hbody.inScope.withJumps hdone (by simp)).bind fun _ => ?_
  refine moves_jump ?_
  split
  · exact head?_getD_mem hlabels hdone
  · exact hdone

omit hnew in
/-- The clauses of a `try` region begin with the exception. -/
theorem moves_catch {handler done : String} :
    Moves base ⟨[done, handler], [handler, done], none⟩ (do
      jump done
      startBlock handler
      let exception ← emitValue .catchValue
      return (exception, done))
      fun (exception, done) => ⟨[done], [done], some (exception :: base)⟩ := by
  refine (moves_jump (by simp)).bind fun _ => moves_startBlock.bind fun _ => ?_
  refine Moves.bind (moves_emitValue (fun _ => rfl) fun _ => List.nil_subset _) fun exception => ?_
  exact Moves.of_subset (by simp) (List.Subset.refl _) (moves_pure rfl)

omit hnew in
theorem moves_openClauses {body : List Stmt} (hbody : Settles (lowerStmts newInstance body)) :
    Moves known ⟨[], [], some known⟩ (openClauses newInstance body)
      fun (exception, done) => ⟨[done], [done], some (exception :: known)⟩ := by
  rw [openClauses_eq, openTry_eq]
  simp only [bind_assoc, pure_bind]
  refine (moves_freshLabel rfl).bind fun handler => (moves_freshLabel rfl).bind fun done => ?_
  exact hbody.inScope.between (detours_try (by simp)) moves_catch

omit hnew in
/-- No clause has caught the exception. -/
theorem moves_closeTry {exception : Temp} {done : String} (hexception : exception ∈ known) :
    Moves base ⟨targets, [done], some known⟩ (do
      emit (.throw exception)
      endWith .unreachable
      startBlock done) fun _ => ⟨[], [], none⟩ := by
  refine (moves_emit rfl rfl (by simp [Instr.operands, hexception])).bind fun _ => ?_
  refine (moves_endWith (List.nil_subset _) (List.nil_subset _) rfl).bind fun _ => ?_
  exact moves_startBlock.forget (List.nil_subset _)

omit hnew in
/-- The exception is read in the blocks of all clauses. -/
theorem moves_openClause {exception : Temp} {proto : String} (hexception : exception ∈ base) :
    Moves base ⟨targets, [], some base⟩ (openClause exception proto)
      fun next => ⟨next :: targets, [next], some base⟩ := by
  unfold openClause
  refine Moves.bind (moves_emitValue (fun _ => rfl) fun _ => by simp [Instr.operands, hexception])
    fun caught => ?_
  refine (moves_freshLabel rfl).bind fun bodyLabel => (moves_freshLabel rfl).bind fun next => ?_
  refine (moves_branch (by simp) (by simp) (by simp)).bind fun _ => moves_startBlock.bind fun _ => ?_
  refine Moves.of_subset ?_ (List.Subset.refl _) (moves_pure rfl)
  exact List.cons_subset_cons _ (List.subset_cons_self _ _)

omit hnew in
theorem moves_lowerCaught {exception : Temp} {x proto : String} (hexception : exception ∈ known) :
    Moves base ⟨targets, todo, some known⟩ (lowerCaught exception x proto)
      fun _ => ⟨targets, todo, some known⟩ := by
  refine (moves_declareVar _ _).bind fun var => ?_
  exact (moves_emit rfl rfl (by simp [Instr.operands, hexception])).bind fun _ => moves_pure rfl

omit hnew in
theorem moves_closeClause {next done : String} (hdone : done ∈ targets) :
    Moves base ⟨next :: targets, [next], none⟩ (do jump done; startBlock next)
      fun _ => ⟨targets, [], some base⟩ := by
  refine (moves_jump (List.mem_cons_of_mem _ hdone)).bind fun _ => ?_
  intro s₀ s htargeted hbase hs
  refine (moves_startBlock s₀ s htargeted hbase hs).mono fun _ s' hs' => ?_
  exact hs'.of_subset (List.subset_cons_self _ _) fun ts hts => ⟨ts, hts, List.Subset.refl _⟩

omit hnew in
theorem moves_lowerClause {exception : Temp} {done proto x : String} {body : List Stmt}
    (hbody : Settles (lowerStmts newInstance body)) (hexception : exception ∈ base)
    (hdone : done ∈ targets) :
    Moves base ⟨targets, [], some base⟩ (lowerClause newInstance exception done proto x body)
      fun _ => ⟨targets, [], some base⟩ := by
  refine (moves_openClause hexception).bind fun next => ?_
  refine Moves.bind (Moves.inScope ((moves_lowerCaught hexception).bind fun _ => hbody.moves)) fun _ => ?_
  exact moves_closeClause hdone

end

/-! ## Statements -/

mutual

theorem settles_lowerStmt {newInstance : String → Lower Temp}
    (hnew : ∀ proto, Yields (newInstance proto) fun t => [t]) :
    (s : Stmt) → Settles (lowerStmt newInstance s)
  | .varDecl _ name ty _ init => by
      rw [lowerStmt]
      exact settles_lowerVarDecl hnew name ty init
  | .assign _ target op value => by
      rw [lowerStmt]
      exact settles_lowerAssign hnew target op value
  | .expr _ e => by
      rw [lowerStmt]
      refine .of_moves fun known => ?_
      exact (yields_lowerExpr? hnew e).bind fun _ => Moves.anywhere (moves_pure rfl)
  | .ifThen _ c body => by
      rw [lowerStmt_ifThen_eq]
      refine .of_moves fun known => (moves_openIf hnew c).bind fun done => ?_
      exact (follows_lowerStmts hnew body).settles.inScope.moves.bind fun _ => moves_close (by simp)
  | .ifElse _ c thenBody elseBody => by
      rw [lowerStmt_ifElse_eq]
      refine .of_moves fun known =>
        (moves_openElse hnew c (follows_lowerStmts hnew thenBody).settles).bind fun done => ?_
      exact (follows_lowerStmts hnew elseBody).settles.inScope.moves.bind fun _ => moves_close (by simp)
  | .while _ c body => by
      rw [lowerStmt_while_eq]
      refine .of_moves fun known => (moves_openWhileBody hnew c).bind fun (condLabel, done) => ?_
      refine ((follows_lowerStmts hnew body).settles.inScope.withJumps (by simp) (by simp)).bind fun _ => ?_
      exact moves_close (by simp)
  | .doWhile _ body c => by
      rw [lowerStmt_doWhile_eq]
      simp only [openDoTest, bind_assoc, pure_bind]
      refine .of_moves fun known => moves_openDo.bind fun (condLabel, bodyLabel, done) => ?_
      refine ((follows_lowerStmts hnew body).settles.inScope.withJumps (by simp) (by simp)).bind fun _ => ?_
      exact moves_closeDo hnew c
  | .for _ init c update body => by
      rw [lowerStmt_for_eq]
      refine .of_moves fun known => Moves.inScope ?_
      refine (follows_lowerStmt? hnew init).moves.anywhere.bind fun _ => ?_
      refine (moves_openForStep hnew c (follows_lowerStmts hnew body).settles).bind fun labels => ?_
      refine (follows_lowerStmt? hnew update).moves.anywhere.bind fun _ => ?_
      exact moves_close (by simp)
  | .forEach _ kind declared name e body => by
      rw [lowerStmt_forEach_eq, openForEach_eq]
      simp only [bind_assoc, pure_bind]
      refine .of_moves fun known => (moves_openIterator hnew kind declared e).bind fun (iter, elem) => ?_
      -- The iterator stays defined in all blocks of the loop.
      refine Moves.nest ?_ (List.nil_subset _)
      refine (moves_openEach List.mem_cons_self).bind fun (head, done) => ?_
      refine Moves.bind (q := fun _ => ⟨[head, done], [done], none⟩) (Moves.inScope ?_) fun _ =>
        moves_close (by simp)
      refine (moves_lowerVisited List.mem_cons_self).bind fun var => ?_
      exact (follows_lowerStmts hnew body).settles.inScope.withJumps (by simp) (by simp)
  | .switch _ e arms => by
      rw [lowerStmt_switch_eq, openArms_eq]
      simp only [bind_assoc]
      refine .of_moves fun known => (yields_lowerExpr hnew e).bind fun value => ?_
      refine Moves.nest ?_ (List.nil_subset _)
      refine (moves_openTests hnew List.mem_cons_self arms).bind_of_runs
        (fun _ _ _ _ => length_of_runs_openTests) fun (done, labels) hlength => ?_
      refine (moves_lowerArms hnew arms hlength (List.subset_append_left _ _) (by simp)).bind fun _ => ?_
      exact moves_startBlock.forget (List.nil_subset _)
  | .break _ => by
      rw [lowerStmt]
      exact settles_lowerBreak
  | .continue _ => by
      rw [lowerStmt]
      exact settles_lowerContinue
  | .ret _ value => by
      rw [lowerStmt]
      exact settles_lowerReturn hnew value
  | .throw _ e => by
      rw [lowerStmt]
      refine .of_moves fun known => ?_
      refine (yields_lowerExpr hnew e).bind fun t => ?_
      refine (moves_emit rfl rfl (by simp [Instr.operands])).bind fun _ => ?_
      exact moves_endWith (List.nil_subset _) (List.nil_subset _) rfl
  | .try _ body clauses => by
      rw [lowerStmt_try_eq]
      refine .of_moves fun known => ?_
      refine (moves_openClauses (follows_lowerStmts hnew body).settles).bind fun (exception, done) => ?_
      -- The exception stays defined in the blocks of all clauses.
      refine Moves.bind (Moves.nest
        (moves_lowerClauses hnew clauses List.mem_cons_self List.mem_cons_self) (List.Subset.refl _))
        fun _ => moves_closeTry List.mem_cons_self
  | .block _ body => by
      rw [lowerStmt]
      exact (follows_lowerStmts hnew body).settles.inScope

theorem follows_lowerStmts {newInstance : String → Lower Temp}
    (hnew : ∀ proto, Yields (newInstance proto) fun t => [t]) :
    (ss : List Stmt) → Follows (lowerStmts newInstance ss)
  | [] => by
      rw [lowerStmts]
      exact ⟨moves_pure rfl⟩
  | s :: rest => by
      rw [lowerStmts]
      refine Settles.follows ⟨?_⟩
      intro base known targets todo
      exact (settles_lowerStmt hnew s).moves.bind fun _ => (follows_lowerStmts hnew rest).moves

theorem follows_lowerStmt? {newInstance : String → Lower Temp}
    (hnew : ∀ proto, Yields (newInstance proto) fun t => [t]) :
    (s? : Option Stmt) → Follows (lowerStmt? newInstance s?)
  | none => by
      rw [lowerStmt?]
      exact ⟨moves_pure rfl⟩
  | some s => by
      rw [lowerStmt?]
      exact (settles_lowerStmt hnew s).follows

/-- The arms of a switch start the blocks of their labels. -/
theorem moves_lowerArms {newInstance : String → Lower Temp}
    (hnew : ∀ proto, Yields (newInstance proto) fun t => [t]) :
    (arms : List SwitchArm) → {base : List Temp} → {labels targets todo : List String} →
    {done : String} → labels.length = arms.length → labels ⊆ targets → done ∈ targets →
    Moves base ⟨targets, labels ++ todo, none⟩ (lowerArms newInstance done labels arms)
      fun _ => ⟨targets, todo, none⟩
  | [], base, [], targets, todo, done, hlength, hlabels, hdone => by
      rw [lowerArms]
      · exact moves_pure rfl
      · nofun
  | .mk _ _ body fallsThrough :: rest, base, label :: labels, targets, todo, done, hlength, hlabels,
      hdone => by
      rw [lowerArms_cons]
      obtain ⟨_, hlabels⟩ := List.cons_subset.1 hlabels
      exact (moves_lowerArm (follows_lowerStmts hnew body).settles hlabels hdone).bind fun _ =>
        moves_lowerArms hnew rest (Nat.succ.inj hlength) hlabels hdone

/-- The clauses of a `try`. In front of each of them, and behind them all, the block is open and the
exception defined. -/
theorem moves_lowerClauses {newInstance : String → Lower Temp}
    (hnew : ∀ proto, Yields (newInstance proto) fun t => [t]) :
    (clauses : List CatchClause) → {base : List Temp} → {targets : List String} →
    {exception : Temp} → {done : String} → exception ∈ base → done ∈ targets →
    Moves base ⟨targets, [], some base⟩ (lowerClauses newInstance exception done clauses)
      fun _ => ⟨targets, [], some base⟩
  | [], base, targets, exception, done, hexception, hdone => by
      rw [lowerClauses]
      exact moves_pure rfl
  | .mk _ proto binding body :: rest, base, targets, exception, done, hexception, hdone => by
      rw [lowerClauses_cons]
      exact (moves_lowerClause (follows_lowerStmts hnew body).settles hexception hdone).bind fun _ =>
        moves_lowerClauses hnew rest hexception hdone

end

end ProtoScript.Lowering
