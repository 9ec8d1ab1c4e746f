import Mathlib.Data.List.Forall2
import ProtoScript.Proofs.Analysis.Knowledge

set_option autoImplicit false

/-!
# Where paths meet

A snapshot is a set of facts: which bindings there are, which of them have a value, and how long lists are
(`FlowSnapshot.Holds`). What is known after either of two paths are the facts of both (`holds_join`), and a
snapshot is below another if its facts are facts of the other (`below_iff`). So the laws of a meet are those
of an intersection. After any number of paths there remain the facts of all, whatever the order in which the
paths are joined (`join_meet`).

Snapshots agree if they know the same of every binding. Nothing can tell such snapshots apart: they are only
asked for single bindings, and going on with one is going on with the other (`Agree.restore`).
-/

namespace ProtoScript

/-- At most as much is known: the length is unknown or the same, and there is a value only if there is one. -/
structure FlowFact.Le (x y : FlowFact) : Prop where
  length? : x.length? = none ∨ x.length? = y.length?
  initialized : x.initialized → y.initialized

theorem FlowFact.Le.refl (x : FlowFact) : x.Le x := ⟨.inr rfl, id⟩

theorem FlowFact.Le.antisymm {x y : FlowFact} (h : x.Le y) (h' : y.Le x) : x = y := by
  have hlength : x.length? = y.length? := by
    rcases h.length? with hx | hsame
    · rcases h'.length? with hy | hsame
      · rw [hx, hy]
      · exact hsame.symm
    · exact hsame
  have hinitialized : x.initialized = y.initialized :=
    Bool.eq_iff_iff.2 ⟨h.initialized, h'.initialized⟩
  cases x
  cases y
  simp_all only

namespace FlowSnapshot

/-- The same is known of every binding. -/
def Agree (a b : FlowSnapshot) : Prop := ∀ key, a.get? key = b.get? key

/-- Every binding of `a` is one of `b`, and `b` knows at least as much of it. -/
def Below (a b : FlowSnapshot) : Prop :=
  ∀ key x, a.get? key = some x → ∃ y, b.get? key = some y ∧ x.Le y

/-! ## Facts -/

/-- What may be known: that there is a binding, that it has a value, or the length of its list. -/
inductive Fact where
  | bound (key : Nat × String)
  | initialized (key : Nat × String)
  | length (key : Nat × String) (n : Nat)

/-- The fact is known. -/
def Holds (s : FlowSnapshot) : Fact → Prop
  | .bound key => ∃ x, s.get? key = some x
  | .initialized key => ∃ x, s.get? key = some x ∧ x.initialized
  | .length key n => ∃ x, s.get? key = some x ∧ x.length? = some n

section

variable {a b c : FlowSnapshot} {fact : Fact}

/-- After either of two paths the facts of both are known. -/
theorem holds_join : (a.join b).Holds fact ↔ a.Holds fact ∧ b.Holds fact := by
  cases fact with
  | bound key =>
      simp only [Holds, get?_join]
      cases a.get? key with
      | none => simp
      | some x => cases b.get? key <;> simp
  | initialized key =>
      simp only [Holds, get?_join]
      cases a.get? key with
      | none => simp
      | some x => cases b.get? key <;> simp [FlowFact.join]
  | length key n =>
      simp only [Holds, get?_join]
      cases a.get? key with
      | none => simp
      | some x =>
          cases b.get? key with
          | none => simp
          | some y =>
              by_cases hsame : x.length? = y.length?
              · simp [FlowFact.join, hsame]
              · have hboth : ¬(x.length? = some n ∧ y.length? = some n) :=
                  fun h => hsame (h.1.trans h.2.symm)
                simpa [FlowFact.join, hsame] using hboth

theorem below_iff : a.Below b ↔ ∀ fact, a.Holds fact → b.Holds fact := by
  constructor
  · rintro h (key | key | ⟨key, n⟩) hfact
    · obtain ⟨x, hx⟩ := hfact
      obtain ⟨y, hy, _⟩ := h key x hx
      exact ⟨y, hy⟩
    · obtain ⟨x, hx, hinitialized⟩ := hfact
      obtain ⟨y, hy, hle⟩ := h key x hx
      exact ⟨y, hy, hle.initialized hinitialized⟩
    · obtain ⟨x, hx, hlength⟩ := hfact
      obtain ⟨y, hy, hle⟩ := h key x hx
      rcases hle.length? with hnone | hsame
      · rw [hnone] at hlength
        cases hlength
      · exact ⟨y, hy, hsame ▸ hlength⟩
  · intro h key x hx
    obtain ⟨y, hy⟩ := h (.bound key) ⟨x, hx⟩
    refine ⟨y, hy, ?_, fun hinitialized => ?_⟩
    · cases hlength : x.length? with
      | none => exact .inl rfl
      | some n =>
          obtain ⟨z, hz, hzlength⟩ := h (.length key n) ⟨x, hx, hlength⟩
          obtain rfl := Option.some.inj (hy.symm.trans hz)
          exact .inr hzlength.symm
    · obtain ⟨z, hz, hzinitialized⟩ := h (.initialized key) ⟨x, hx, hinitialized⟩
      obtain rfl := Option.some.inj (hy.symm.trans hz)
      exact hzinitialized

/-- Snapshots agree if each is below the other. -/
theorem agree_iff_below : a.Agree b ↔ a.Below b ∧ b.Below a := by
  constructor
  · intro h
    exact ⟨fun key x hx => ⟨x, (h key).symm.trans hx, .refl x⟩, fun key x hx => ⟨x, (h key).trans hx, .refl x⟩⟩
  · rintro ⟨hab, hba⟩ key
    cases ha : a.get? key with
    | none =>
        cases hb : b.get? key with
        | none => rfl
        | some y =>
            obtain ⟨x, hx, _⟩ := hba key y hb
            rw [ha] at hx
            cases hx
    | some x =>
        obtain ⟨y, hy, hle⟩ := hab key x ha
        obtain ⟨z, hz, hge⟩ := hba key y hy
        obtain rfl := Option.some.inj (ha.symm.trans hz)
        rw [hy, hle.antisymm hge]

theorem agree_iff : a.Agree b ↔ ∀ fact, a.Holds fact ↔ b.Holds fact := by
  rw [agree_iff_below, below_iff, below_iff]
  exact ⟨fun h fact => ⟨h.1 fact, h.2 fact⟩, fun h => ⟨fun fact => (h fact).1, fun fact => (h fact).2⟩⟩

/-- Going on with a snapshot is going on with one that agrees with it. -/
theorem Agree.restore (h : a.Agree b) (scopes : Scopes) : scopes.restore a = scopes.restore b := by
  induction scopes with
  | nil => rfl
  | cons scope outer ih => simp only [Scopes.restore, ih, h _]

end

end FlowSnapshot

namespace Analysis

open FlowSnapshot

variable {c : Context} {s s' : State} {before : FlowSnapshot}

/-! ## Any number of paths -/

/-- What is known behind some paths, joined one by one. -/
def joinPaths (paths : List FlowSnapshot) : Option FlowSnapshot :=
  paths.foldl (fun merged path => some (joinPath merged path)) none

theorem foldl_joinPath (m : FlowSnapshot) (paths : List FlowSnapshot) :
    paths.foldl (fun merged path => some (joinPath merged path)) (some m) =
      some (paths.foldl FlowSnapshot.join m) := by
  induction paths generalizing m with
  | nil => rfl
  | cons path rest ih => exact ih (m.join path)

theorem joinPaths_cons (first : FlowSnapshot) (rest : List FlowSnapshot) :
    joinPaths (first :: rest) = some (rest.foldl FlowSnapshot.join first) := foldl_joinPath first rest

theorem holds_foldl_join {m : FlowSnapshot} {paths : List FlowSnapshot} {fact : Fact} :
    (paths.foldl FlowSnapshot.join m).Holds fact ↔ m.Holds fact ∧ ∀ path ∈ paths, path.Holds fact := by
  induction paths generalizing m with
  | nil => simp
  | cons path rest ih => rw [List.foldl_cons, ih, holds_join, List.forall_mem_cons, and_assoc]

/-- A fact remains where paths meet if it is one of all paths. -/
theorem holds_joinPaths {m : FlowSnapshot} {paths : List FlowSnapshot} (h : joinPaths paths = some m)
    (fact : Fact) : m.Holds fact ↔ ∀ path ∈ paths, path.Holds fact := by
  cases paths with
  | nil => cases h
  | cons first rest =>
      obtain rfl := Option.some.inj ((joinPaths_cons first rest).symm.trans h)
      rw [holds_foldl_join, List.forall_mem_cons]

theorem joinPaths_perm {paths paths' : List FlowSnapshot} (h : paths.Perm paths') :
    Option.Rel Agree (joinPaths paths) (joinPaths paths') := by
  cases paths with
  | nil =>
      obtain rfl := h.nil_eq
      exact .none
  | cons first rest =>
      cases paths' with
      | nil => cases h.eq_nil
      | cons first' rest' =>
          have hleft := holds_joinPaths (joinPaths_cons first rest)
          have hright := holds_joinPaths (joinPaths_cons first' rest')
          rw [joinPaths_cons, joinPaths_cons]
          -- both know the facts of all paths, and that says nothing about an order
          refine .some (agree_iff.2 fun fact => ?_)
          rw [hleft, hright]
          exact ⟨fun hfact path hpath => hfact path (h.mem_iff.2 hpath),
            fun hfact path hpath => hfact path (h.mem_iff.1 hpath)⟩

/-! ## The paths of the checker -/

/-- The step, going on from somewhere with what was known before, ends with what is known on the path. -/
def Ends (c : Context) (before : FlowSnapshot) (step : Check (List Stmt)) (path : FlowSnapshot) : Prop :=
  ∃ (scopes : Scopes) (s : State), s.scopes = scopes.restore before ∧
    path = (step c s).2.scopes.snapshot

/-- Checks the body of an arm. -/
def checkArm (arm : SwitchArm) : Check (List Stmt) := inScope .switch (checkStmts arm.body)

/-- Checks the body of a catch clause, in which the exception has a name. -/
def checkClause (clause : CatchClause) : Check (List Stmt) := inScope .block do
  let _ ← define clause.binding { ty := .named clause.proto, span := clause.span }
  checkStmts clause.body

theorem scopes_expect (holds : Bool) (problem : Problem) (span : Span) (c : Context) (s : State) :
    (expect holds problem span c s).2.scopes = s.scopes := by
  unfold expect
  split <;> rfl

theorem scopes_checkCatchable (span : Span) (proto : String) (c : Context) (s : State) :
    (checkCatchable span proto c s).2.scopes = s.scopes := by
  by_cases hproto : c.hierarchy.contains proto
  · have hrun : checkCatchable span proto c s =
        expect (c.hierarchy.isException proto) (.notCatchable proto) span c s := by
      show (if _ then _ else _ : Check Unit) c s = _
      rw [if_pos hproto]
    rw [hrun, scopes_expect]
  · have hrun : checkCatchable span proto c s =
        reportName (.undefinedPrototype proto) span proto c.hierarchy.names c s := by
      show (if _ then _ else _ : Check Unit) c s = _
      rw [if_neg hproto]
    rw [hrun]
    rfl

theorem checkArms_cons (ty? : Option Ty) (before : FlowSnapshot) (merged : Option FlowSnapshot) (sp : Span)
    (test : Option Expr) (body : List Stmt) (falls : Bool) (rest : List SwitchArm) :
    checkArms ty? before merged (.mk sp test body falls :: rest) =
      checkTest ty? test >>= fun test => checkArmsFrom ty? before merged sp test body falls rest := by
  cases test with
  | none => rw [checkArms]; rfl
  | some e => rw [checkArms]; rfl

/-- The facts behind the arms of a switch are joined from those at their ends. -/
theorem merged_checkArms (ty? : Option Ty) (before : FlowSnapshot) (merged : Option FlowSnapshot)
    (arms : List SwitchArm) (c : Context) (s : State) :
    ∃ paths, List.Forall₂ (fun arm path => Ends c before (checkArm arm) path) arms paths ∧
      (checkArms ty? before merged arms c s).1.2 =
        paths.foldl (fun merged path => some (joinPath merged path)) merged := by
  induction arms generalizing merged s with
  | nil => exact ⟨[], .nil, by rw [checkArms]; rfl⟩
  | cons arm rest ih =>
      obtain ⟨sp, test, body, falls⟩ := arm
      rw [checkArms_cons]
      generalize hrun : (checkTest ty? test >>= fun test =>
        checkArmsFrom ty? before merged sp test body falls rest) c s = r
      obtain ⟨test', s₁, h₁, hrun⟩ := run_step hrun
      obtain ⟨_, s₂, h₂, hrun⟩ := run_step hrun
      obtain ⟨body', s₃, h₃, hrun⟩ := run_step hrun
      obtain ⟨_, s₄, h₄, hrun⟩ := run_step hrun
      obtain ⟨_, _, h₅, hrun⟩ := run_step hrun
      obtain ⟨⟨rest', merged'⟩, s₆, h₆, hresult⟩ := run_step hrun
      cases h₅
      -- the arm begins with what was known before the switch, and what it ends with is joined
      have hstart : s₂.scopes = s₁.scopes.restore before := by
        cases h₂
        rfl
      have hend : s₄.scopes = s₃.scopes := by
        have hscopes := scopes_expect (falls || endsInJump body) .armFallsThrough sp c s₃
        rwa [h₄] at hscopes
      obtain ⟨paths, hpaths, hmerged⟩ := ih (some (joinPath merged s₄.scopes.snapshot)) s₄
      refine ⟨s₄.scopes.snapshot :: paths, .cons ⟨s₁.scopes, s₂, hstart, ?_⟩ hpaths, ?_⟩
      · rw [checkArm, SwitchArm.body, h₃, hend]
      · rw [← hresult]
        rw [h₆] at hmerged
        exact hmerged

/-- The facts behind the catch clauses of a body are joined from those at their ends. -/
theorem merged_checkClauses (before merged : FlowSnapshot) (clauses : List CatchClause) (c : Context)
    (s : State) : ∃ paths,
      List.Forall₂ (fun clause path => Ends c before (checkClause clause) path) clauses paths ∧
      (checkClauses before merged clauses c s).1.2 = paths.foldl FlowSnapshot.join merged := by
  induction clauses generalizing merged s with
  | nil => exact ⟨[], .nil, by rw [checkClauses]; rfl⟩
  | cons clause rest ih =>
      obtain ⟨sp, proto, binding, body⟩ := clause
      generalize hrun : checkClauses before merged (.mk sp proto binding body :: rest) c s = r
      rw [checkClauses] at hrun
      obtain ⟨_, s₁, h₁, hrun⟩ := run_step hrun
      obtain ⟨_, s₂, h₂, hrun⟩ := run_step hrun
      obtain ⟨body', s₃, h₃, hrun⟩ := run_step hrun
      obtain ⟨_, _, h₄, hrun⟩ := run_step hrun
      obtain ⟨⟨rest', merged'⟩, s₅, h₅, hresult⟩ := run_step hrun
      cases h₄
      -- the clause begins with what was known before the body, and what it ends with is joined
      have hstart : s₂.scopes = s.scopes.restore before := by
        have hscopes := scopes_checkCatchable sp proto c s₁
        rw [h₂] at hscopes
        cases h₁
        exact hscopes
      obtain ⟨paths, hpaths, hmerged⟩ := ih (merged.join s₃.scopes.snapshot) s₃
      refine ⟨s₃.scopes.snapshot :: paths, .cons ⟨s.scopes, s₂, hstart, ?_⟩ hpaths, ?_⟩
      · rw [checkClause, CatchClause.binding, CatchClause.proto, CatchClause.span, CatchClause.body, h₃]
      · rw [← hresult]
        rw [h₅] at hmerged
        exact hmerged

/-! ## Where the checker goes on -/

/-- What is known is what was joined from the paths. -/
def GoesOn (s : State) (paths : List FlowSnapshot) : Prop :=
  ∃ (scopes : Scopes) (m : FlowSnapshot), joinPaths paths = some m ∧ s.scopes = scopes.restore m

/-- The branches that do not jump away; if both do, nothing is reached behind them, and both count. -/
def livePaths (a b : FlowSnapshot) (aJumps bJumps : Bool) : List FlowSnapshot :=
  if aJumps = bJumps then [a, b] else if aJumps then [b] else [a]

theorem joinPaths_livePaths (a b : FlowSnapshot) (aJumps bJumps : Bool) :
    joinPaths (livePaths a b aJumps bJumps) = some (afterBranches a b aJumps bJumps) := by
  cases aJumps <;> cases bJumps <;> rfl

theorem goesOn_ifThen (sp : Span) (e : Expr) (body : List Stmt) (c : Context) (s : State) :
    let s₁ := (checkCondition e c s).2
    GoesOn (checkStmt (.ifThen sp e body) c s).2
      (livePaths (inScope .block (checkStmts body) c s₁).2.scopes.snapshot s₁.scopes.snapshot
        (endsInJump body) false) := by
  rw [checkStmt]
  exact ⟨_, _, joinPaths_livePaths _ _ _ _, rfl⟩

theorem goesOn_ifElse (sp : Span) (e : Expr) (thenBody elseBody : List Stmt) (c : Context) (s : State) :
    let s₁ := (checkCondition e c s).2
    ∃ path, Ends c s₁.scopes.snapshot (inScope .block (checkStmts elseBody)) path ∧
      GoesOn (checkStmt (.ifElse sp e thenBody elseBody) c s).2
        (livePaths (inScope .block (checkStmts thenBody) c s₁).2.scopes.snapshot path
          (endsInJump thenBody) (endsInJump elseBody)) := by
  rw [checkStmt]
  exact ⟨_, ⟨_, _, rfl, rfl⟩, _, _, joinPaths_livePaths _ _ _ _, rfl⟩

theorem goesOn_switch (sp : Span) (e : Expr) (arms : List SwitchArm) (c : Context) (s : State) :
    let before := (checkSwitched e c s).2.scopes.snapshot
    ∃ paths, List.Forall₂ (fun arm => Ends c before (checkArm arm)) arms paths ∧
      GoesOn (checkStmt (.switch sp e arms) c s).2
        (if arms.any fun arm => arm.test.isNone then paths else paths ++ [before]) := by
  intro before
  obtain ⟨paths, hpaths, hmerged⟩ := merged_checkArms (checkSwitched e c s).1.type? before none arms c
    (checkSwitched e c s).2
  have hgoes : joinPaths (if arms.any fun arm => arm.test.isNone then paths else paths ++ [before]) =
      some (if arms.any fun arm => arm.test.isNone then (joinPaths paths).getD before
        else joinPath (joinPaths paths) before) := by
    cases hdefault : arms.any fun arm => arm.test.isNone with
    | true =>
        -- an arm without a test is an arm, so there is a path
        cases hpaths with
        | nil => cases hdefault
        | cons _ _ => rw [if_pos rfl, if_pos rfl, joinPaths_cons, Option.getD_some]
    | false => exact List.foldl_concat _ _ _ _
  refine ⟨paths, hpaths, (checkArms (checkSwitched e c s).1.type? before none arms c
      (checkSwitched e c s).2).2.scopes, _, hgoes, ?_⟩
  rw [checkStmt, joinPaths, ← hmerged]
  rfl

theorem goesOn_try (sp : Span) (body : List Stmt) (clauses : List CatchClause) (c : Context) (s : State) :
    ∃ paths, List.Forall₂ (fun clause => Ends c s.scopes.snapshot (checkClause clause)) clauses paths ∧
      GoesOn (checkStmt (.try sp body clauses) c s).2
        ((inScope .block (checkStmts body) c s).2.scopes.snapshot :: paths) := by
  obtain ⟨paths, hpaths, hmerged⟩ := merged_checkClauses s.scopes.snapshot
    (inScope .block (checkStmts body) c s).2.scopes.snapshot clauses c
    (inScope .block (checkStmts body) c s).2
  refine ⟨paths, hpaths, (checkClauses s.scopes.snapshot
      (inScope .block (checkStmts body) c s).2.scopes.snapshot clauses c
      (inScope .block (checkStmts body) c s).2).2.scopes, _, joinPaths_cons _ _, ?_⟩
  rw [checkStmt, ← hmerged]
  rfl

/-! ## The laws -/

/-- Joining is commutative, associative and idempotent, and gives the greatest of the snapshots below both.
Paths may be joined in any order, and a fact remains if it is one of all paths. Behind branches, the arms of a
switch and catch clauses the checker goes on with what it has joined from their ends. -/
theorem join_meet :
    (∀ a b : FlowSnapshot, (a.join b).Agree (b.join a)) ∧
    (∀ a b c : FlowSnapshot, ((a.join b).join c).Agree (a.join (b.join c))) ∧
    (∀ a : FlowSnapshot, (a.join a).Agree a) ∧
    (∀ a b : FlowSnapshot, (a.join b).Below a ∧ (a.join b).Below b ∧
      ∀ c : FlowSnapshot, c.Below a → c.Below b → c.Below (a.join b)) ∧
    (∀ a b : FlowSnapshot, a.Agree b ↔ a.Below b ∧ b.Below a) ∧
    (∀ a b : FlowSnapshot, a.Agree b → ∀ scopes : Scopes, scopes.restore a = scopes.restore b) ∧
    (∀ paths paths', paths.Perm paths' → Option.Rel Agree (joinPaths paths) (joinPaths paths')) ∧
    (∀ paths m, joinPaths paths = some m → ∀ fact : Fact, m.Holds fact ↔ ∀ path ∈ paths, path.Holds fact) ∧
    (∀ sp e body c s, let s₁ := (checkCondition e c s).2
      GoesOn (checkStmt (.ifThen sp e body) c s).2
        (livePaths (inScope .block (checkStmts body) c s₁).2.scopes.snapshot s₁.scopes.snapshot
          (endsInJump body) false)) ∧
    (∀ sp e thenBody elseBody c s, let s₁ := (checkCondition e c s).2
      ∃ path, Ends c s₁.scopes.snapshot (inScope .block (checkStmts elseBody)) path ∧
        GoesOn (checkStmt (.ifElse sp e thenBody elseBody) c s).2
          (livePaths (inScope .block (checkStmts thenBody) c s₁).2.scopes.snapshot path
            (endsInJump thenBody) (endsInJump elseBody))) ∧
    (∀ sp e arms c s, let before := (checkSwitched e c s).2.scopes.snapshot
      ∃ paths, List.Forall₂ (fun arm => Ends c before (checkArm arm)) arms paths ∧
        GoesOn (checkStmt (.switch sp e arms) c s).2
          (if arms.any fun arm => arm.test.isNone then paths else paths ++ [before])) ∧
    (∀ sp body clauses c s, ∃ paths,
      List.Forall₂ (fun clause => Ends c s.scopes.snapshot (checkClause clause)) clauses paths ∧
        GoesOn (checkStmt (.try sp body clauses) c s).2
          ((inScope .block (checkStmts body) c s).2.scopes.snapshot :: paths)) := by
  refine ⟨fun a b => ?_, fun a b c => ?_, fun a => ?_, fun a b => ⟨?_, ?_, fun c ha hb => ?_⟩,
    fun a b => agree_iff_below, fun a b h => h.restore, fun _ _ => joinPaths_perm,
    fun _ _ => holds_joinPaths, goesOn_ifThen, goesOn_ifElse, goesOn_switch, goesOn_try⟩
  · exact agree_iff.2 fun fact => by rw [holds_join, holds_join, and_comm]
  · exact agree_iff.2 fun fact => by simp only [holds_join, and_assoc]
  · exact agree_iff.2 fun fact => by rw [holds_join, and_self_iff]
  · exact below_iff.2 fun fact h => (holds_join.1 h).1
  · exact below_iff.2 fun fact h => (holds_join.1 h).2
  · exact below_iff.2 fun fact h => holds_join.2 ⟨below_iff.1 ha fact h, below_iff.1 hb fact h⟩

/-- Two lists of known lengths, after a branch that made the second of them longer. -/
def lengthsThen : FlowSnapshot := [((0, "a"), ⟨some 2, true⟩), ((0, "b"), ⟨some 1, true⟩)]

/-- The same lists without that branch. -/
def lengthsElse : FlowSnapshot := [((0, "a"), ⟨some 2, true⟩), ((0, "b"), ⟨some 0, true⟩)]

/-- Both ways to join the two paths know the same: the length that the paths agree on, and not the other. -/
theorem join_meet_lengths :
    Option.Rel Agree (joinPaths [lengthsThen, lengthsElse]) (joinPaths [lengthsElse, lengthsThen]) ∧
      ∃ m, joinPaths [lengthsThen, lengthsElse] = some m ∧ m.Holds (.length (0, "a") 2) ∧
        ¬ m.Holds (.length (0, "b") 1) := by
  obtain ⟨_, _, _, _, _, _, hperm, hholds, _⟩ := join_meet
  have hsome : joinPaths [lengthsThen, lengthsElse] = some (lengthsThen.join lengthsElse) := rfl
  refine ⟨hperm _ _ (.swap _ _ _), _, hsome, (hholds _ _ hsome _).2 ?_, fun hlost => ?_⟩
  · rw [List.forall_mem_cons, List.forall_mem_singleton]
    exact ⟨⟨_, rfl, rfl⟩, ⟨_, rfl, rfl⟩⟩
  · obtain ⟨x, hx, hlength⟩ := (hholds _ _ hsome _).1 hlost lengthsElse (by simp)
    obtain rfl := Option.some.inj (hx.symm.trans (show _ = some ⟨some 0, true⟩ from rfl))
    cases hlength

end Analysis

end ProtoScript
