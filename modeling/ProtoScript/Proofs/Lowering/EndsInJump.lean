import ProtoScript.Proofs.Lowering.Poised

set_option autoImplicit false

/-!
# Behind a jump

Statements that surely jump close the current block, or leave an open block behind a choice both of whose
branches jump. Control never comes to such a block: no code that is written later goes there
(`closed_or_apart_of_endsInJump`). To see this, a temporary that nothing defines is taken for defined at the
label of the block. Every jump to the label would have to be at a place where the temporary is defined
already.
-/

namespace ProtoScript.Lowering

open Ir

variable {α : Type}

/-! ## Steps that close the block -/

/-- Behind the step the current block is closed. -/
def Closes (m : Lower Unit) : Prop := ∀ c b b', Runs c m b () b' → b'.ended ≠ none

theorem closes_fail (cause : Cause) : Closes (fail cause) := by
  intro c b b' h
  cases h

theorem closes_endWith (t : Terminator) : Closes (endWith t) := by
  intro c b b' h
  cases h
  show (b.ended <|> some t) ≠ none
  cases b.ended with
  | none => exact Option.some_ne_none t
  | some t' => exact Option.some_ne_none t'

theorem closes_bind {m : Lower α} {f : α → Lower Unit} (h : ∀ a, Closes (f a)) : Closes (m >>= f) := by
  intro c b b' hrun
  obtain ⟨a, b₁, _, hf⟩ := hrun.of_bind
  exact h a c b₁ b' hf

theorem closes_lowerBreak : Closes lowerBreak := by
  refine closes_bind fun b => ?_
  split
  · exact closes_fail _
  · exact closes_bind fun _ => closes_endWith _

theorem closes_lowerContinue : Closes lowerContinue := by
  refine closes_bind fun b => ?_
  split
  · exact closes_fail _
  · exact closes_bind fun _ => closes_endWith _

theorem closes_lowerReturn (ni : String → Lower Temp) (value : Option Expr) :
    Closes (lowerReturn ni value) := by
  cases value with
  | none => exact closes_bind fun _ => closes_endWith _
  | some e => exact closes_bind fun _ => closes_bind fun _ => closes_endWith _

/-! ## Statements that jump -/

/-- The step leads from an open block to a block that is closed or where `t` is taken for defined. -/
def Strands (t : Temp) (m : Lower Unit) : Prop :=
  ∀ s : Site, s.Targeted → s.IsOpen →
    Builds m s fun _ s' => s.At ⟨[], [], none⟩ s' ∧ (s'.IsOpen → t ∈ s'.defined)

section

variable {t : Temp} {m : Lower Unit}

theorem Settles.strands (h : Settles m) (hcloses : Closes m) : Strands t m := by
  intro s htargeted hopen c a b hrun
  obtain ⟨s', rfl, hacts, hs'⟩ := h.builds htargeted hopen c a b hrun
  exact ⟨s', rfl, hacts, hs', fun hopen' => absurd hopen' (hcloses c _ _ hrun)⟩

theorem Strands.inScope (h : Strands t m) : Strands t (inScope m) := by
  intro s htargeted hopen
  refine builds_bind () (s.withScopes ([] :: s.builder.scopes)) (fun _ => runs_modify _)
    (.single (.withScopes _)) ?_
  refine (h (s.withScopes ([] :: s.builder.scopes)) htargeted hopen).bind fun _ s' ⟨hs', ht⟩ => ?_
  refine builds_bind () (s'.withScopes s'.builder.scopes.tail) (fun _ => runs_modify _)
    (.single (.withScopes _)) (builds_pure ⟨?_, ht⟩)
  exact (((Site.At.self s).withScopes _).trans hs').withScopes _

/-- A branch of a choice. Where it leaves its block open, the block goes on to a label at which the temporary
is taken for defined. -/
theorem Strands.branch (h : Strands t m) {s : Site} {x : Fact} {label : String} {rest : Lower α}
    {Q : α → Site → Prop} (htargeted : s.Targeted) (hopen : s.IsOpen) (hlabel : (label, x) ∈ s.promises)
    (hdefined : ∀ u ∈ x.defined, u = t ∨ u ∈ s.defined) (hdepth : x.depth = s.builder.tryDepth)
    (hrest : ∀ s', s.At ⟨[], [], none⟩ s' → Builds rest s' Q) :
    Builds (do Lowering.inScope m; jump label; rest) s Q := by
  refine (h.inScope s htargeted hopen).bind fun _ s₁ ⟨hs₁, ht⟩ => ?_
  refine (hs₁.endWith (t := .jump label) fun hopen₁ => ?_).bind fun _ s₂ hs₂ => hrest s₂ hs₂
  refine ⟨List.nil_subset _, fun l hl => ?_, nofun⟩
  rw [List.mem_singleton.1 hl]
  refine ⟨x, hs₁.reaches.promises hlabel, fun u hu => ?_, hdepth.trans hs₁.reaches.depth.symm⟩
  rcases hdefined u hu with rfl | hu
  · exact ht hopen₁
  · exact hs₁.reaches.defined hu

variable {ni : String → Lower Temp} (hnew : ∀ proto, Yields (ni proto) fun t => [t])

include hnew

/-- Where the first branch of a choice begins the two other labels are to come. The one behind both branches
is promised the temporary besides what is defined. -/
theorem builds_openIfElse (t : Temp) (e : Expr) {s : Site} (htargeted : s.Targeted) (hopen : s.IsOpen) :
    Builds (openIfElse ni e) s fun (elseLabel, done) s' => s.Reaches s' ∧ s'.IsOpen ∧
      (elseLabel, s.here) ∈ s'.promises ∧ (done, ⟨t :: s.defined, s.builder.tryDepth⟩) ∈ s'.promises ∧
      s'.pending = elseLabel :: done :: s.pending := by
  have hself : s.At ⟨[], [], some []⟩ s := .refl hopen (List.nil_subset _)
  refine ((yields_lowerExpr hnew e).moves s s htargeted (List.nil_subset _) hself).bind fun cond s₁ hs₁ => ?_
  let s₂ := s₁.promise "if_then" s.here
  let s₃ := s₂.promise "if_end" ⟨t :: s.defined, s.builder.tryDepth⟩
  let s₄ := s₃.promise "if_else" s.here
  let elseLabel := s₃.builder.newLabel "if_else"
  let done := s₂.builder.newLabel "if_end"
  let thenLabel := s₁.builder.newLabel "if_then"
  have hmeets : ∀ l, (l, s.here) ∈ s₄.promises → s₄.here.Meets s₄.promises l := fun l hl =>
    ⟨s.here, hl, hs₁.reaches.defined, hs₁.reaches.depth.symm⟩
  have hbranch : s₄.here.AllowsEnd s₄.promises (.branch cond thenLabel elseLabel) := by
    refine ⟨fun u hu => ?_, fun l hl => ?_, nofun⟩
    · rw [List.mem_singleton.1 hu]
      exact hs₁.subset List.mem_cons_self
    · have hl : l = thenLabel ∨ l = elseLabel := by simpa [Terminator.successors] using hl
      rcases hl with rfl | rfl
      · exact hmeets _ (by simp [s₄, s₃, s₂, Site.promise, thenLabel])
      · exact hmeets _ List.mem_cons_self
  let s₅ := s₄.finish (.branch cond thenLabel elseLabel)
  have hpending : s₅.pending.Perm (thenLabel :: elseLabel :: done :: s.pending) := by
    have hperm := (hs₁.pending.cons thenLabel).cons done |>.cons elseLabel
    have hmiddle : ([elseLabel, done] ++ thenLabel :: s.pending).Perm
        (thenLabel :: ([elseLabel, done] ++ s.pending)) := List.perm_middle
    exact hperm.trans hmiddle
  have hstart : Act s₅ (s₅.start thenLabel s.here (elseLabel :: done :: s.pending)) :=
    .start (by simp [s₅, s₄, s₃, s₂, Site.promise, Site.finish, thenLabel]) hs₁.reaches.depth.symm hpending
  refine builds_bind thenLabel s₂ (fun _ => runs_freshLabel _) (.single (.promise _ rfl)) ?_
  refine builds_bind done s₃ (fun _ => runs_freshLabel _) (.single (.promise _ rfl)) ?_
  refine builds_bind elseLabel s₄ (fun _ => runs_freshLabel _) (.single (.promise _ rfl)) ?_
  refine builds_bind () s₅ (fun _ => runs_endWith (b := s₄.builder) hs₁.isOpen _)
    (.single (.finish hs₁.isOpen hbranch)) ?_
  refine builds_bind () _ (fun _ => runs_startBlock _) (.single hstart) (builds_pure ?_)
  refine ⟨⟨fun l hl => ?_, List.Subset.refl _, hs₁.reaches.depth, hs₁.reaches.jumps⟩, rfl, ?_, ?_, rfl⟩
  · exact List.mem_cons_of_mem _ (List.mem_cons_of_mem _ (List.mem_cons_of_mem _ (hs₁.reaches.promises hl)))
  · exact List.mem_cons_self
  · exact List.mem_cons_of_mem _ List.mem_cons_self

/-- If both branches of a choice jump, control does not come behind it. -/
theorem Strands.ifElse {sp : Span} {e : Expr} {x y : List Stmt} (hx : Strands t (lowerStmts ni x))
    (hy : Strands t (lowerStmts ni y)) : Strands t (lowerStmt ni (.ifElse sp e x y)) := by
  intro s htargeted hopen
  rw [lowerStmt_ifElse_eq]
  simp only [openElse, bind_assoc, pure_bind]
  refine (builds_openIfElse hnew t e htargeted hopen).bind ?_
  rintro ⟨elseLabel, done⟩ s₁ ⟨hreaches, hopen₁, helse, hdone, hpending⟩
  have hdead : ∀ u ∈ t :: s.defined, u = t ∨ u ∈ s.defined := fun u hu => List.mem_cons.1 hu
  have hdead₁ : ∀ u ∈ t :: s.defined, u = t ∨ u ∈ s₁.defined := fun u hu =>
    (hdead u hu).imp_right fun hu => hreaches.defined hu
  refine hx.branch (hreaches.targeted htargeted) hopen₁ hdone hdead₁ hreaches.depth.symm fun s₂ hs₂ => ?_
  have hreaches₂ := hreaches.trans hs₂.reaches
  let s₃ := s₂.start elseLabel s.here (done :: s.pending)
  have hstart : Act s₂ s₃ :=
    .start (hs₂.reaches.promises helse) hreaches₂.depth.symm (hs₂.pending.trans (.of_eq hpending))
  have hreaches₃ : s.Reaches s₃ :=
    ⟨hreaches₂.promises, List.Subset.refl _, hreaches₂.depth, hreaches₂.jumps⟩
  refine builds_bind () s₃ (fun _ => runs_startBlock _) (.single hstart) ?_
  refine hy.branch (hreaches₃.targeted htargeted) rfl (hs₂.reaches.promises hdone) hdead hreaches₃.depth.symm
    fun s₄ hs₄ => ?_
  have hreaches₄ := hreaches₃.trans hs₄.reaches
  have hend : Act s₄ (s₄.start done ⟨t :: s.defined, s.builder.tryDepth⟩ s.pending) :=
    .start (hs₄.reaches.promises (hs₂.reaches.promises hdone)) hreaches₄.depth.symm hs₄.pending
  refine builds_of_runs () _ (fun _ => runs_startBlock _) (.single hend) ⟨?_, fun _ => List.mem_cons_self⟩
  refine .of_reaches ⟨hreaches₄.promises, ?_, hreaches₄.depth, hreaches₄.jumps⟩ (List.Perm.refl _)
  exact List.subset_cons_self _ _

omit hnew in
/-- In an open block the first of the statements is written. -/
theorem strands_cons {s : Stmt} {rest : List Stmt}
    (h : Strands t (do lowerStmt ni s; lowerStmts ni rest)) : Strands t (lowerStmts ni (s :: rest)) := by
  intro s₀ htargeted hopen
  rw [lowerStmts]
  refine builds_bind s₀.builder.ended.isNone s₀ (fun _ => runs_isOpen) .refl ?_
  rw [hopen]
  exact h s₀ htargeted hopen

end

mutual

theorem strands_lowerStmt {ni : String → Lower Temp} (hnew : ∀ proto, Yields (ni proto) fun t => [t])
    (t : Temp) : (s : Stmt) → s.isJump → Strands t (lowerStmt ni s)
  | .break _, _ => by
      rw [lowerStmt]
      exact settles_lowerBreak.strands closes_lowerBreak
  | .continue _, _ => by
      rw [lowerStmt]
      exact settles_lowerContinue.strands closes_lowerContinue
  | .ret _ value, _ => by
      rw [lowerStmt]
      exact (settles_lowerReturn hnew value).strands (closes_lowerReturn ni value)
  | .throw sp e, _ => by
      refine (settles_lowerStmt hnew (.throw sp e)).strands ?_
      rw [lowerStmt]
      exact closes_bind fun _ => closes_bind fun _ => closes_endWith _
  | .block _ body, hjump => by
      rw [Stmt.isJump] at hjump
      rw [lowerStmt]
      exact (strands_lowerStmts hnew t body hjump).inScope
  | .ifElse _ e x y, hjump => by
      rw [Stmt.isJump, Bool.and_eq_true] at hjump
      exact Strands.ifElse hnew (strands_lowerStmts hnew t x hjump.1) (strands_lowerStmts hnew t y hjump.2)
  | .varDecl .., hjump | .assign .., hjump | .expr .., hjump | .ifThen .., hjump | .while .., hjump
  | .doWhile .., hjump | .for .., hjump | .forEach .., hjump | .switch .., hjump | .try .., hjump => by
      cases hjump

/-- What is behind the last of the statements is behind them all. One in front of it may have closed the block,
and then the others are not written. -/
theorem strands_lowerStmts {ni : String → Lower Temp} (hnew : ∀ proto, Yields (ni proto) fun t => [t])
    (t : Temp) : (ss : List Stmt) → endsInJump ss → Strands t (lowerStmts ni ss)
  | [], hjump => by
      cases hjump
  | [s], hjump => by
      rw [endsInJump] at hjump
      refine strands_cons fun s₀ htargeted hopen => ?_
      refine (strands_lowerStmt hnew t s hjump s₀ htargeted hopen).bind fun _ s₁ hs₁ => ?_
      rw [lowerStmts]
      exact builds_pure hs₁
  | s :: s' :: rest, hjump => by
      rw [endsInJump] at hjump
      refine strands_cons fun s₀ htargeted hopen => ?_
      refine ((settles_lowerStmt hnew s).builds htargeted hopen).bind fun _ s₁ hs₁ => ?_
      cases hended : s₁.builder.ended with
      | none =>
          have hrest := strands_lowerStmts hnew t (s' :: rest) hjump s₁ (hs₁.reaches.targeted htargeted) hended
          exact hrest.mono fun _ s₂ ⟨hs₂, ht⟩ => ⟨hs₁.trans hs₂, ht⟩
      | some t' =>
          refine builds_of_runs () s₁ (fun _ => runs_lowerStmts_of_ended hended _) .refl ⟨hs₁, fun hopen₁ => ?_⟩
          cases hended.symm.trans hopen₁

end

/-! ## Where statements stand -/

theorem lowerStmts_append {ni : String → Lower Temp} (ss rest : List Stmt) :
    lowerStmts ni (ss ++ rest) = (do lowerStmts ni ss; lowerStmts ni rest) := by
  induction ss with
  | nil =>
      rw [lowerStmts]
      rfl
  | cons s ss ih =>
      rw [List.cons_append, lowerStmts, lowerStmts, ih]
      funext c b
      show (if b.ended.isNone then _ else _ : Lower Unit) c b =
        ((if b.ended.isNone then _ else _ : Lower Unit) >>= fun _ => lowerStmts ni rest) c b
      cases hended : b.ended with
      | none => exact congrArg (fun m : Lower Unit => m c b) (bind_assoc ..).symm
      | some t => exact (runs_lowerStmts_of_ended hended rest).symm

theorem lowerStmts_singleton {ni : String → Lower Temp} (s : Stmt) {c : Context} {b : Builder}
    (hopen : b.ended = none) : lowerStmts ni [s] c b = lowerStmt ni s c b := by
  rw [lowerStmts, lowerStmts]
  show (if b.ended.isNone then _ else _ : Lower Unit) c b = _
  rw [hopen]
  exact congrArg (fun m : Lower Unit => m c b) (bind_pure _)

/-- The statements are what the piece begins with: the first ones of a list, or a statement by itself. -/
def Piece.BeginsWith : Piece → List Stmt → Prop
  | .row body, ss => ss <+: body
  | .stmt s, ss => ss = [s]
  | .arms .., _ => False
  | .clauses .., _ => False

/-- In an open block lowering is poised before the statements that a piece begins with. -/
theorem Piece.Sits.front {ni : String → Lower Temp} (hnew : ∀ proto, Yields (ni proto) fun t => [t])
    {c : Context} {first : Site} {last : Builder} {piece : Piece} {ss : List Stmt} {b : Builder}
    (h : piece.Sits c ni first last b) (hbegins : piece.BeginsWith ss) (hopen : b.ended = none) :
    Poised c first last [] ⟨[], [], none⟩ (lowerStmts ni ss) (fun _ => ⟨[], [], none⟩) b := by
  cases piece with
  | row body =>
      obtain ⟨rest, rfl⟩ := hbegins
      rw [Piece.Sits, lowerStmts_append] at h
      exact h.before fun _ => (follows_lowerStmts hnew rest).moves
  | stmt s =>
      cases hbegins
      exact h.alone.congr (lowerStmts_singleton s hopen)
  | arms => cases hbegins
  | clauses => cases hbegins

/-! ## The finished function -/

/-- Acts take no promise back and give temporaries out in order. -/
theorem Act.grows {s s' : Site} (h : Act s s') :
    s.promises ⊆ s'.promises ∧ s.builder.nextTemp ≤ s'.builder.nextTemp := by
  cases h with
  | write => exact ⟨List.Subset.refl _, Nat.le_add_right _ _⟩
  | promise => exact ⟨List.subset_cons_self _ _, Nat.le_refl _⟩
  | finish | start | atDepth | withScopes | jumpingTo => exact ⟨List.Subset.refl _, Nat.le_refl _⟩

theorem Acts.grows {s s' : Site} (h : Acts s s') :
    s.promises ⊆ s'.promises ∧ s.builder.nextTemp ≤ s'.builder.nextTemp :=
  h.keeps (P := fun s' => s.promises ⊆ s'.promises ∧ s.builder.nextTemp ≤ s'.builder.nextTemp)
    (fun hact ⟨hpromises, htemps⟩ =>
      ⟨List.Subset.trans hpromises hact.grows.1, Nat.le_trans htemps hact.grows.2⟩)
    ⟨List.Subset.refl _, Nat.le_refl _⟩

section

variable {hierarchy : Hierarchy} {prototypes : List PrototypeDecl} {depth : Nat} {proto? : Option String}
  {f : FunctionDecl} {F : Ir.Function}

/-- Where a temporary is taken for defined that was not given out when the function was finished, control never
comes. -/
theorem not_connects_of_acts {s₁ s₂ : Site} (hacts₁ : Acts (startSite proto? f) s₁) (hacts₂ : Acts s₁ s₂)
    (hblocks : F.blocks = s₂.builder.blocks) (hopen : s₁.IsOpen) (ht : s₂.builder.nextTemp ∈ s₁.defined) :
    ¬ F.Connects "entry" s₁.builder.label := by
  intro hconnects
  have hacts : Acts (startSite proto? f) s₂ := hacts₁.trans hacts₂
  obtain ⟨hannotated, hentry⟩ := annotated_of_acts hacts hblocks
  obtain ⟨hpromises, htemps⟩ := hacts₂.grows
  have hfresh := hacts.keeps Site.Fresh.act (fresh_startSite proto? f)
  have hnew : ∀ b ∈ F.blocks, s₂.builder.nextTemp ∉ b.instrs.filterMap Instr.dest? := by
    intro b hb hmem
    have hdests := (Function.dests_sublist hb).subset hmem
    rw [instrs_eq_of_blocks hblocks] at hdests
    exact Nat.lt_irrefl _ (hfresh.bounds _ hdests)
  obtain ⟨e, he, hlabel⟩ := Option.map_eq_some_iff.1 hentry
  rw [← hlabel] at hconnects
  obtain ⟨x, hx, hlacks⟩ := hannotated.lacks hnew he hconnects
  -- The current block has the fact that the site began it with.
  obtain ⟨y, hy, _, hhere, _⟩ := (hacts₁.keeps Site.Honest.act (honest_startSite proto? f)).current
  have hcode : s₂.builder.nextTemp ∉ s₁.builder.code.filterMap Instr.dest? := by
    intro hmem
    have hwritten : s₂.builder.nextTemp ∈ s₁.instrs.filterMap Instr.dest? := by
      rw [Site.instrs, List.filterMap_append]
      exact List.mem_append_right _ hmem
    have hbound := (hacts₁.keeps Site.Fresh.act (fresh_startSite proto? f)).bounds _ hwritten
    exact Nat.lt_irrefl _ (Nat.lt_of_lt_of_le hbound htemps)
  rw [hannotated.unique hx (hpromises hy), ← Fact.mem_defined_afterAll hcode, hhere hopen] at hlacks
  exact hlacks ht

/-- Statements that surely jump are followed by nothing that runs: wherever lowering a function comes to them
in an open block, it goes on to a block that is closed, or to one that control never comes to in the finished
function. -/
theorem closed_or_apart_of_endsInJump (hF : lowerFunction hierarchy prototypes depth proto? f = .ok F)
    {piece : Piece} {ss : List Stmt} {b : Builder}
    (hgets : Gets (contextOf hierarchy prototypes proto? f) (newInstance depth) proto? f piece b)
    (hbegins : piece.BeginsWith ss) (hopen : b.ended = none) (hjump : endsInJump ss) :
    ∃ b', Runs (contextOf hierarchy prototypes proto? f) (lowerStmts (newInstance depth) ss) b () b' ∧
      (b'.ended ≠ none ∨ ¬ F.Connects "entry" b'.label) := by
  have hnew := yields_newInstance depth
  obtain ⟨last, hrun, hblocks, _⟩ := runs_lowerBody hF
  obtain ⟨s₀, s, _, b', hacts, htargeted, _, hs, rfl, hruns, hrest⟩ :=
    (sits_of_gets hnew hrun hgets).front hnew hbegins hopen
  refine ⟨b', hruns, ?_⟩
  obtain ⟨s₁, rfl, hacts₁, hs₁, ht⟩ := strands_lowerStmts hnew last.nextTemp ss hjump s
    (hs.reaches.targeted htargeted) hopen _ _ _ hruns
  obtain ⟨s₂, hacts₂, rfl⟩ := hrest s₁ (hs.trans hs₁) rfl
  by_cases hended : s₁.builder.ended = none
  · exact .inr (not_connects_of_acts (hacts.trans hacts₁) hacts₂ hblocks hended (ht hended))
  · exact .inl hended

end

/-- A choice that leaves the loop around it or begins its next round. -/
def leaveOrRepeat : List Stmt := [.ifElse .origin (.ident {} "done") [.break .origin] [.continue .origin]]

/-- A loop with a return behind such a choice. -/
def polling : FunctionDecl where
  name := "polling"
  params := [⟨"again", .bool, .origin⟩, ⟨"done", .bool, .origin⟩]
  ret := .void
  body := [.while .origin (.ident {} "again") (leaveOrRepeat ++ [.ret .origin none])]

/-- What `polling` is lowered to. -/
def pollingCode : Ir.Function where
  name := "polling"
  params := [⟨"again", .bool⟩, ⟨"done", .bool⟩]
  ret := .void
  blocks :=
    [⟨"entry", [], .jump "while_cond1"⟩,
      ⟨"while_cond1", [.loadVar 0 "again"], .branch 0 "while_body2" "while_done3"⟩,
      ⟨"while_body2", [.loadVar 1 "done"], .branch 1 "if_then4" "if_else6"⟩,
      ⟨"if_then4", [], .jump "while_done3"⟩,
      ⟨"if_else6", [], .jump "while_cond1"⟩,
      ⟨"if_end5", [], .retVoid⟩,
      ⟨"while_done3", [], .retVoid⟩]

theorem lowerFunction_polling : lowerFunction ⟨[]⟩ [] 1 none polling = .ok pollingCode := by
  cbv

/-- The builder where the body of the loop begins. -/
def pollingBody : Builder where
  finished := pollingCode.blocks.take 2
  label := "while_body2"
  nextTemp := 1
  nextLabel := 3
  scopes := [[], [("again", "again"), ("done", "done")]]
  used := ["again", "done"]
  jumps := [⟨"while_done3", some "while_cond1", 0⟩]

theorem gets_pollingBody : Gets (contextOf ⟨[]⟩ [] none polling) (newInstance 1) none polling
    (.row (leaveOrRepeat ++ [.ret .origin none])) pollingBody := by
  have hopen : Runs (contextOf ⟨[]⟩ [] none polling) (openWhileBody (newInstance 1) (.ident {} "again"))
      (startOf none polling) ("while_cond1", "while_done3")
      { pollingBody with scopes := pollingBody.scopes.tail, jumps := [] } := rfl
  exact .into (.head .start rfl) (.whileBody hopen)

/-- Control never comes to the return, whose block is behind both branches. -/
theorem apart_polling :
    lowerFunction ⟨[]⟩ [] 1 none polling = .ok pollingCode ∧
      Gets (contextOf ⟨[]⟩ [] none polling) (newInstance 1) none polling
        (.row (leaveOrRepeat ++ [.ret .origin none])) pollingBody ∧
      (Piece.row (leaveOrRepeat ++ [.ret .origin none])).BeginsWith leaveOrRepeat ∧
      pollingBody.ended = none ∧ endsInJump leaveOrRepeat ∧
      ∃ b', Runs (contextOf ⟨[]⟩ [] none polling) (lowerStmts (newInstance 1) leaveOrRepeat) pollingBody () b' ∧
        b'.ended = none ∧ b'.label = "if_end5" ∧ ¬ pollingCode.Connects "entry" b'.label := by
  have hbegins : (Piece.row (leaveOrRepeat ++ [.ret .origin none])).BeginsWith leaveOrRepeat :=
    List.prefix_append _ _
  have hjump : endsInJump leaveOrRepeat := by decide
  obtain ⟨b', hruns, hends⟩ :=
    closed_or_apart_of_endsInJump lowerFunction_polling gets_pollingBody hbegins rfl hjump
  have hopen : b'.ended = none ∧ b'.label = "if_end5" := by
    cases hruns
    exact ⟨rfl, rfl⟩
  exact ⟨lowerFunction_polling, gets_pollingBody, hbegins, rfl, hjump, b', hruns, hopen.1, hopen.2,
    hends.resolve_left fun hended => hended hopen.1⟩

end ProtoScript.Lowering
