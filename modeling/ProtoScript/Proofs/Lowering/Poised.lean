import ProtoScript.Proofs.Lowering.Lenient
import ProtoScript.Proofs.Lowering.WellFormed

set_option autoImplicit false

/-!
# Pieces of a function and what follows them

Wherever lowering comes to a piece of a function, acts have led there, and from wherever the piece ends
acts lead on to the end of the function. What they need at the end of the piece is a stage and the builder,
and not that the piece was written in one way or another (`Poised`). So each rule for a step of lowering is
used twice, for what has been written in front of a piece and for what is written behind it, and lowering is
poised before every piece it comes to (`sits_of_gets`).
-/

namespace ProtoScript.Lowering

open Ir

variable {α β : Type}

theorem Runs.rest {c : Context} {m : Lower α} {f : α → Lower β} {b b₁ b' : Builder} {a : α} {d : β}
    (h : Runs c (m >>= f) b d b') (hm : Runs c m b a b₁) : Runs c (f a) b₁ d b' := by
  obtain ⟨a', b₁', hm', hf⟩ := h.of_bind
  cases hm.symm.trans hm'
  exact hf

/-! ## Before a step -/

/-- Acts from the site `first` lead to where the step begins, at the stage `p`, and from wherever the step
ends, if that is at the stage `q`, to the builder `last`. -/
def Poised (c : Context) (first : Site) (last : Builder) (base : List Temp) (p : Stage) (m : Lower α)
    (q : α → Stage) (b : Builder) : Prop :=
  ∃ (s₀ s : Site) (a : α) (b' : Builder), Acts first s ∧ s₀.Targeted ∧ base ⊆ s₀.defined ∧ s₀.At p s ∧
    s.builder = b ∧ Runs c m b a b' ∧
    ∀ s', s₀.At (q a) s' → s'.builder = b' → ∃ s'', Acts s' s'' ∧ s''.builder = last

namespace Poised

variable {c : Context} {first : Site} {last : Builder} {base known : List Temp}
  {targets todo : List String} {k : Option (List Temp)} {p : Stage} {b b₁ : Builder}

/-- The first part of a step is behind. -/
theorem after {m : Lower α} {f : α → Lower β} {p' : α → Stage} {q : β → Stage} {a : α}
    (h : Poised c first last base p (m >>= f) q b) (hm : Moves base p m p') (hrun : Runs c m b a b₁) :
    Poised c first last base (p' a) (f a) q b₁ := by
  obtain ⟨s₀, s, d, b', hacts, htargeted, hbase, hs, rfl, hruns, hrest⟩ := h
  obtain ⟨s₁, rfl, hacts₁, hs₁⟩ := hm s₀ s htargeted hbase hs c a b₁ hrun
  exact ⟨s₀, s₁, d, b', hacts.trans hacts₁, htargeted, hbase, hs₁, rfl, hruns.rest hrun, hrest⟩

/-- The last part of a step is to come. -/
theorem before {m : Lower α} {f : α → Lower β} {q : β → Stage} {r : α → Stage}
    (h : Poised c first last base p (m >>= f) q b) (hf : ∀ a, Moves base (r a) (f a) q) :
    Poised c first last base p m r b := by
  obtain ⟨s₀, s, d, b', hacts, htargeted, hbase, hs, rfl, hruns, hrest⟩ := h
  obtain ⟨a, b₁, hm, hfa⟩ := hruns.of_bind
  refine ⟨s₀, s, a, b₁, hacts, htargeted, hbase, hs, rfl, hm, fun s₁ hs₁ hb₁ => ?_⟩
  obtain ⟨s', hb', hacts', hs'⟩ := hf a s₀ s₁ htargeted hbase hs₁ c d b' (hb₁ ▸ hfa)
  obtain ⟨s'', hacts'', hlast⟩ := hrest s' hs' hb'
  exact ⟨s'', hacts'.trans hacts'', hlast⟩

/-- A step that starts the blocks of all labels it makes can be looked at on its own. -/
theorem nest {m : Lower α} {targets' : List String} {k' : α → Option (List Temp)}
    (h : Poised c first last base ⟨targets, todo, some known⟩ m (fun a => ⟨targets, todo, k' a⟩) b)
    (htargets : targets' ⊆ targets) :
    Poised c first last known ⟨targets', [], some known⟩ m (fun a => ⟨targets', [], k' a⟩) b := by
  obtain ⟨s₀, s, a, b', hacts, htargeted, _, hs, rfl, hruns, hrest⟩ := h
  have hself : s.At ⟨targets', [], some known⟩ s :=
    { Site.At.refl hs.isOpen hs.subset with targets := fun l hl => hs.meets (htargets hl) }
  exact ⟨s, s, a, b', hacts, hs.reaches.targeted htargeted, hs.subset, hself, rfl, hruns,
    fun s' hs' => hrest s' (hs.trans hs')⟩

/-- Statements can be looked at on their own, in a block that is open or not. -/
theorem alone {m : Lower Unit}
    (h : Poised c first last base ⟨targets, todo, k⟩ m (fun _ => ⟨targets, todo, none⟩) b) :
    Poised c first last [] ⟨[], [], none⟩ m (fun _ => ⟨[], [], none⟩) b := by
  obtain ⟨s₀, s, a, b', hacts, htargeted, _, hs, rfl, hruns, hrest⟩ := h
  exact ⟨s, s, a, b', hacts, hs.reaches.targeted htargeted, List.nil_subset _, .self s, rfl, hruns,
    fun s' hs' => hrest s' (hs.trans hs')⟩

theorem congr {m m' : Lower α} {q : α → Stage} (h : Poised c first last base p m q b) (hsame : m' c b = m c b) :
    Poised c first last base p m' q b := by
  obtain ⟨s₀, s, a, b', hacts, htargeted, hbase, hs, hb, hruns, hrest⟩ := h
  exact ⟨s₀, s, a, b', hacts, htargeted, hbase, hs, hb, hsame.trans hruns, hrest⟩

/-- In an open block the statement is written. -/
theorem opened {m : Lower Unit}
    (h : Poised c first last base ⟨targets, todo, k⟩ (do if ← isOpen then m) (fun _ => ⟨targets, todo, none⟩) b)
    (hopen : b.ended = none) :
    Poised c first last [] ⟨[], [], some []⟩ m (fun _ => ⟨[], [], none⟩) b := by
  obtain ⟨s₀, s, a, b', hacts, htargeted, _, hs, rfl, hruns, hrest⟩ := h
  have hwritten := hruns.rest runs_isOpen
  rw [hopen] at hwritten
  exact ⟨s, s, a, b', hacts, hs.reaches.targeted htargeted, List.nil_subset _,
    .refl hopen (List.nil_subset _), rfl, hwritten, fun s' hs' => hrest s' (hs.trans hs')⟩

theorem scope {m : Lower Unit} {q : Unit → Stage} (h : Poised c first last base p (inScope m) q b) :
    Poised c first last base p m q b.enter :=
  Poised.before (h.after (moves_rescope fun scopes => [] :: scopes) (runs_modify _)) fun _ =>
    (moves_rescope List.tail).bind fun _ => moves_pure rfl

/-- Statements are written between two steps. -/
theorem between {m enter leave : Lower Unit} {rest : Lower β} {q : Stage} {r : β → Stage}
    (h : Poised c first last base p (do enter; m; leave; rest) r b) (hdetours : Detours p enter leave q)
    (hrest : Moves base q rest r) (hrun : Runs c enter b () b₁) :
    Poised c first last [] ⟨[], [], none⟩ m (fun _ => ⟨[], [], none⟩) b₁ := by
  obtain ⟨s₀, s, d, b', hacts, htargeted, hbase, hs, rfl, hruns, hend⟩ := h
  obtain ⟨s₁, rfl, hacts₁, hinside, _, hleave⟩ := hdetours s₀ s htargeted hs c () _ hrun
  obtain ⟨_, b₂, hm, hruns⟩ := (hruns.rest hrun).of_bind
  obtain ⟨_, b₃, hleaves, hruns⟩ := hruns.of_bind
  refine ⟨s₁, s₁, (), b₂, hacts.trans hacts₁, hinside, List.nil_subset _, .self s₁, rfl, hm, ?_⟩
  rintro s₂ hs₂ rfl
  obtain ⟨s₃, rfl, hacts₃, hs₃⟩ := hleave s₂ hs₂ c () b₃ hleaves
  obtain ⟨s₄, hb', hacts₄, hs₄⟩ := hrest s₀ s₃ htargeted hbase hs₃ c d b' hruns
  obtain ⟨s₅, hacts₅, hlast⟩ := hend s₄ hs₄ hb'
  exact ⟨s₅, hacts₃.trans (hacts₄.trans hacts₅), hlast⟩

theorem loop {m : Lower Unit} {breakLabel : String} {continueLabel : Option String}
    (h : Poised c first last base ⟨targets, todo, some known⟩ (withJumps breakLabel continueLabel (inScope m))
      (fun _ => ⟨targets, todo, none⟩) b)
    (hbreak : breakLabel ∈ targets) (hcontinue : ∀ l ∈ continueLabel, l ∈ targets) :
    Poised c first last [] ⟨[], [], none⟩ m (fun _ => ⟨[], [], none⟩)
      (b.looping breakLabel continueLabel).enter := by
  rw [withJumps_eq] at h
  exact (h.between (detours_loop hbreak hcontinue) (moves_pure rfl) (runs_modify _)).scope

end Poised

/-! ## Before a piece -/

section

variable {c : Context} {ni : String → Lower Temp} {first : Site} {last : Builder}

/-- Lowering is poised before the piece. The labels of arms are to come, and the exception is defined in front
of each catch clause. -/
def Piece.Sits (c : Context) (ni : String → Lower Temp) (first : Site) (last : Builder) :
    Piece → Builder → Prop
  | .row body, b =>
      Poised c first last [] ⟨[], [], none⟩ (lowerStmts ni body) (fun _ => ⟨[], [], none⟩) b
  | .stmt s, b =>
      Poised c first last [] ⟨[], [], some []⟩ (lowerStmt ni s) (fun _ => ⟨[], [], none⟩) b
  | .arms done labels rest, b => labels.length = rest.length ∧ ∃ base targets todo,
      labels ⊆ targets ∧ done ∈ targets ∧
        Poised c first last base ⟨targets, labels ++ todo, none⟩ (lowerArms ni done labels rest)
          (fun _ => ⟨targets, todo, none⟩) b
  | .clauses exception done rest, b => ∃ base targets, exception ∈ base ∧ done ∈ targets ∧
      Poised c first last base ⟨targets, [], some base⟩ (lowerClauses ni exception done rest)
        (fun _ => ⟨targets, [], some base⟩) b

variable (hnew : ∀ proto, Yields (ni proto) fun t => [t])

include hnew

/-- Lowering that is poised before a piece comes to its parts so that it is poised before them. There is one
case for each way into a piece: what is in front of the part is behind, what follows it is to come. -/
theorem Into.sits {piece piece' : Piece} {b b' : Builder} (hinto : Into c ni piece b piece' b')
    (h : piece.Sits c ni first last b) : piece'.Sits c ni first last b' := by
  cases hinto with
  | thenBody hrun =>
      rw [Piece.Sits, lowerStmt_ifThen_eq] at h
      exact ((h.after (moves_openIf hnew _) hrun).before fun _ => moves_close (by simp)).scope.alone
  | @firstBranch _ e x y _ _ labels hrun =>
      rw [Piece.Sits, lowerStmt_ifElse_eq] at h
      simp only [openElse, bind_assoc, pure_bind] at h
      refine ((h.after (moves_openIfElse hnew e) hrun).before fun _ => ?_).scope.alone
      refine (moves_jump (by simp)).bind fun _ => moves_startBlock.bind fun _ => ?_
      exact (follows_lowerStmts hnew y).settles.inScope.moves.bind fun _ => moves_close (by simp)
  | @secondBranch _ e x y _ _ _ hrun =>
      rw [Piece.Sits, lowerStmt_ifElse_eq] at h
      have hbranch := h.after (moves_openElse hnew e (follows_lowerStmts hnew x).settles) hrun
      exact (hbranch.before fun _ => moves_close (by simp)).scope.alone
  | @whileBody _ e body _ _ r hrun =>
      obtain ⟨condLabel, done⟩ := r
      rw [Piece.Sits, lowerStmt_while_eq] at h
      have hbody := h.after (moves_openWhileBody hnew e) hrun
      exact ((hbody.before fun _ => moves_close (by simp)).loop (by simp) (by simp)).alone
  | @doBody _ e body _ _ r hrun =>
      obtain ⟨condLabel, bodyLabel, done⟩ := r
      rw [Piece.Sits, lowerStmt_doWhile_eq] at h
      simp only [openDoTest, bind_assoc, pure_bind] at h
      exact (((h.after moves_openDo hrun).before fun _ => moves_closeDo hnew e).loop (by simp) (by simp)).alone
  | @forInit _ init e update body _ hopen =>
      rw [Piece.Sits, lowerStmt_for_eq] at h
      have hinit := h.scope.before (r := fun _ => ⟨[], [], none⟩) fun _ =>
        (moves_openForStep hnew e (follows_lowerStmts hnew body).settles).bind fun _ =>
          (follows_lowerStmt? hnew update).moves.anywhere.bind fun _ => moves_close (by simp)
      rw [lowerStmt?] at hinit
      exact hinit.opened hopen
  | @forBody _ init e update body _ _ _ labels hinit hrun =>
      rw [Piece.Sits, lowerStmt_for_eq] at h
      have hloop := h.scope.after (follows_lowerStmt? hnew init).moves.anywhere hinit
      simp only [openForStep, bind_assoc, pure_bind] at hloop
      have hbody := (hloop.after (moves_openForBody hnew e) hrun).before
        (r := fun _ =>
          ⟨[labels.condLabel, labels.stepLabel, labels.done], [labels.stepLabel, labels.done], none⟩)
        fun _ => (moves_jump (by simp)).bind fun _ => moves_startBlock.bind fun _ =>
          (follows_lowerStmt? hnew update).moves.anywhere.bind fun _ => moves_close (by simp)
      exact (hbody.loop (by simp) (by simp)).alone
  | @forStep _ init e update body _ _ _ labels hinit hrun hopen =>
      rw [Piece.Sits, lowerStmt_for_eq] at h
      have hloop := h.scope.after (follows_lowerStmt? hnew init).moves.anywhere hinit
      have hstep := hloop.after (moves_openForStep hnew e (follows_lowerStmts hnew body).settles) hrun
      rw [lowerStmt?] at hstep
      exact (hstep.before fun _ => moves_close (by simp)).opened hopen
  | @eachBody _ kind ty x v e body _ _ _ r hrun hvar =>
      rw [Piece.Sits, lowerStmt_forEach_eq, openForEach_eq] at h
      rw [openForEach_eq] at hrun
      obtain ⟨⟨iter, elem⟩, _, hiter, hrun⟩ := hrun.of_bind
      obtain ⟨⟨head, done⟩, _, heach, hrun⟩ := hrun.of_bind
      cases hrun
      simp only [bind_assoc, pure_bind] at h
      have hloop := (h.after (moves_openIterator hnew kind ty e) hiter).nest (List.nil_subset _)
      have hscope := (hloop.after (moves_openEach List.mem_cons_self) heach).before
        (r := fun _ => ⟨[head, done], [done], none⟩) fun _ => moves_close (by simp)
      have hbody := hscope.scope.after (moves_lowerVisited List.mem_cons_self) hvar
      exact (hbody.loop (by simp) (by simp)).alone
  | @switchArms _ e arms _ _ done labels hrun =>
      rw [Piece.Sits, lowerStmt_switch_eq, openArms_eq] at h
      rw [openArms_eq] at hrun
      obtain ⟨value, _, hvalue, htests⟩ := hrun.of_bind
      simp only [bind_assoc] at h
      have hswitch := (h.after (yields_lowerExpr hnew e).moves hvalue).nest (List.nil_subset _)
      have harms := hswitch.after (moves_openTests hnew List.mem_cons_self arms) htests
      have hpiece := harms.before (r := fun _ => ⟨labels ++ [done], [done], none⟩)
        fun _ => moves_startBlock.forget (List.nil_subset _)
      exact ⟨length_of_runs_openTests htests, _, labels ++ [done], [done], List.subset_append_left _ _,
        by simp, hpiece⟩
  | @armBody _ _ body falls rest done label labels _ _ hrun =>
      obtain ⟨hlength, base, targets, todo, hlabels, hdone, h⟩ := h
      obtain ⟨_, hlabels⟩ := List.cons_subset.1 hlabels
      rw [lowerArms_cons] at h
      have harm := h.before fun _ => moves_lowerArms hnew rest (Nat.succ.inj hlength) hlabels hdone
      have hbody := (harm.after moves_startBlock hrun).before (r := fun _ => ⟨targets, labels ++ todo, none⟩)
        fun _ => moves_jump ?_
      · exact (hbody.loop hdone (by simp)).alone
      · split
        · exact head?_getD_mem hlabels hdone
        · exact hdone
  | @nextArm _ _ body falls rest done label labels _ _ hrun =>
      obtain ⟨hlength, base, targets, todo, hlabels, hdone, h⟩ := h
      obtain ⟨_, hlabels⟩ := List.cons_subset.1 hlabels
      rw [lowerArms_cons] at h
      have harm := h.after (moves_lowerArm (follows_lowerStmts hnew body).settles hlabels hdone) hrun
      exact ⟨Nat.succ.inj hlength, base, targets, todo, hlabels, hdone, harm⟩
  | @tryBody _ body clauses _ _ labels hrun =>
      rw [Piece.Sits, lowerStmt_try_eq] at h
      have hopen := h.before (r := fun begun => ⟨[begun.2], [begun.2], some [begun.1]⟩)
        fun _ => Moves.bind (Moves.nest
          (moves_lowerClauses hnew clauses List.mem_cons_self List.mem_cons_self) (List.Subset.refl _))
          fun _ => moves_closeTry List.mem_cons_self
      rw [openClauses_eq, openTry_eq] at hopen
      simp only [bind_assoc, pure_bind] at hopen
      rw [openTry_eq] at hrun
      obtain ⟨handler, _, hhandler, hrun⟩ := hrun.of_bind
      obtain ⟨done, _, hdone, hrun⟩ := hrun.of_bind
      obtain ⟨_, _, henter, hrun⟩ := hrun.of_bind
      cases hrun
      have hregion := (hopen.after (moves_freshLabel rfl) hhandler).after (moves_freshLabel rfl) hdone
      exact (hregion.between (detours_try (by simp)) moves_catch henter).scope.alone
  | @tryClauses _ body clauses _ _ exception done hrun =>
      rw [Piece.Sits, lowerStmt_try_eq] at h
      have hclauses := h.after (moves_openClauses (follows_lowerStmts hnew body).settles) hrun
      have hcatch := hclauses.before (r := fun _ => ⟨[done], [done], some [exception]⟩)
        fun _ => moves_closeTry List.mem_cons_self
      exact ⟨[exception], [done], List.mem_cons_self, List.mem_cons_self, hcatch.nest (List.Subset.refl _)⟩
  | @clauseBody _ proto x v next body rest exception done _ _ _ hrun hvar =>
      obtain ⟨base, targets, hexception, hdone, h⟩ := h
      rw [lowerClauses_cons] at h
      have hclause := h.before fun _ => moves_lowerClauses hnew rest hexception hdone
      have hscope := (hclause.after (moves_openClause hexception) hrun).before fun _ => moves_closeClause hdone
      exact (hscope.scope.after (moves_lowerCaught hexception) hvar).alone
  | @nextClause _ proto x body rest exception done _ _ hrun =>
      obtain ⟨base, targets, hexception, hdone, h⟩ := h
      rw [lowerClauses_cons] at h
      have hnext := h.after (moves_lowerClause (follows_lowerStmts hnew body).settles hexception hdone) hrun
      exact ⟨base, targets, hexception, hdone, hnext⟩
  | blockBody =>
      rw [Piece.Sits, lowerStmt] at h
      exact h.scope.alone

omit hnew in
/-- Lowering is poised before the body of the function; behind it only the end of the function is to come. -/
theorem sits_start {proto? : Option String} {f : FunctionDecl}
    (hrun : Runs c (lowerBody ni f) (startOf proto? f) () last) :
    (Piece.row f.body).Sits c ni (startSite proto? f) last (startOf proto? f) := by
  obtain ⟨_, b, hbody, hend⟩ := hrun.of_bind
  refine ⟨startSite proto? f, startSite proto? f, (), b, .refl, nofun, List.nil_subset _, .self _, rfl, hbody,
    ?_⟩
  rintro s hs rfl
  have hbuilds := builds_end f hs
  obtain ⟨s', hlast, hacts, _⟩ := hbuilds c () last hend
  exact ⟨s', hacts, hlast⟩

/-- Lowering is poised before every piece it comes to. The induction is on how it has come there. -/
theorem sits_of_gets {proto? : Option String} {f : FunctionDecl} {piece : Piece} {b : Builder}
    (hrun : Runs c (lowerBody ni f) (startOf proto? f) () last) (h : Gets c ni proto? f piece b) :
    piece.Sits c ni (startSite proto? f) last b := by
  induction h with
  | start => exact sits_start hrun
  | @head s rest b _ hopen ih =>
      rw [Piece.Sits, lowerStmts] at ih
      exact (ih.opened hopen).before fun _ => (follows_lowerStmts hnew rest).moves
  | @tail s rest b b' _ hopen hs ih =>
      rw [Piece.Sits, lowerStmts] at ih
      exact ((ih.opened hopen).after (settles_lowerStmt hnew s).moves hs).alone
  | into _ hinto ih => exact hinto.sits hnew ih

end

end ProtoScript.Lowering
