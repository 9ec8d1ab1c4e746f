import Mathlib
import ProtoScript.Proofs.Ir.Validate
import ProtoScript.Proofs.Lowering.StmtMoves

set_option autoImplicit false

/-!
# Lowered functions are well formed

A lowered function comes from the start of a builder by acts (`acts_of_lowerFunction`), and no label is
pending at its end. So what acts keep holds of every lowered function, whatever its source: validation
accepts it (`validate_lowerFunction`), and no path through it reads a temporary that was not defined on the
path (`nextReads_subset_of_lowerFunction`).
-/

namespace ProtoScript.Lowering

open Ir

/-! ## The start -/

/-- The site at the start of a function: nothing is defined, and no `try` region is open. -/
def startSite (proto? : Option String) (f : FunctionDecl) : Site where
  builder := startOf proto? f
  promises := [("entry", ⟨[], 0⟩)]
  pending := []
  defined := []

section

variable (proto? : Option String) (f : FunctionDecl)

theorem labelled_startSite : (startSite proto? f).Labelled where
  nodup := List.nodup_singleton _
  numbers l hl := by
    have hentry : labelNumber "entry" = 0 := by decide
    rw [List.mem_singleton.1 hl]
    exact Nat.le_of_eq hentry
  made := List.Perm.refl _
  entry := rfl

theorem fresh_startSite :
    (startSite proto? f).Fresh ((functionParams proto? f).map Ir.Param.name) where
  dests := List.nodup_nil
  bounds := nofun
  names := List.nodup_nil
  used := nofun
  params _ hy := ⟨hy, nofun⟩

theorem honest_startSite : (startSite proto? f).Honest where
  start := List.mem_singleton_self _
  finished := nofun
  current := ⟨⟨[], 0⟩, List.mem_singleton_self _, trivial, fun _ => rfl, nofun⟩

end

/-! ## The end -/

/-- The end of a function, which control may reach outside of all `try` regions. -/
theorem builds_end {proto? : Option String} (f : FunctionDecl) {s : Site}
    (hs : (startSite proto? f).At ⟨[], [], none⟩ s) :
    Builds (endWith (if f.ret.isVoid then .retVoid else .unreachable)) s
      fun _ => (startSite proto? f).At ⟨[], [], none⟩ := by
  refine hs.endWith fun _ => ?_
  split
  · exact ⟨List.nil_subset _, nofun, fun _ => hs.reaches.depth⟩
  · exact Fact.allowsEnd_unreachable _ _

/-- The body of a function starts the blocks of all labels that are made for it. -/
theorem builds_lowerBody {newInstance : String → Lower Temp}
    (hnew : ∀ proto, Yields (newInstance proto) fun t => [t]) (proto? : Option String) (f : FunctionDecl) :
    Builds (lowerBody newInstance f) (startSite proto? f) fun _ s => s.pending = [] := by
  have htargeted : (startSite proto? f).Targeted := nofun
  refine ((follows_lowerStmts hnew f.body).settles.builds htargeted rfl).bind fun _ s hs => ?_
  exact (builds_end f hs).mono fun _ s' hs' => hs'.pending.eq_nil

section

variable {hierarchy : Hierarchy} {prototypes : List PrototypeDecl} {depth : Nat}
  {proto? : Option String} {f : FunctionDecl} {F : Ir.Function}

/-- A lowered function is what acts have written. -/
theorem acts_of_lowerFunction (h : lowerFunction hierarchy prototypes depth proto? f = .ok F) :
    ∃ s, Acts (startSite proto? f) s ∧ s.pending = [] ∧ F.blocks = s.builder.blocks ∧
      F.params = functionParams proto? f := by
  generalize hc : (⟨(proto?.map (Ir.methodName · f.name)).getD f.name, hierarchy, prototypes⟩ : Context) = c
  unfold lowerFunction at h
  dsimp only at h
  rw [hc] at h
  cases hrun : lowerBody (newInstance depth) f c (startOf proto? f) with
  | error e =>
      have hfail : ((lowerBody (newInstance depth) f).run c).run (startOf proto? f) = .error e := hrun
      rw [hfail] at h
      cases h
  | ok r =>
      have hok : ((lowerBody (newInstance depth) f).run c).run (startOf proto? f) = .ok r := hrun
      rw [hok] at h
      cases h
      obtain ⟨s, hs, hacts, hpending⟩ :=
        builds_lowerBody (yields_newInstance depth) proto? f c r.1 r.2 hrun
      refine ⟨s, hacts, hpending, ?_, rfl⟩
      rw [hs]

/-- The labels of a function that acts have written have the facts promised at them. -/
theorem annotated_of_acts {s : Site} (hacts : Acts (startSite proto? f) s)
    (hblocks : F.blocks = s.builder.blocks) :
    F.Annotated s.promises ∧ F.entry?.map Block.label = some "entry" := by
  have hlabelled := hacts.keeps Site.Labelled.act (labelled_startSite proto? f)
  have hhonest := hacts.keeps Site.Honest.act (honest_startSite proto? f)
  have hentry : F.entry?.map Block.label = some "entry" := by
    unfold Ir.Function.entry?
    rw [← List.head?_map, hblocks, ← hlabelled.entry]
    exact congrArg List.head? List.map_append
  refine ⟨⟨hlabelled.nodup, fun b hb => ?_, fun b hb => ?_⟩, hentry⟩
  · rw [hb] at hentry
    rw [Option.some.inj hentry]
    exact hhonest.start
  · rw [hblocks] at hb
    exact hhonest.fits b hb

/-- All labels of a lowered function have the facts promised at them. -/
theorem annotated_of_lowerFunction (h : lowerFunction hierarchy prototypes depth proto? f = .ok F) :
    ∃ facts, F.Annotated facts ∧ (facts.map Prod.fst).Perm F.labels ∧
      F.entry?.map Block.label = some "entry" := by
  obtain ⟨s, hacts, hpending, hblocks, _⟩ := acts_of_lowerFunction h
  obtain ⟨hannotated, hentry⟩ := annotated_of_acts hacts hblocks
  have hmade := (hacts.keeps Site.Labelled.act (labelled_startSite proto? f)).made
  have hlabels : F.labels = s.builder.labels := by
    unfold Ir.Function.labels
    rw [hblocks]
    exact List.map_append
  rw [hpending, List.append_nil] at hmade
  exact ⟨s.promises, hannotated, hlabels ▸ hmade, hentry⟩

theorem instrs_eq_of_blocks {s : Site} (hblocks : F.blocks = s.builder.blocks) : F.instrs = s.instrs := by
  unfold Ir.Function.instrs
  rw [hblocks]
  simp [Builder.blocks, Site.instrs]

/-- Every temporary of a lowered function is defined once, every variable is declared once, and no variable
has the name of a parameter. -/
theorem fresh_of_lowerFunction (h : lowerFunction hierarchy prototypes depth proto? f = .ok F) :
    F.dests.Nodup ∧ (F.instrs.filterMap Instr.declared?).Nodup ∧
      ∀ p ∈ F.params, p.name ∉ F.instrs.filterMap Instr.declared? := by
  obtain ⟨s, hacts, _, hblocks, hparams⟩ := acts_of_lowerFunction h
  have hfresh := hacts.keeps Site.Fresh.act (fresh_startSite proto? f)
  unfold Ir.Function.dests
  rw [instrs_eq_of_blocks hblocks, hparams]
  exact ⟨hfresh.dests, hfresh.names, fun p hp => (hfresh.params _ (List.mem_map_of_mem hp)).2⟩

/-- A lowered function has a block, its labels are distinct and include every target, and no temporary is
defined twice. -/
theorem wellFormed_of_lowerFunction (h : lowerFunction hierarchy prototypes depth proto? f = .ok F) :
    F.WellFormed := by
  obtain ⟨facts, hannotated, hlabels, hentry⟩ := annotated_of_lowerFunction h
  refine ⟨fun hnil => ?_, hlabels.nodup_iff.1 hannotated.nodup, fun b hb l hl => ?_,
    (fresh_of_lowerFunction h).1⟩
  · unfold Ir.Function.entry? at hentry
    rw [hnil] at hentry
    cases hentry
  · exact hlabels.mem_iff.1 ((hannotated.blocks b hb).target hl)

/-! ## Lowered functions -/

/-- The first item of a list; if an exception is caught meanwhile the loop is left. The variable of the
clause has the name of that of the loop. -/
def firstItem : FunctionDecl where
  name := "firstItem"
  params := [⟨"items", .list .int, .origin⟩]
  ret := .int
  body :=
    [.forEach .origin .values none "x" (.ident { type? := some (.list .int) } "items")
      [.try .origin [.ret .origin (some (.ident {} "x"))] [.mk .origin "Error" "x" [.break .origin]]],
    .ret .origin (some (.literal {} (.int 0)))]

/-- What `firstItem` is lowered to. -/
def firstItemCode : Ir.Function where
  name := "firstItem"
  params := [⟨"items", .list .int⟩]
  ret := .int
  blocks :=
    [⟨"entry", [.loadVar 0 "items", .iterBegin 1 0 .values .int], .jump "each_head1"⟩,
      ⟨"each_head1", [], .branchIter 1 "each_body2" "each_done3"⟩,
      ⟨"each_body2", [.iterNext 2 1, .varDecl "x" .int, .storeVar "x" 2, .setupTry "try_handler4",
        .loadVar 3 "x", .endTry], .ret 3⟩,
      ⟨"try_handler4", [.catchValue 4, .instanceOf 5 4 "Error"], .branch 5 "catch_body6" "catch_next7"⟩,
      ⟨"catch_body6", [.varDecl "x_1" (.named "Error"), .storeVar "x_1" 4], .jump "each_done3"⟩,
      ⟨"catch_next7", [.throw 4], .unreachable⟩,
      ⟨"try_done5", [], .jump "each_head1"⟩,
      ⟨"each_done3", [.const 6 (.int 0)], .ret 6⟩]

theorem lowerFunction_firstItem : lowerFunction ⟨[]⟩ [] 1 none firstItem = .ok firstItemCode := by
  cbv

/-- Validation accepts every lowered function: it has a block, its labels are distinct and include every
target, and no temporary is defined twice. It starts with the block `entry`, and the variables it declares
have names that are distinct and are no names of parameters. -/
theorem validate_lowerFunction (h : lowerFunction hierarchy prototypes depth proto? f = .ok F) :
    F.validate = .ok () ∧ F.WellFormed ∧ F.entry?.map Block.label = some "entry" ∧
      (F.instrs.filterMap Instr.declared?).Nodup ∧
      ∀ p ∈ F.params, p.name ∉ F.instrs.filterMap Instr.declared? := by
  obtain ⟨_, _, _, hentry⟩ := annotated_of_lowerFunction h
  obtain ⟨_, hnames, hparams⟩ := fresh_of_lowerFunction h
  have hwf := wellFormed_of_lowerFunction h
  exact ⟨(Ir.Function.validate_eq_ok_iff F).2 hwf, hwf, hentry, hnames, hparams⟩

theorem validate_lowerFunction_firstItem :
    lowerFunction ⟨[]⟩ [] 1 none firstItem = .ok firstItemCode ∧ firstItemCode.validate = .ok () ∧
      firstItemCode.WellFormed ∧ firstItemCode.entry?.map Block.label = some "entry" ∧
      (firstItemCode.instrs.filterMap Instr.declared?).Nodup ∧
      ∀ p ∈ firstItemCode.params, p.name ∉ firstItemCode.instrs.filterMap Instr.declared? :=
  ⟨lowerFunction_firstItem, validate_lowerFunction lowerFunction_firstItem⟩

/-- On no path through a lowered function, along the ends of blocks and from the start of a `try` region to
its handler, is a temporary read that was not defined before on the path. -/
theorem nextReads_subset_of_lowerFunction
    (h : lowerFunction hierarchy prototypes depth proto? f = .ok F) {defined : List Temp}
    {rest : List Instr} {t : Terminator} (hpath : F.Arrives defined rest t) :
    nextReads t rest ⊆ defined := by
  obtain ⟨facts, hannotated, _⟩ := annotated_of_lowerFunction h
  exact hannotated.nextReads_subset hpath

/-- An exception comes to the handler in the middle of a block. Where no clause catches it, it is thrown
again, and the temporary that holds it was defined on the way. -/
theorem nextReads_subset_firstItem :
    firstItemCode.Arrives [5, 4, 2, 1, 0] [.throw 4] .unreachable ∧
      nextReads .unreachable [.throw 4] ⊆ [5, 4, 2, 1, 0] := by
  have hentry := Function.Arrives.entry (f := firstItemCode) rfl
  have hhead := hentry.step.step.leave (l := "each_head1") List.mem_cons_self rfl
  have hbody := hhead.leave (l := "each_body2") List.mem_cons_self rfl
  have hhandler := hbody.step.step.step.handler rfl rfl
  have hthrow : firstItemCode.Arrives [5, 4, 2, 1, 0] [.throw 4] .unreachable :=
    hhandler.step.step.leave (l := "catch_next7") (List.mem_cons_of_mem _ List.mem_cons_self) rfl
  exact ⟨hthrow, nextReads_subset_of_lowerFunction lowerFunction_firstItem hthrow⟩

end

end ProtoScript.Lowering
