import Mathlib.Logic.Relation
import ProtoScript.Proofs.Ir.Validate

set_option autoImplicit false

/-!
# What holds wherever control comes from

A point of a function can be reached along several paths. A fact about a point says which temporaries
have been defined and how many `try` regions are open whenever control is there. If every label has a fact
and every edge meets the fact of the label it leads to (`Function.Annotated`), the facts hold on all
paths from the start of the function (`Annotated.arrives`); in particular no path reads a temporary
before it has defined it.

An edge leads from the end of a block to the targets of its terminator, and from an instruction that
installs an exception handler to the handler.
-/

namespace ProtoScript.Ir

/-! ## Facts -/

/-- The number of open `try` regions behind an instruction. -/
def Instr.depthAfter (depth : Nat) : Instr → Nat
  | setupTry _ => depth + 1
  | endTry => depth - 1
  | _ => depth

/-- What holds at a point: the temporaries that are defined and the number of open `try` regions. -/
structure Fact where
  defined : List Temp
  depth : Nat

/-- The facts at labels. -/
abbrev Facts := List (String × Fact)

namespace Fact

/-- Behind an instruction its temporary is defined. -/
def after (x : Fact) (i : Instr) : Fact := ⟨i.dest?.toList ++ x.defined, i.depthAfter x.depth⟩

/-- Behind several instructions. -/
def afterAll (x : Fact) (is : List Instr) : Fact := is.foldl after x

/-- Control may go on to the label. -/
def Meets (x : Fact) (facts : Facts) (label : String) : Prop :=
  ∃ y, (label, y) ∈ facts ∧ y.defined ⊆ x.defined ∧ y.depth = x.depth

/-- The instruction may stand at a point. -/
structure Allows (x : Fact) (facts : Facts) (i : Instr) : Prop where
  reads : i.operands ⊆ x.defined
  handler : ∀ h, i.handler? = some h → x.Meets facts h
  closes : i = .endTry → 0 < x.depth

/-- The terminator may stand at a point. -/
structure AllowsEnd (x : Fact) (facts : Facts) (t : Terminator) : Prop where
  reads : t.operands ⊆ x.defined
  targets : ∀ l ∈ t.successors, x.Meets facts l
  returns : t.isReturn → x.depth = 0

/-- The instructions may stand one behind the other. -/
def AllowsAll (facts : Facts) : Fact → List Instr → Prop
  | _, [] => True
  | x, i :: rest => x.Allows facts i ∧ AllowsAll facts (x.after i) rest

variable {x x' : Fact} {facts facts' : Facts}

theorem Meets.mono {l : String} (h : x.Meets facts l) (hfacts : facts ⊆ facts')
    (hdefined : x.defined ⊆ x'.defined) (hdepth : x'.depth = x.depth) : x'.Meets facts' l := by
  obtain ⟨y, hy, hsub, heq⟩ := h
  exact ⟨y, hfacts hy, List.Subset.trans hsub hdefined, heq.trans hdepth.symm⟩

theorem Meets.of_subset {l : String} (h : x.Meets facts l) (hfacts : facts ⊆ facts') :
    x.Meets facts' l := h.mono hfacts (List.Subset.refl _) rfl

theorem Allows.of_subset {i : Instr} (h : x.Allows facts i) (hfacts : facts ⊆ facts') :
    x.Allows facts' i :=
  ⟨h.reads, fun l hl => (h.handler l hl).of_subset hfacts, h.closes⟩

theorem AllowsEnd.of_subset {t : Terminator} (h : x.AllowsEnd facts t) (hfacts : facts ⊆ facts') :
    x.AllowsEnd facts' t :=
  ⟨h.reads, fun l hl => (h.targets l hl).of_subset hfacts, h.returns⟩

theorem AllowsAll.of_subset {is : List Instr} (h : AllowsAll facts x is) (hfacts : facts ⊆ facts') :
    AllowsAll facts' x is := by
  induction is generalizing x with
  | nil => exact trivial
  | cons i rest ih => exact ⟨h.1.of_subset hfacts, ih h.2⟩

/-- Instructions are written at the end of a block. -/
theorem AllowsAll.concat {is : List Instr} {i : Instr} (h : AllowsAll facts x is)
    (hi : (x.afterAll is).Allows facts i) : AllowsAll facts x (is ++ [i]) := by
  induction is generalizing x with
  | nil => exact ⟨hi, trivial⟩
  | cons j rest ih => exact ⟨h.1, ih h.2 hi⟩

theorem afterAll_concat (x : Fact) (is : List Instr) (i : Instr) :
    x.afterAll (is ++ [i]) = (x.afterAll is).after i := by
  simp [afterAll]

/-- A block that is never left may end anywhere. -/
theorem allowsEnd_unreachable (x : Fact) (facts : Facts) : x.AllowsEnd facts .unreachable :=
  ⟨List.nil_subset _, by simp [Terminator.successors], nofun⟩

/-- What the handlers among the instructions promise. -/
theorem AllowsAll.handler {is : List Instr} (h : AllowsAll facts x is) {l : String}
    (hl : l ∈ is.filterMap Instr.handler?) : ∃ y, (l, y) ∈ facts := by
  induction is generalizing x with
  | nil => cases hl
  | cons i rest ih =>
      obtain ⟨j, hj, hhandler⟩ := List.mem_filterMap.1 hl
      rcases List.mem_cons.1 hj with rfl | hj
      · obtain ⟨y, hy, _⟩ := h.1.handler l hhandler
        exact ⟨y, hy⟩
      · exact ih h.2 (List.mem_filterMap.2 ⟨j, hj, hhandler⟩)

end Fact

/-- From the fact at its label on, the whole block is allowed. -/
def Block.Fits (facts : Facts) (b : Block) : Prop :=
  ∃ x, (b.label, x) ∈ facts ∧ Fact.AllowsAll facts x b.instrs ∧
    (x.afterAll b.instrs).AllowsEnd facts b.terminator

theorem Block.Fits.of_subset {facts facts' : Facts} {b : Block} (h : b.Fits facts)
    (hfacts : facts ⊆ facts') : b.Fits facts' := by
  obtain ⟨x, hx, hall, hend⟩ := h
  exact ⟨x, hfacts hx, hall.of_subset hfacts, hend.of_subset hfacts⟩

/-- Control goes from a block only to labels that have a fact. -/
theorem Block.Fits.target {facts : Facts} {b : Block} (h : b.Fits facts) {l : String}
    (hl : l ∈ b.targets) : l ∈ facts.map Prod.fst := by
  obtain ⟨x, _, hall, hend⟩ := h
  have hfact : ∃ y, (l, y) ∈ facts := by
    rcases List.mem_append.1 hl with hl | hl
    · obtain ⟨y, hy, _⟩ := hend.targets l hl
      exact ⟨y, hy⟩
    · exact hall.handler hl
  obtain ⟨y, hy⟩ := hfact
  exact List.mem_map_of_mem hy

/-! ## Paths -/

/-- The temporaries that are read next, by an instruction or at the end of the block. -/
def nextReads (t : Terminator) : List Instr → List Temp
  | [] => t.operands
  | i :: _ => i.operands

namespace Function

/-- Some path from the start of the function comes to the point in front of the instructions `rest` and
the terminator `t`, and `defined` are the temporaries that were defined on it. -/
inductive Arrives (f : Function) : List Temp → List Instr → Terminator → Prop where
  | entry {b : Block} : f.entry? = some b → f.Arrives [] b.instrs b.terminator
  | step {defined : List Temp} {i : Instr} {rest : List Instr} {t : Terminator} :
      f.Arrives defined (i :: rest) t → f.Arrives (i.dest?.toList ++ defined) rest t
  | handler {defined : List Temp} {i : Instr} {rest : List Instr} {t : Terminator} {h : String}
      {b : Block} : f.Arrives defined (i :: rest) t → i.handler? = some h → f.block? h = some b →
        f.Arrives defined b.instrs b.terminator
  | leave {defined : List Temp} {t : Terminator} {l : String} {b : Block} :
      f.Arrives defined [] t → l ∈ t.successors → f.block? l = some b →
        f.Arrives defined b.instrs b.terminator

/-- The facts belong to the function: there is one at each label, nothing is assumed at the start, and
every block meets the facts of its targets. -/
structure Annotated (facts : Facts) (f : Function) : Prop where
  nodup : (facts.map Prod.fst).Nodup
  entry : ∀ b, f.entry? = some b → (b.label, ⟨[], 0⟩) ∈ facts
  blocks : ∀ b ∈ f.blocks, b.Fits facts

variable {facts : Facts} {f : Function}

theorem Annotated.unique (h : Annotated facts f) {l : String} {x y : Fact} (hx : (l, x) ∈ facts)
    (hy : (l, y) ∈ facts) : x = y := by
  have heq := List.inj_on_of_nodup_map h.nodup hx hy rfl
  exact congrArg Prod.snd heq

/-- A block may be entered where the fact at its label is met. -/
theorem Annotated.enter (h : Annotated facts f) {x : Fact} {l : String} {b : Block}
    (hmeets : x.Meets facts l) (hb : f.block? l = some b) :
    ∃ y, y.defined ⊆ x.defined ∧ Fact.AllowsAll facts y b.instrs ∧
      (y.afterAll b.instrs).AllowsEnd facts b.terminator := by
  have hlabel : b.label = l := by simpa using List.find?_some hb
  obtain ⟨z, hz, hsub, _⟩ := hmeets
  obtain ⟨y, hy, hall, hend⟩ := h.blocks b (List.mem_of_find?_eq_some hb)
  rw [hlabel] at hy
  rw [h.unique hz hy] at hsub
  exact ⟨y, hsub, hall, hend⟩

/-- On every path the fact about the point holds. The induction is on the path; an edge into a block
starts again from the fact at its label. -/
theorem Annotated.arrives (h : Annotated facts f) {defined : List Temp} {rest : List Instr}
    {t : Terminator} (hpath : f.Arrives defined rest t) :
    ∃ x : Fact, x.defined ⊆ defined ∧ Fact.AllowsAll facts x rest ∧
      (x.afterAll rest).AllowsEnd facts t := by
  induction hpath with
  | @entry b hb =>
      have hmem : b ∈ f.blocks := List.mem_of_mem_head? hb
      obtain ⟨x, hx, hall, hend⟩ := h.blocks b hmem
      rw [h.unique hx (h.entry b hb)] at hall hend
      exact ⟨⟨[], 0⟩, List.Subset.refl _, hall, hend⟩
  | @step defined i rest t _ ih =>
      obtain ⟨x, hsub, ⟨_, hall⟩, hend⟩ := ih
      refine ⟨x.after i, ?_, hall, hend⟩
      exact List.append_subset.2 ⟨List.subset_append_left _ _,
        List.Subset.trans hsub (List.subset_append_right _ _)⟩
  | @handler defined i rest t l b _ hl hb ih =>
      obtain ⟨x, hsub, ⟨hi, _⟩, _⟩ := ih
      obtain ⟨y, hy, hall, hend⟩ := h.enter (hi.handler l hl) hb
      exact ⟨y, List.Subset.trans hy hsub, hall, hend⟩
  | @leave defined t l b _ hl hb ih =>
      obtain ⟨x, hsub, _, hend⟩ := ih
      obtain ⟨y, hy, hall, hend'⟩ := h.enter (hend.targets l hl) hb
      exact ⟨y, List.Subset.trans hy hsub, hall, hend'⟩

/-- No path reads a temporary before it has defined it. -/
theorem Annotated.nextReads_subset (h : Annotated facts f) {defined : List Temp} {rest : List Instr}
    {t : Terminator} (hpath : f.Arrives defined rest t) : nextReads t rest ⊆ defined := by
  obtain ⟨x, hsub, hall, hend⟩ := h.arrives hpath
  cases rest with
  | nil => exact List.Subset.trans hend.reads hsub
  | cons i rest => exact List.Subset.trans hall.1.reads hsub

end Function

/-! ## Labels that control never comes to

Where a temporary is taken for defined that no instruction defines, control never comes: it would have to
be defined at the start. -/

/-- At the label the temporary need not be defined. -/
def Lacks (facts : Facts) (t : Temp) (label : String) : Prop := ∃ x, (label, x) ∈ facts ∧ t ∉ x.defined

namespace Fact

variable {x : Fact} {facts : Facts} {is : List Instr} {t : Temp}

theorem mem_defined_after {i : Instr} (hi : i.dest? ≠ some t) :
    t ∈ (x.after i).defined ↔ t ∈ x.defined := by
  simp [after, hi]

theorem mem_defined_afterAll (hnew : t ∉ is.filterMap Instr.dest?) :
    t ∈ (x.afterAll is).defined ↔ t ∈ x.defined := by
  induction is generalizing x with
  | nil => rfl
  | cons i rest ih =>
      rw [mem_dests_cons, not_or] at hnew
      obtain ⟨hi, hrest⟩ := hnew
      exact (ih hrest).trans (mem_defined_after hi)

theorem Meets.lacks {l : String} (h : x.Meets facts l) (ht : t ∉ x.defined) : Lacks facts t l := by
  obtain ⟨y, hy, hsub, _⟩ := h
  exact ⟨y, hy, fun hmem => ht (hsub hmem)⟩

theorem AllowsAll.lacks (h : AllowsAll facts x is) (hnew : t ∉ is.filterMap Instr.dest?)
    (ht : t ∉ x.defined) {l : String} (hl : l ∈ is.filterMap Instr.handler?) : Lacks facts t l := by
  induction is generalizing x with
  | nil => cases hl
  | cons i rest ih =>
      rw [mem_dests_cons, not_or] at hnew
      obtain ⟨hi, hrest⟩ := hnew
      obtain ⟨j, hj, hhandler⟩ := List.mem_filterMap.1 hl
      rcases List.mem_cons.1 hj with rfl | hj
      · exact (h.1.handler l hhandler).lacks ht
      · exact ih h.2 hrest (mt (mem_defined_after hi).1 ht) (List.mem_filterMap.2 ⟨j, hj, hhandler⟩)

end Fact

namespace Function

/-- Control may come from the first label to the second, through any number of blocks. -/
def Connects (f : Function) : String → String → Prop := Relation.ReflTransGen fun l l' => l' ∈ f.targets l

variable {facts : Facts} {f : Function} {t : Temp}

theorem Annotated.lacks (h : f.Annotated facts) (hnew : ∀ b ∈ f.blocks, t ∉ b.instrs.filterMap Instr.dest?)
    {e : Block} (he : f.entry? = some e) {l : String} (hl : f.Connects e.label l) : Lacks facts t l := by
  induction hl with
  | refl => exact ⟨_, h.entry e he, List.not_mem_nil⟩
  | @tail l l' _ hl' ih =>
      obtain ⟨x, hx, ht⟩ := ih
      unfold targets at hl'
      cases hb : f.block? l with
      | none =>
          rw [hb] at hl'
          cases hl'
      | some b =>
          rw [hb] at hl'
          have hmem : b ∈ f.blocks := List.mem_of_find?_eq_some hb
          have hlabel : b.label = l := by simpa using List.find?_some hb
          obtain ⟨y, hy, hall, hend⟩ := h.blocks b hmem
          rw [hlabel] at hy
          rw [h.unique hx hy] at ht
          rcases List.mem_append.1 hl' with hl' | hl'
          · refine (hend.targets l' hl').lacks ?_
            rwa [Fact.mem_defined_afterAll (hnew b hmem)]
          · exact hall.lacks (hnew b hmem) ht hl'

end Function

end ProtoScript.Ir
