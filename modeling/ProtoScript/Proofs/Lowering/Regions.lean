import ProtoScript.Proofs.Lowering.WellFormed

set_option autoImplicit false

/-!
# Exception regions are balanced

The number of open `try` regions at a point of a lowered function does not depend on the path to it:
there is one number for each label, and every block that is walked from the number at its label agrees
with the numbers at its targets (`Function.Balanced`). It follows that along every path, those taken by
exceptions included, the open handlers are as many as the number says (`Balanced.handles`). So no region is
closed that was not opened, and a function leaves no handler behind when it returns.
-/

namespace ProtoScript.Ir

/-! ## Balanced functions -/

/-- Walked from a point where `d` regions are open, the instructions and the terminator `t` behind them
agree with the depths of the labels they mention. A region starts at the depth of its handler, only an open
region is ended, and outside of all regions alone the function returns. -/
def WalksFrom (depth : String → Nat) (t : Terminator) : Nat → List Instr → Prop
  | d, [] => (∀ l ∈ t.successors, depth l = d) ∧ (t.isReturn → d = 0)
  | d, i :: rest =>
    (∀ h, i = .setupTry h → depth h = d) ∧ (i = .endTry → 0 < d) ∧
      WalksFrom depth t (i.depthAfter d) rest

/-- The depths fit the function: it starts outside of all regions, and every block walked from the depth
of its label fits. -/
structure Function.Balanced (f : Function) (depth : String → Nat) : Prop where
  start : f.entry?.map Block.label = some "entry"
  entry : depth "entry" = 0
  blocks : ∀ b ∈ f.blocks, WalksFrom depth b.terminator (depth b.label) b.instrs

/-- The number of open regions that the fact at a label tells. -/
def Facts.depth (facts : Facts) (l : String) : Nat :=
  ((facts.find? fun p => p.1 == l).map fun p => p.2.depth).getD 0

namespace Function.Annotated

variable {facts : Facts} {f : Function}

theorem depth_eq (h : f.Annotated facts) {l : String} {x : Fact} (hx : (l, x) ∈ facts) :
    facts.depth l = x.depth := by
  unfold Facts.depth
  cases hfind : facts.find? fun p => p.1 == l with
  | none => exact absurd (List.find?_eq_none.1 hfind _ hx) (by simp)
  | some p =>
      obtain ⟨l', y⟩ := p
      obtain rfl : l' = l := by simpa using List.find?_some hfind
      show y.depth = x.depth
      rw [h.unique (List.mem_of_find?_eq_some hfind) hx]

theorem depth_of_meets (h : f.Annotated facts) {x : Fact} {l : String} (hx : x.Meets facts l) :
    facts.depth l = x.depth := by
  obtain ⟨y, hy, _, hdepth⟩ := hx
  exact (h.depth_eq hy).trans hdepth

/-- What is allowed where a fact holds can be walked from its depth. -/
theorem walksFrom (h : f.Annotated facts) {t : Terminator} {is : List Instr} {x : Fact}
    (hall : Fact.AllowsAll facts x is) (hend : (x.afterAll is).AllowsEnd facts t) :
    WalksFrom facts.depth t x.depth is := by
  induction is generalizing x with
  | nil => exact ⟨fun l hl => h.depth_of_meets (hend.targets l hl), hend.returns⟩
  | cons i rest ih =>
      obtain ⟨hi, hrest⟩ := hall
      refine ⟨?_, hi.closes, ih hrest hend⟩
      rintro l rfl
      exact h.depth_of_meets (hi.handler l rfl)

theorem balanced (h : f.Annotated facts) (hstart : f.entry?.map Block.label = some "entry") :
    f.Balanced facts.depth where
  start := hstart
  entry := by
    obtain ⟨b, hb, hlabel⟩ := Option.map_eq_some_iff.1 hstart
    rw [← hlabel, h.depth_eq (h.entry b hb)]
  blocks b hb := by
    obtain ⟨x, hx, hall, hend⟩ := h.blocks b hb
    rw [h.depth_eq hx]
    exact h.walksFrom hall hend

end Function.Annotated

/-! ## Open handlers along a path -/

/-- The open handlers behind an instruction, innermost first. -/
def Instr.handlersAfter (hs : List String) : Instr → List String
  | setupTry h => h :: hs
  | endTry => hs.tail
  | _ => hs

theorem Instr.length_handlersAfter (i : Instr) (hs : List String) :
    (i.handlersAfter hs).length = i.depthAfter hs.length := by
  cases i with
  | endTry => exact List.length_tail
  | _ => rfl

namespace Function

/-- Some path from the start of the function comes to the point in front of the instructions `rest` and
the terminator `t` with the given handlers open. At every point an exception may be thrown: it closes the
innermost region and goes to its handler. -/
inductive Handles (f : Function) : List String → List Instr → Terminator → Prop where
  | entry {b : Block} : f.entry? = some b → f.Handles [] b.instrs b.terminator
  | step {hs : List String} {i : Instr} {rest : List Instr} {t : Terminator} :
      f.Handles hs (i :: rest) t → f.Handles (i.handlersAfter hs) rest t
  | leave {hs : List String} {t : Terminator} {l : String} {b : Block} :
      f.Handles hs [] t → l ∈ t.successors → f.block? l = some b →
        f.Handles hs b.instrs b.terminator
  | raise {h : String} {hs : List String} {rest : List Instr} {t : Terminator} {b : Block} :
      f.Handles (h :: hs) rest t → f.block? h = some b → f.Handles hs b.instrs b.terminator

/-- Each open handler is at the depth of the regions around its own. -/
def Nested (depth : String → Nat) : List String → Prop
  | [] => True
  | h :: hs => depth h = hs.length ∧ Nested depth hs

variable {f : Function} {depth : String → Nat}

theorem Nested.handlersAfter {hs : List String} {i : Instr} (h : Nested depth hs)
    (hi : ∀ l, i = .setupTry l → depth l = hs.length) : Nested depth (i.handlersAfter hs) := by
  cases i with
  | setupTry l => exact ⟨hi l rfl, h⟩
  | endTry =>
      cases hs with
      | nil => exact trivial
      | cons _ _ => exact h.2
  | _ => exact h

theorem Balanced.block (hf : f.Balanced depth) {l : String} {b : Block} (hb : f.block? l = some b) :
    WalksFrom depth b.terminator (depth l) b.instrs := by
  have hlabel : b.label = l := by simpa using List.find?_some hb
  rw [← hlabel]
  exact hf.blocks b (List.mem_of_find?_eq_some hb)

/-- On every path the open handlers are nested, and as many as the depth at the point. The induction is on
the path: a step changes both numbers alike, and at the start of a block both are the depth of the
label. -/
theorem Balanced.handles (hf : f.Balanced depth) {hs : List String} {rest : List Instr}
    {t : Terminator} (hpath : f.Handles hs rest t) :
    Nested depth hs ∧ WalksFrom depth t hs.length rest := by
  induction hpath with
  | @entry b hb =>
      have hstart := hf.start
      rw [hb] at hstart
      have hwalks := hf.blocks b (List.mem_of_mem_head? hb)
      rw [Option.some.inj hstart, hf.entry] at hwalks
      exact ⟨trivial, hwalks⟩
  | @step hs i rest t _ ih =>
      obtain ⟨hnested, hsetup, _, hwalks⟩ := ih
      rw [i.length_handlersAfter hs]
      exact ⟨hnested.handlersAfter hsetup, hwalks⟩
  | @leave hs t l b _ hl hb ih =>
      obtain ⟨hnested, htargets, _⟩ := ih
      rw [← htargets l hl]
      exact ⟨hnested, hf.block hb⟩
  | @raise h hs rest t b _ hb ih =>
      obtain ⟨⟨hdepth, hnested⟩, _⟩ := ih
      rw [← hdepth]
      exact ⟨hnested, hf.block hb⟩

/-- Only an open region is ended. -/
theorem Balanced.open_of_endTry (hf : f.Balanced depth) {hs : List String} {rest : List Instr}
    {t : Terminator} (hpath : f.Handles hs (.endTry :: rest) t) : hs ≠ [] := by
  have hpos := (hf.handles hpath).2.2.1 rfl
  exact List.length_pos_iff.1 hpos

/-- No handler is left open by a return. -/
theorem Balanced.closed_of_return (hf : f.Balanced depth) {hs : List String} {t : Terminator}
    (hpath : f.Handles hs [] t) (ht : t.isReturn) : hs = [] :=
  List.length_eq_zero_iff.1 ((hf.handles hpath).2.2 ht)

end Function

end ProtoScript.Ir

namespace ProtoScript.Lowering

open Ir

section

variable {hierarchy : Hierarchy} {prototypes : List PrototypeDecl} {depthLimit : Nat}
  {proto? : Option String} {f : FunctionDecl} {F : Ir.Function}

/-- The labels of a lowered function can be given depths such that all blocks agree on them: the function
starts at depth zero, a region starts at the depth of its handler, every target of a block has the depth
reached at its end, and the function returns at depth zero. -/
theorem balanced_of_lowerFunction
    (h : lowerFunction hierarchy prototypes depthLimit proto? f = .ok F) :
    ∃ depth, F.Balanced depth := by
  obtain ⟨facts, hannotated, _, hstart⟩ := annotated_of_lowerFunction h
  exact ⟨facts.depth, hannotated.balanced hstart⟩

/-- The return inside of the `try` region is at depth zero, behind the end of the region. -/
theorem balanced_firstItem :
    lowerFunction ⟨[]⟩ [] 1 none firstItem = .ok firstItemCode ∧
      ∃ depth, firstItemCode.Balanced depth :=
  ⟨lowerFunction_firstItem, balanced_of_lowerFunction lowerFunction_firstItem⟩

/-- However control comes to an end of a lowered function, no handler of it is open there, and no path
ends a region that is not open. -/
theorem handlers_of_lowerFunction
    (h : lowerFunction hierarchy prototypes depthLimit proto? f = .ok F) {hs : List String}
    {rest : List Instr} {t : Terminator} (hpath : F.Handles hs rest t) :
    (rest.head? = some .endTry → hs ≠ []) ∧ (rest = [] → t.isReturn → hs = []) := by
  obtain ⟨facts, hannotated, _, hstart⟩ := annotated_of_lowerFunction h
  have hbalanced := hannotated.balanced hstart
  refine ⟨fun hhead => ?_, fun hnil ht => ?_⟩
  · cases rest with
    | nil => cases hhead
    | cons i rest =>
        cases hhead
        exact hbalanced.open_of_endTry hpath
  · subst hnil
    exact hbalanced.closed_of_return hpath ht

end

end ProtoScript.Lowering
