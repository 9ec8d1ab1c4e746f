import Mathlib.Data.List.Nodup
import ProtoScript.Ir.Reach

set_option autoImplicit false

/-!
# Claims about paths

An observer goes with control along the paths of a function and remembers something of what has happened
(`Observer`), for instance all instructions so far (`Observer.history`). A claim at a label speaks of what
is remembered wherever control comes to the label. If there is a claim at each label, and every block obeys
a law wherever the claim at its label holds, and leads to places whose claims hold again (`Function.Kept`),
then the law is obeyed on all paths (`Function.Kept.comes`).

Control goes from the end of a block to the targets of its terminator, and from an instruction that installs
an exception handler to the handler.
-/

namespace ProtoScript.Ir

variable {H : Type}

/-! ## Observers, laws and claims -/

/-- What somebody remembers who goes with control. -/
structure Observer (H : Type) where
  /-- What is remembered at the start of a function. -/
  start : H
  /-- Behind the instruction, `y` may be remembered if `x` was before it. -/
  after : Instr → H → H → Prop
  /-- Where an exception comes to a handler, `y` may be remembered if `x` was behind the instruction that has
  installed the handler. -/
  caught : H → H → Prop

/-- The observer that remembers all instructions, the last first. It is at a handler as soon as that is
installed. -/
def Observer.history : Observer (List Instr) where
  start := []
  after i past past' := past' = i :: past
  caught past past' := past' = past

/-- What may stand where, by what is remembered there. -/
structure Law (H : Type) extends Observer H where
  /-- A variable may be read. -/
  reads : H → String → Prop
  /-- An element of a container may be written: the container, the index and the value. -/
  writes : H → Temp → Temp → Temp → Prop
  /-- Control may not leave a block of these instructions. -/
  stops : List Instr → Prop
  /-- The function may return without a value. -/
  returnsNothing : Prop
  /-- A variable may be read behind an assignment to it. -/
  reads_stored : ∀ {name : String} {t : Temp} {x y : H}, after (.storeVar name t) x y → reads y name
  /-- Control never goes on behind a thrown exception. -/
  stops_throw : ∀ {code : List Instr} {t : Temp}, stops (code ++ [.throw t])

namespace Law

variable (law : Law H)

/-- The instruction may stand where `x` is remembered. -/
def Allows (x : H) : Instr → Prop
  | .loadVar _ name => law.reads x name
  | .indexSet object index value => law.writes x object index value
  | _ => True

/-- A block of these instructions may end so. -/
def Ends (code : List Instr) : Terminator → Prop
  | .unreachable => law.stops code
  | .retVoid => law.returnsNothing
  | _ => True

end Law

/-- What is claimed at labels. -/
abbrev Claims (H : Type) := List (String × (H → Prop))

namespace Claims

/-- The claim at the label holds. -/
def Met (claims : Claims H) (x : H) (label : String) : Prop := ∃ A, (label, A) ∈ claims ∧ A x

theorem Met.of_subset {claims claims' : Claims H} {x : H} {l : String} (h : claims.Met x l)
    (hclaims : claims ⊆ claims') : claims'.Met x l := by
  obtain ⟨A, hA, hx⟩ := h
  exact ⟨A, hclaims hA, hx⟩

end Claims

/-- What may be remembered behind several instructions. -/
def Observer.through (watch : Observer H) : List Instr → H → H → Prop
  | [], x, z => x = z
  | i :: rest, x, z => ∃ y, watch.after i x y ∧ watch.through rest y z

/-- From where `x` is remembered, the instructions obey the law, and the claims at their handlers hold. -/
def Law.Obeys (law : Law H) (claims : Claims H) : List Instr → H → Prop
  | [], _ => True
  | i :: rest, x => law.Allows x i ∧ ∀ y, law.after i x y →
      (∀ l, i.handler? = some l → ∀ z, law.caught y z → claims.Met z l) ∧ law.Obeys claims rest y

/-- The code may end so where `x` is remembered. -/
structure Law.AllowsEnd (law : Law H) (claims : Claims H) (code : List Instr) (t : Terminator) (x : H) :
    Prop where
  ends : law.Ends code t
  targets : ∀ l ∈ t.successors, claims.Met x l

section

variable {watch : Observer H} {law : Law H} {claims claims' : Claims H} {x y z : H}

theorem Observer.through_concat {is : List Instr} {i : Instr} :
    watch.through (is ++ [i]) x z ↔ ∃ y, watch.through is x y ∧ watch.after i y z := by
  induction is generalizing x with
  | nil =>
      constructor
      · rintro ⟨y, hy, rfl⟩
        exact ⟨x, rfl, hy⟩
      · rintro ⟨_, rfl, hz⟩
        exact ⟨z, hz, rfl⟩
  | cons j rest ih =>
      constructor
      · rintro ⟨y, hy, hrest⟩
        obtain ⟨w, hw, hz⟩ := ih.1 hrest
        exact ⟨w, ⟨y, hy, hw⟩, hz⟩
      · rintro ⟨w, ⟨y, hy, hw⟩, hz⟩
        exact ⟨y, hy, ih.2 ⟨w, hw, hz⟩⟩

theorem Law.Obeys.of_subset {is : List Instr} (h : law.Obeys claims is x)
    (hclaims : claims ⊆ claims') : law.Obeys claims' is x := by
  induction is generalizing x with
  | nil => exact trivial
  | cons i rest ih =>
      obtain ⟨hallows, hrest⟩ := h
      refine ⟨hallows, fun y hy => ?_⟩
      obtain ⟨hhandler, hobeys⟩ := hrest y hy
      exact ⟨fun l hl z hz => (hhandler l hl z hz).of_subset hclaims, ih hobeys⟩

/-- Instructions are written at the end of a block. -/
theorem Law.Obeys.concat {is : List Instr} {i : Instr} (h : law.Obeys claims is x)
    (hi : ∀ y, law.through is x y → law.Obeys claims [i] y) :
    law.Obeys claims (is ++ [i]) x := by
  induction is generalizing x with
  | nil => exact hi x rfl
  | cons j rest ih =>
      obtain ⟨hallows, hrest⟩ := h
      refine ⟨hallows, fun y hy => ?_⟩
      obtain ⟨hhandler, hobeys⟩ := hrest y hy
      exact ⟨hhandler, ih hobeys fun z hz => hi z ⟨y, hy, hz⟩⟩

theorem Law.AllowsEnd.of_subset {code : List Instr} {t : Terminator}
    (h : law.AllowsEnd claims code t x) (hclaims : claims ⊆ claims') :
    law.AllowsEnd claims' code t x :=
  ⟨h.ends, fun l hl => (h.targets l hl).of_subset hclaims⟩

end

/-- Wherever the claim at its label holds, the block obeys the law up to its end. -/
def Block.Keeps (law : Law H) (claims : Claims H) (b : Block) : Prop :=
  ∃ A, (b.label, A) ∈ claims ∧ ∀ x, A x → law.Obeys claims b.instrs x ∧
    ∀ y, law.through b.instrs x y → law.AllowsEnd claims b.instrs b.terminator y

theorem Block.Keeps.of_subset {law : Law H} {claims claims' : Claims H} {b : Block}
    (h : b.Keeps law claims) (hclaims : claims ⊆ claims') : b.Keeps law claims' := by
  obtain ⟨A, hA, hkeeps⟩ := h
  refine ⟨A, hclaims hA, fun x hx => ?_⟩
  obtain ⟨hobeys, hend⟩ := hkeeps x hx
  exact ⟨hobeys.of_subset hclaims, fun y hy => (hend y hy).of_subset hclaims⟩

/-! ## Paths -/

namespace Function

/-- Some path from the start of the function comes to the point of the block `b` in front of the instructions
`rest`, and `x` may be remembered there. -/
inductive Comes (watch : Observer H) (f : Function) : H → Block → List Instr → Prop where
  | entry {b : Block} : f.entry? = some b → f.Comes watch watch.start b b.instrs
  | step {x y : H} {b : Block} {i : Instr} {rest : List Instr} :
      f.Comes watch x b (i :: rest) → watch.after i x y → f.Comes watch y b rest
  | handler {x y z : H} {b b' : Block} {i : Instr} {rest : List Instr} {l : String} :
      f.Comes watch x b (i :: rest) → i.handler? = some l → watch.after i x y → watch.caught y z →
        f.block? l = some b' → f.Comes watch z b' b'.instrs
  | leave {x : H} {b b' : Block} {l : String} : f.Comes watch x b [] →
      l ∈ b.terminator.successors → f.block? l = some b' → f.Comes watch x b' b'.instrs

/-- The claims belong to the function: there is one at each label, the one at the start holds there, and
every block keeps to the law and the claims. -/
structure Kept (law : Law H) (claims : Claims H) (f : Function) : Prop where
  nodup : (claims.map Prod.fst).Nodup
  entry : ∀ b, f.entry? = some b → claims.Met law.start b.label
  blocks : ∀ b ∈ f.blocks, b.Keeps law claims

variable {law : Law H} {claims : Claims H} {f : Function}

/-- Where the claim at a label holds, its block obeys the law. -/
theorem Kept.enter (h : f.Kept law claims) {x : H} {b : Block} (hb : b ∈ f.blocks)
    (hx : claims.Met x b.label) : law.Obeys claims b.instrs x ∧
      ∀ y, law.through b.instrs x y → law.AllowsEnd claims b.instrs b.terminator y := by
  obtain ⟨A, hA, hkeeps⟩ := h.blocks b hb
  obtain ⟨B, hB, hx⟩ := hx
  have heq := List.inj_on_of_nodup_map h.nodup hA hB rfl
  cases heq
  exact hkeeps x hx

/-- On every path the law is obeyed. The induction is on the path; where it enters a block, the claim at the
label of the block holds. -/
theorem Kept.comes (h : f.Kept law claims) {x : H} {b : Block} {rest : List Instr}
    (hpath : f.Comes law.toObserver x b rest) : b ∈ f.blocks ∧ law.Obeys claims rest x ∧
      ∀ y, law.through rest x y → law.AllowsEnd claims b.instrs b.terminator y := by
  have hblock : ∀ {x : H} {l : String} {b : Block}, claims.Met x l → f.block? l = some b →
      b ∈ f.blocks ∧ law.Obeys claims b.instrs x ∧
        ∀ y, law.through b.instrs x y → law.AllowsEnd claims b.instrs b.terminator y := by
    intro x l b hx hb
    have hlabel : b.label = l := by simpa using List.find?_some hb
    have hmem : b ∈ f.blocks := List.mem_of_find?_eq_some hb
    exact ⟨hmem, h.enter hmem (hlabel ▸ hx)⟩
  induction hpath with
  | @entry b hb =>
      have hmem : b ∈ f.blocks := List.mem_of_mem_head? hb
      exact ⟨hmem, h.enter hmem (h.entry b hb)⟩
  | step _ hy ih =>
      obtain ⟨hb, ⟨_, hobeys⟩, hend⟩ := ih
      exact ⟨hb, (hobeys _ hy).2, fun z hz => hend z ⟨_, hy, hz⟩⟩
  | handler _ hl hy hz hb' ih =>
      obtain ⟨_, ⟨_, hobeys⟩, _⟩ := ih
      exact hblock ((hobeys _ hy).1 _ hl _ hz) hb'
  | leave _ hl hb' ih =>
      obtain ⟨_, _, hend⟩ := ih
      exact hblock ((hend _ rfl).targets _ hl) hb'

/-! ### Reachable labels -/

/-- A property that goes over from each label to those control may go to goes over to all that are
visited. -/
theorem visit_keeps {S : String → Prop} (hstep : ∀ l, S l → ∀ l' ∈ f.targets l, S l') (fuel : Nat)
    {seen work : List String} (hseen : ∀ l ∈ seen, S l) (hwork : ∀ l ∈ work, S l) :
    ∀ l ∈ f.visit fuel seen work, S l := by
  induction fuel generalizing seen work with
  | zero => exact hseen
  | succ fuel ih =>
      cases work with
      | nil => exact hseen
      | cons label work =>
          obtain ⟨hlabel, hwork⟩ := List.forall_mem_cons.1 hwork
          rw [visit]
          split
          · exact ih hseen hwork
          · refine ih (List.forall_mem_cons.2 ⟨hlabel, hseen⟩) fun l hl => ?_
            rcases List.mem_append.1 hl with hl | hl
            · exact hstep label hlabel l hl
            · exact hwork l hl

theorem reachable_keeps {S : String → Prop} (hentry : ∀ b, f.entry? = some b → S b.label)
    (hstep : ∀ l, S l → ∀ l' ∈ f.targets l, S l') : ∀ l ∈ f.reachable, S l := by
  refine visit_keeps hstep _ nofun fun l hl => ?_
  obtain ⟨b, hb, rfl⟩ := Option.map_eq_some_iff.1 (Option.mem_toList.1 hl)
  exact hentry b hb

/-- What is remembered may stay the same all along. -/
structure Idle (watch : Observer H) (x : H) : Prop where
  after : ∀ i, watch.after i x x
  caught : watch.caught x x

theorem Idle.through {watch : Observer H} {x : H} (h : Idle watch x) (is : List Instr) :
    watch.through is x x := by
  induction is with
  | nil => rfl
  | cons i rest ih => exact ⟨x, h.after i, ih⟩

/-- The claims at the handlers of a block hold. -/
theorem Idle.handlers {x : H} (h : Idle law.toObserver x) {is : List Instr} (hobeys : law.Obeys claims is x)
    {l : String} (hl : l ∈ is.filterMap Instr.handler?) : claims.Met x l := by
  induction is with
  | nil => cases hl
  | cons i rest ih =>
      obtain ⟨_, hrest⟩ := hobeys
      obtain ⟨hhandler, hobeys⟩ := hrest x (h.after i)
      rcases List.mem_filterMap.1 hl with ⟨j, hj, hjl⟩
      rcases List.mem_cons.1 hj with rfl | hj
      · exact hhandler l hjl x h.caught
      · exact ih hobeys (List.mem_filterMap.2 ⟨j, hj, hjl⟩)

/-- If what is remembered at the start may stay the same, the claims at all reachable labels hold of it, and
their blocks may end as they do. -/
theorem Kept.reachable (h : f.Kept law claims) (hidle : Idle law.toObserver law.start) :
    ∀ l ∈ f.reachable, ∀ b, f.block? l = some b →
      law.AllowsEnd claims b.instrs b.terminator law.start := by
  have hblock : ∀ {l : String} {b : Block}, claims.Met law.start l → f.block? l = some b →
      law.Obeys claims b.instrs law.start ∧ law.AllowsEnd claims b.instrs b.terminator law.start := by
    intro l b hl hb
    have hlabel : b.label = l := by simpa using List.find?_some hb
    obtain ⟨hobeys, hend⟩ := h.enter (List.mem_of_find?_eq_some hb) (hlabel ▸ hl)
    exact ⟨hobeys, hend _ (hidle.through b.instrs)⟩
  have hmet : ∀ l ∈ f.reachable, claims.Met law.start l := by
    refine reachable_keeps h.entry fun l hl l' hl' => ?_
    cases hb : f.block? l with
    | none =>
        rw [targets, hb] at hl'
        cases hl'
    | some b =>
        rw [targets, hb] at hl'
        obtain ⟨hobeys, hend⟩ := hblock hl hb
        rcases List.mem_append.1 hl' with hl' | hl'
        · exact hend.targets l' hl'
        · exact hidle.handlers hobeys hl'
  exact fun l hl b hb => (hblock (hmet l hl) hb).2

end Function

end ProtoScript.Ir
