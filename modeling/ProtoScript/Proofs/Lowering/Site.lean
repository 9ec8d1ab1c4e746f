import Mathlib.Logic.Relation
import ProtoScript.Proofs.Ir.Flow
import ProtoScript.Proofs.Lowering.Builder

set_option autoImplicit false

/-!
# A function while it is written

Labels are made before their blocks are started, and a jump may be written before or after the block it
leads to. A site is a builder together with what its author has in mind: the fact promised at each label,
the labels whose blocks are still to be started, and the temporaries that are defined at the current
point.

An act adds something to the function under the conditions that keep it in order (`Act`). Whatever acts
lead to, labels are distinct and each is started or pending (`Site.Labelled`), temporaries and variables
have one definition (`Site.Fresh`), and every block keeps the promises (`Site.Honest`).
-/

namespace ProtoScript

open Ir

/-- The variable an instruction declares. -/
def Ir.Instr.declared? : Instr → Option String
  | varDecl name _ => some name
  | _ => none

namespace Lowering

/-! ## Sites -/

/-- The builder with an instruction written; if it defines a temporary, that one is given out. -/
def Builder.write (b : Builder) (i : Instr) : Builder :=
  { b with
    code := b.code ++ [i]
    nextTemp := b.nextTemp + i.dest?.toList.length
    used := i.declared?.toList ++ b.used
    tryDepth := i.depthAfter b.tryDepth }

/-- A function while it is written. -/
structure Site where
  builder : Builder
  /-- What holds at each label that was made. -/
  promises : Facts
  /-- The labels whose blocks are still to be started. -/
  pending : List String
  /-- The temporaries that are defined at the current point. -/
  defined : List Temp

namespace Site

/-- What holds at the current point. -/
def here (s : Site) : Fact := ⟨s.defined, s.builder.tryDepth⟩

/-- The current block can be written to. -/
def IsOpen (s : Site) : Prop := s.builder.ended = none

/-- The site with one more instruction in the current block. -/
def write (s : Site) (i : Instr) : Site :=
  { s with builder := s.builder.write i, defined := i.dest?.toList ++ s.defined }

/-- The site with a label made, where the given fact is to hold. -/
def promise (s : Site) (stem : String) (x : Fact) : Site :=
  { s with
    builder := s.builder.takeLabel
    promises := (s.builder.newLabel stem, x) :: s.promises
    pending := s.builder.newLabel stem :: s.pending }

/-- The site with the current block ended. -/
def finish (s : Site) (t : Terminator) : Site := { s with builder := s.builder.finish t }

/-- The site with the block of a pending label started. -/
def start (s : Site) (label : String) (x : Fact) (rest : List String) : Site :=
  { s with builder := s.builder.start label, pending := rest, defined := x.defined }

/-- The site with another number of open `try` regions. -/
def atDepth (s : Site) (depth : Nat) : Site :=
  { s with builder := { s.builder with tryDepth := depth } }

/-- The site inside other scopes. -/
def withScopes (s : Site) (scopes : Frames String) : Site :=
  { s with builder := s.builder.withScopes scopes }

/-- The site inside other loops. -/
def jumpingTo (s : Site) (jumps : List JumpTargets) : Site :=
  { s with builder := s.builder.jumpingTo jumps }

end Site

/-- One addition to a function, and under which conditions it is made. -/
inductive Act : Site → Site → Prop where
  | write {s : Site} {i : Instr} : s.IsOpen → s.here.Allows s.promises i →
      (∀ t ∈ i.dest?, t = s.builder.nextTemp) → (∀ y ∈ i.declared?, y ∉ s.builder.used) →
      Act s (s.write i)
  | promise {s : Site} {stem : String} (x : Fact) : isStem stem → Act s (s.promise stem x)
  | finish {s : Site} {t : Terminator} : s.IsOpen → s.here.AllowsEnd s.promises t → Act s (s.finish t)
  | start {s : Site} {label : String} {x : Fact} {rest : List String} : (label, x) ∈ s.promises →
      x.depth = s.builder.tryDepth → s.pending.Perm (label :: rest) → Act s (s.start label x rest)
  /-- Between two blocks the number of open regions is that of the next one. -/
  | atDepth {s : Site} {t : Terminator} (depth : Nat) : s.builder.ended = some t →
      Act s (s.atDepth depth)
  | withScopes {s : Site} (scopes : Frames String) : Act s (s.withScopes scopes)
  | jumpingTo {s : Site} (jumps : List JumpTargets) : Act s (s.jumpingTo jumps)

/-- One act behind the other. -/
abbrev Acts : Site → Site → Prop := Relation.ReflTransGen Act

/-- What every act keeps holds behind any number of them. -/
theorem Acts.keeps {P : Site → Prop} (hact : ∀ {s s' : Site}, Act s s' → P s → P s') {s s' : Site}
    (h : Acts s s') (hs : P s) : P s' := by
  induction h with
  | refl => exact hs
  | tail _ hlast ih => exact hact hlast ih

/-! ## Labels -/

theorem Builder.labels_start (b : Builder) (label : String) :
    (b.start label).labels = b.labels ++ [label] := by
  simp [Builder.labels, Builder.start, Builder.blocks]

namespace Site

/-- The labels that were made have distinct numbers; each is that of a block, or its block is still to be
started. -/
structure Labelled (s : Site) : Prop where
  nodup : (s.promises.map Prod.fst).Nodup
  numbers : ∀ l ∈ s.promises.map Prod.fst, labelNumber l ≤ s.builder.nextLabel
  made : (s.promises.map Prod.fst).Perm (s.builder.labels ++ s.pending)
  entry : s.builder.labels.head? = some "entry"

theorem Labelled.act {s s' : Site} (h : Act s s') (hs : s.Labelled) : s'.Labelled := by
  cases h with
  | write | finish | atDepth | withScopes | jumpingTo => exact ⟨hs.nodup, hs.numbers, hs.made, hs.entry⟩
  | @promise stem x hstem =>
      have hnumber : labelNumber (s.builder.newLabel stem) = s.builder.nextLabel + 1 :=
        labelNumber_append hstem _
      refine ⟨List.nodup_cons.2 ⟨fun hmem => ?_, hs.nodup⟩, ?_, ?_, hs.entry⟩
      · have hle : labelNumber (s.builder.newLabel stem) ≤ s.builder.nextLabel := hs.numbers _ hmem
        omega
      · intro l hl
        rcases List.mem_cons.1 hl with rfl | hl
        · exact Nat.le_of_eq hnumber
        · exact Nat.le_succ_of_le (hs.numbers l hl)
      · exact (hs.made.cons _).trans List.perm_middle.symm
  | @start label x rest _ _ hpending =>
      have hlabels : (s.start label x rest).builder.labels = s.builder.labels ++ [label] :=
        Builder.labels_start _ _
      refine ⟨hs.nodup, hs.numbers, hs.made.trans ?_, ?_⟩
      · rw [hlabels, List.append_assoc]
        exact hpending.append_left _
      · rw [hlabels, List.head?_append, hs.entry]
        rfl

/-! ## Definitions -/

/-- The instructions of all blocks, in order. -/
def instrs (s : Site) : List Instr := s.builder.finished.flatMap Block.instrs ++ s.builder.code

/-- Every temporary was given out and is defined once; every variable is in use and declared once, and none
of them is a parameter. -/
structure Fresh (params : List String) (s : Site) : Prop where
  dests : (s.instrs.filterMap Instr.dest?).Nodup
  bounds : ∀ t ∈ s.instrs.filterMap Instr.dest?, t < s.builder.nextTemp
  names : (s.instrs.filterMap Instr.declared?).Nodup
  used : ∀ y ∈ s.instrs.filterMap Instr.declared?, y ∈ s.builder.used
  params : ∀ y ∈ params, y ∈ s.builder.used ∧ y ∉ s.instrs.filterMap Instr.declared?

theorem filterMap_instrs_write {α : Type} (s : Site) (i : Instr) (f : Instr → Option α) :
    (s.write i).instrs.filterMap f = s.instrs.filterMap f ++ (f i).toList := by
  have hinstrs : (s.write i).instrs = s.instrs ++ [i] := (List.append_assoc ..).symm
  rw [hinstrs, List.filterMap_append]
  cases hi : f i with
  | none => rw [List.filterMap_cons_none hi, List.filterMap_nil, Option.toList_none]
  | some a => rw [List.filterMap_cons_some hi, List.filterMap_nil, Option.toList_some]

theorem nodup_toList {α : Type} (o : Option α) : o.toList.Nodup := by
  cases o with
  | none => exact List.nodup_nil
  | some a => exact List.nodup_singleton a

theorem instrs_start (s : Site) (label : String) (x : Fact) (rest : List String) :
    (s.start label x rest).instrs = s.instrs := by
  simp [instrs, start, Builder.start, Builder.blocks]

theorem Fresh.act {params : List String} {s s' : Site} (h : Act s s') (hs : s.Fresh params) :
    s'.Fresh params := by
  cases h with
  | promise | finish | atDepth | withScopes | jumpingTo =>
      exact ⟨hs.dests, hs.bounds, hs.names, hs.used, hs.params⟩
  | @start label x rest =>
      have heq := instrs_start s label x rest
      exact ⟨heq ▸ hs.dests, heq ▸ hs.bounds, heq ▸ hs.names, heq ▸ hs.used, heq ▸ hs.params⟩
  | @write i _ _ hdest hname =>
      have hdests := filterMap_instrs_write s i Instr.dest?
      have hnames := filterMap_instrs_write s i Instr.declared?
      -- What is new was not there before: a temporary because of its number, a name because it is not in use.
      refine ⟨?_, ?_, ?_, ?_, ?_⟩
      · rw [hdests]
        refine hs.dests.append (nodup_toList _) fun t ht hnew => ?_
        have hlt := hs.bounds t ht
        rw [hdest t (Option.mem_toList.1 hnew)] at hlt
        exact Nat.lt_irrefl _ hlt
      · rw [hdests]
        intro t ht
        have hnext : (s.write i).builder.nextTemp = s.builder.nextTemp + i.dest?.toList.length := rfl
        rw [hnext]
        rcases List.mem_append.1 ht with ht | ht
        · exact Nat.lt_add_right _ (hs.bounds t ht)
        · rw [hdest t (Option.mem_toList.1 ht)]
          exact Nat.lt_add_of_pos_right (List.length_pos_of_mem ht)
      · rw [hnames]
        refine hs.names.append (nodup_toList _) fun y hy hnew => ?_
        exact hname y (Option.mem_toList.1 hnew) (hs.used y hy)
      · rw [hnames]
        intro y hy
        rcases List.mem_append.1 hy with hy | hy
        · exact List.mem_append_right _ (hs.used y hy)
        · exact List.mem_append_left _ hy
      · rw [hnames]
        intro y hy
        obtain ⟨hused, hold⟩ := hs.params y hy
        refine ⟨List.mem_append_right _ hused, fun hmem => ?_⟩
        rcases List.mem_append.1 hmem with hmem | hmem
        · exact hold hmem
        · exact hname y (Option.mem_toList.1 hmem) hused

/-! ## Promises -/

/-- Every block keeps the promises, the current one as far as it is written. At the start nothing is
promised. -/
structure Honest (s : Site) : Prop where
  start : ("entry", (⟨[], 0⟩ : Fact)) ∈ s.promises
  finished : ∀ b ∈ s.builder.finished, b.Fits s.promises
  current : ∃ x, (s.builder.label, x) ∈ s.promises ∧ Fact.AllowsAll s.promises x s.builder.code ∧
    (s.IsOpen → x.afterAll s.builder.code = s.here) ∧
    ∀ t ∈ s.builder.ended, (x.afterAll s.builder.code).AllowsEnd s.promises t

/-- A block without a terminator is never left, so that all blocks keep the promises at any time. -/
theorem Honest.fits {s : Site} (h : s.Honest) : ∀ b ∈ s.builder.blocks, b.Fits s.promises := by
  intro b hb
  rcases List.mem_append.1 hb with hb | hb
  · exact h.finished b hb
  · rw [List.mem_singleton.1 hb]
    obtain ⟨x, hx, hall, _, hend⟩ := h.current
    refine ⟨x, hx, hall, ?_⟩
    cases hended : s.builder.ended with
    | none => exact Fact.allowsEnd_unreachable _ _
    | some t => exact hend t hended

theorem Honest.act {s s' : Site} (h : Act s s') (hs : s.Honest) : s'.Honest := by
  cases h with
  | withScopes | jumpingTo => exact ⟨hs.start, hs.finished, hs.current⟩
  | @promise stem x _ =>
      -- More promises take none back.
      have hmore : s.promises ⊆ (s.promise stem x).promises := List.subset_cons_self _ _
      obtain ⟨y, hy, hall, hhere, hend⟩ := hs.current
      refine ⟨hmore hs.start, fun b hb => (hs.finished b hb).of_subset hmore, y, hmore hy, ?_, hhere, ?_⟩
      · exact hall.of_subset hmore
      · exact fun t ht => (hend t ht).of_subset hmore
  | @write i hopen hallows =>
      obtain ⟨x, hx, hall, hhere, _⟩ := hs.current
      have hcode : (s.write i).builder.code = s.builder.code ++ [i] := rfl
      refine ⟨hs.start, hs.finished, x, hx, hall.concat ?_, fun _ => ?_, fun t ht => ?_⟩
      · rw [hhere hopen]
        exact hallows
      · rw [hcode, Fact.afterAll_concat, hhere hopen]
        rfl
      · have hended : s.builder.ended = some t := ht
        rw [hopen] at hended
        cases hended
  | @finish t hopen hallows =>
      obtain ⟨x, hx, hall, hhere, _⟩ := hs.current
      refine ⟨hs.start, hs.finished, x, hx, hall, nofun, fun t' ht => ?_⟩
      cases ht
      have hat := hhere hopen
      exact hat ▸ hallows
  | @start label x rest hx hdepth _ =>
      refine ⟨hs.start, hs.fits, x, hx, trivial, fun _ => ?_, nofun⟩
      obtain ⟨defined, depth⟩ := x
      cases hdepth
      rfl
  | @atDepth t depth hended =>
      obtain ⟨x, hx, hall, _, hend⟩ := hs.current
      refine ⟨hs.start, hs.finished, x, hx, hall, fun hopen => ?_, hend⟩
      have hnone : s.builder.ended = none := hopen
      rw [hended] at hnone
      cases hnone

end Site

end Lowering

end ProtoScript
