import Mathlib.Data.List.Nodup
import Mathlib.Data.List.Perm.Subperm
import ProtoScript.Lowering.Program
import ProtoScript.Proofs.Source.Typing

set_option autoImplicit false

/-!
# How the builder grows

Lowering only adds to a function: what it has written so far is part of the finished function
(`Extends`), and a later builder has all that an earlier one has (`Step`).

Labels are unique because of the numbers they end in. A label that was made but not yet started is
free (`Free`), and stays so while other steps make and start labels with larger numbers.
-/

namespace ProtoScript.Lowering

/-! ## Labels and their numbers -/

/-- The number a label ends in. -/
def labelNumber (label : String) : Nat :=
  Nat.ofDigitChars 10 (label.toList.reverse.takeWhile Char.isDigit).reverse 0

/-- The stem of a label does not end in a digit. -/
def isStem (stem : String) : Bool := stem.toList.getLast?.all fun c => !c.isDigit

theorem labelNumber_append {stem : String} (h : isStem stem) (n : Nat) :
    labelNumber (stem ++ toString n) = n := by
  have hdigits : ∀ c ∈ (Nat.toDigits 10 n).reverse, c.isDigit := by
    intro c hc
    exact Nat.isDigit_of_mem_toDigits (by omega) (by omega) (List.mem_reverse.1 hc)
  have hstem : stem.toList.reverse.takeWhile Char.isDigit = [] := by
    unfold isStem at h
    cases hs : stem.toList.reverse with
    | nil => rfl
    | cons c rest =>
        have hlast : stem.toList.getLast? = some c := by
          rw [← List.head?_reverse, hs]
          rfl
        rw [hlast] at h
        have hc : c.isDigit = false := by simpa using h
        rw [List.takeWhile_cons_of_neg (by simp [hc])]
  unfold labelNumber
  have hlist : (stem ++ toString n).toList = stem.toList ++ Nat.toDigits 10 n := by
    rw [String.toList_append]
    congr 1
    exact Nat.toList_repr
  rw [hlist, List.reverse_append, List.takeWhile_append_of_pos hdigits, hstem, List.append_nil,
    List.reverse_reverse, Nat.ofDigitChars_ten_toDigits]

theorem label_ne {stem stem' : String} (h : isStem stem) (h' : isStem stem') {m n : Nat}
    (hne : m ≠ n) : stem ++ toString m ≠ stem' ++ toString n := by
  intro heq
  have hnumber := congrArg labelNumber heq
  rw [labelNumber_append h, labelNumber_append h'] at hnumber
  exact hne hnumber

/-! ## Names of variables -/

theorem isStem_underscore (base : String) : isStem (base ++ "_") := by
  have hlist : (base ++ "_").toList = base.toList ++ ['_'] := by
    rw [String.toList_append]
    rfl
  unfold isStem
  rw [hlist, List.getLast?_concat]
  decide

/-- The name of a new variable is not in use. If all numbered names were, there would be more names in
use than there are. -/
theorem freeName_not_mem (used : List String) (base : String) : freeName used base ∉ used := by
  unfold freeName
  split
  case isFalse h => exact h
  case isTrue hbase =>
    generalize hnames : (List.range used.length).map (fun n => base ++ "_" ++ toString (n + 1)) = names
    cases hfind : names.find? fun name => !used.contains name with
    | some name => simpa using List.find?_some hfind
    | none =>
        exfalso
        have hall : ∀ name ∈ names, name ∈ used := by
          intro name hname
          simpa using List.find?_eq_none.1 hfind name hname
        have hnumber : ∀ n, labelNumber (base ++ "_" ++ toString (n + 1)) = n + 1 := fun n =>
          labelNumber_append (isStem_underscore base) (n + 1)
        have hnodup : names.Nodup := by
          rw [← hnames]
          refine List.Nodup.map ?_ List.nodup_range
          intro m n hmn
          have heq := congrArg labelNumber hmn
          simp only [hnumber] at heq
          omega
        have hfresh : base ∉ names := by
          intro hmem
          rw [← hnames] at hmem
          obtain ⟨n, _, hn⟩ := List.mem_map.1 hmem
          have hlen := congrArg String.length hn
          simp only [String.length_append] at hlen
          have hone : "_".length = 1 := rfl
          omega
        have hsub : (base :: names) ⊆ used := by
          intro name hname
          rcases List.mem_cons.1 hname with rfl | hname
          · exact hbase
          · exact hall name hname
        have hle := (List.Nodup.subperm (List.nodup_cons.2 ⟨hfresh, hnodup⟩) hsub).length_le
        have hlen : names.length = used.length := by
          rw [← hnames, List.length_map, List.length_range]
        simp only [List.length_cons, hlen] at hle
        omega

/-! ## Steps that succeed -/

/-- A step of lowering succeeds. -/
def Runs {α : Type} (c : Context) (m : Lower α) (b : Builder) (a : α) (b' : Builder) : Prop :=
  m c b = .ok (a, b')

section

variable {α β : Type} {c : Context} {b b₁ b₂ : Builder}

theorem Runs.bind {m : Lower α} {f : α → Lower β} {a : α} {d : β} (hm : Runs c m b a b₁)
    (hf : Runs c (f a) b₁ d b₂) : Runs c (m >>= f) b d b₂ := by
  have hstep : (m >>= f) c b = (m c b >>= fun r => f r.1 c r.2) := rfl
  unfold Runs at *
  rw [hstep, hm]
  exact hf

theorem runs_pure (a : α) : Runs c (pure a : Lower α) b a b := rfl

end

namespace Builder

/-- The builder with one more instruction in the current block. -/
def emit (b : Builder) (i : Ir.Instr) : Builder := { b with code := b.code ++ [i] }

/-- The builder with the next temporary given out. -/
def takeTemp (b : Builder) : Builder := { b with nextTemp := b.nextTemp + 1 }

/-- The builder with the next label given out. -/
def takeLabel (b : Builder) : Builder := { b with nextLabel := b.nextLabel + 1 }

/-- The label that the builder gives out next. -/
def newLabel (b : Builder) (stem : String) : String := stem ++ toString (b.nextLabel + 1)

/-- The builder with the current block ended. -/
def finish (b : Builder) (t : Ir.Terminator) : Builder := { b with ended := some t }

/-- The builder with the current block ended, unless it has ended before. -/
def close (b : Builder) (t : Ir.Terminator) : Builder := { b with ended := b.ended <|> some t }

/-- The builder with the next block started. -/
def start (b : Builder) (label : String) : Builder :=
  { b with finished := b.blocks, label, code := [], ended := none }

/-- The builder with one more variable in use. -/
def useName (b : Builder) (name : String) : Builder := { b with used := name :: b.used }

/-- The builder with other scopes. -/
def withScopes (b : Builder) (scopes : Frames String) : Builder := { b with scopes }

/-- The builder with other targets of jumps. -/
def jumpingTo (b : Builder) (jumps : List JumpTargets) : Builder := { b with jumps }

theorem close_of_open {b : Builder} (h : b.ended = none) (t : Ir.Terminator) :
    b.close t = b.finish t := by
  unfold close finish
  rw [h]
  rfl

/-- The labels of all blocks started so far. -/
def labels (b : Builder) : List String := b.finished.map Ir.Block.label ++ [b.label]

theorem mem_labels_start {b : Builder} {label l : String} :
    l ∈ (b.start label).labels ↔ l ∈ b.labels ∨ l = label := by
  simp [labels, start, blocks, or_assoc]

end Builder

section

variable {c : Context} {b : Builder}

theorem runs_emit (i : Ir.Instr) : Runs c (emit i) b () (b.emit i) := rfl

theorem runs_emitValue (make : Ir.Temp → Ir.Instr) :
    Runs c (emitValue make) b b.nextTemp (b.takeTemp.emit (make b.nextTemp)) := rfl

theorem runs_freshLabel (stem : String) :
    Runs c (freshLabel stem) b (b.newLabel stem) b.takeLabel := rfl

theorem runs_close (t : Ir.Terminator) : Runs c (endWith t) b () (b.close t) := rfl

theorem runs_endWith (h : b.ended = none) (t : Ir.Terminator) :
    Runs c (endWith t) b () (b.finish t) := by
  rw [← Builder.close_of_open h]
  exact runs_close t

theorem runs_startBlock (label : String) : Runs c (startBlock label) b () (b.start label) := rfl

theorem runs_modify (f : Builder → Builder) : Runs c (modify f) b () (f b) := rfl

theorem runs_get : Runs c get b b b := rfl

theorem runs_isOpen : Runs c isOpen b b.ended.isNone b := rfl

theorem runs_varOf? (x : String) : Runs c (varOf? x) b (Frames.find? b.scopes x) b := rfl

theorem runs_inScope {α : Type} {m : Lower α} {a : α} {b' : Builder}
    (h : Runs c m (b.withScopes ([] :: b.scopes)) a b') :
    Runs c (inScope m) b a (b'.withScopes b'.scopes.tail) :=
  (runs_modify _).bind (h.bind ((runs_modify _).bind (runs_pure a)))

theorem runs_withJumps {α : Type} {m : Lower α} {a : α} {b' : Builder} {breakLabel : String}
    {continueLabel : Option String}
    (h : Runs c m (b.jumpingTo (⟨breakLabel, continueLabel, b.tryDepth⟩ :: b.jumps)) a b') :
    Runs c (withJumps breakLabel continueLabel m) b a (b'.jumpingTo b'.jumps.tail) :=
  (runs_modify _).bind (h.bind ((runs_modify _).bind (runs_pure a)))

theorem runs_unwindTo (h : b.tryDepth = 0) (depth : Nat) : Runs c (unwindTo depth) b () b := by
  have hstep : unwindTo depth c b =
      .ok ((), { b with code := b.code ++ List.replicate (b.tryDepth - depth) .endTry }) := rfl
  have hnone : List.replicate (b.tryDepth - depth) Ir.Instr.endTry = [] := by
    rw [h, Nat.zero_sub, List.replicate_zero]
  unfold Runs
  rw [hstep, hnone, List.append_nil]

/-- Statements behind the end of a block are not written. -/
theorem runs_lowerStmts_of_ended {newInstance : String → Lower Ir.Temp} {t : Ir.Terminator}
    (h : b.ended = some t) (stmts : List Stmt) : Runs c (lowerStmts newInstance stmts) b () b := by
  cases stmts with
  | nil => exact runs_pure ()
  | cons s rest =>
      rw [lowerStmts]
      refine (runs_isOpen).bind ?_
      rw [h]
      exact runs_pure ()

theorem runs_typeOf {e : Expr} {τ : Ty} (h : e.type? = some τ) : Runs c (typeOf e) b τ b := by
  unfold Runs typeOf
  rw [h]
  rfl

theorem runs_declare (base : String) (ty : Ty) :
    Runs c (declare base ty) b (freeName b.used base)
      ((b.useName (freeName b.used base)).emit (.varDecl (freeName b.used base) ty)) := rfl

theorem runs_bindName (x y : String) :
    Runs c (bindName x y) b () (b.withScopes (Frames.declare x y b.scopes)) := by
  obtain ⟨finished, label, code, ended, nextTemp, nextLabel, scopes, used, jumps, tryDepth⟩ := b
  cases scopes with
  | nil => rfl
  | cons s outer => rfl

end

/-! ## Growth -/

/-- The function is what the builder has written so far, and more. -/
def Extends (F : Ir.Function) (b : Builder) : Prop :=
  ∃ more term rest, F.blocks = b.finished ++ ⟨b.label, b.code ++ more, term⟩ :: rest ∧
    ∀ t, b.ended = some t → more = [] ∧ term = t

/-- The block before the one that is started is finished. -/
theorem Extends.of_start {F : Ir.Function} {b : Builder} {label : String}
    (h : Extends F (b.start label)) : Extends F b := by
  obtain ⟨more, term, rest, hF, _⟩ := h
  refine ⟨[], b.ended.getD .unreachable, ⟨label, [] ++ more, term⟩ :: rest, ?_, ?_⟩
  · rw [hF]
    simp [Builder.start, Builder.blocks]
  · intro t ht
    rw [ht]
    exact ⟨rfl, rfl⟩

/-- The second builder has come from the first by writing more. New labels have new numbers. -/
structure Step (b b' : Builder) : Prop where
  nextLabel : b.nextLabel ≤ b'.nextLabel
  labels : ∀ l ∈ b'.labels,
    l ∈ b.labels ∨ (b.nextLabel < labelNumber l ∧ labelNumber l ≤ b'.nextLabel)
  nextTemp : b.nextTemp ≤ b'.nextTemp
  used : ∀ y ∈ b.used, y ∈ b'.used
  back : ∀ F, Extends F b' → Extends F b

/-- The builder is in order: labels have numbers that were given out, no label stands twice, no `try`
region is open, and names stand for distinct variables of the function. -/
structure Builder.WF (b : Builder) : Prop where
  numbers : ∀ l ∈ b.labels, labelNumber l ≤ b.nextLabel
  label : b.label ∉ b.finished.map Ir.Block.label
  noTry : b.tryDepth = 0
  used : ∀ y ∈ Frames.values b.scopes, y ∈ b.used
  nodup : (Frames.values b.scopes).Nodup

/-- The label was given out, and no block with it was started. -/
structure Free (b : Builder) (label : String) : Prop where
  number : labelNumber label ≤ b.nextLabel
  fresh : label ∉ b.labels

namespace Step

variable {b b' b'' : Builder}

theorem refl (b : Builder) : Step b b where
  nextLabel := Nat.le_refl _
  labels _ h := .inl h
  nextTemp := Nat.le_refl _
  used _ h := h
  back _ h := h

theorem trans (h : Step b b') (h' : Step b' b'') : Step b b'' where
  nextLabel := Nat.le_trans h.nextLabel h'.nextLabel
  labels l hl := by
    have hle := h.nextLabel
    have hle' := h'.nextLabel
    rcases h'.labels l hl with hl | hl
    · rcases h.labels l hl with hl | hl
      · exact .inl hl
      · exact .inr ⟨hl.1, by omega⟩
    · exact .inr ⟨by omega, hl.2⟩
  nextTemp := Nat.le_trans h.nextTemp h'.nextTemp
  used y hy := h'.used y (h.used y hy)
  back F hF := h.back F (h'.back F hF)

theorem emit (h : b.ended = none) (i : Ir.Instr) : Step b (b.emit i) where
  nextLabel := Nat.le_refl _
  labels _ hl := .inl hl
  nextTemp := Nat.le_refl _
  used _ hy := hy
  back F := by
    rintro ⟨more, term, rest, hF, _⟩
    refine ⟨i :: more, term, rest, ?_, fun t ht => ?_⟩
    · rw [hF]
      simp [Builder.emit]
    · rw [h] at ht
      cases ht

theorem takeTemp (b : Builder) : Step b b.takeTemp where
  nextLabel := Nat.le_refl _
  labels _ hl := .inl hl
  nextTemp := Nat.le_succ _
  used _ hy := hy
  back _ hF := hF

theorem takeLabel (b : Builder) : Step b b.takeLabel where
  nextLabel := Nat.le_succ _
  labels _ hl := .inl hl
  nextTemp := Nat.le_refl _
  used _ hy := hy
  back _ hF := hF

theorem useName (b : Builder) (y : String) : Step b (b.useName y) where
  nextLabel := Nat.le_refl _
  labels _ hl := .inl hl
  nextTemp := Nat.le_refl _
  used _ hy := List.mem_cons_of_mem _ hy
  back _ hF := hF

theorem withScopes (b : Builder) (scopes : Frames String) : Step b (b.withScopes scopes) where
  nextLabel := Nat.le_refl _
  labels _ hl := .inl hl
  nextTemp := Nat.le_refl _
  used _ hy := hy
  back _ hF := hF

theorem jumpingTo (b : Builder) (jumps : List JumpTargets) : Step b (b.jumpingTo jumps) where
  nextLabel := Nat.le_refl _
  labels _ hl := .inl hl
  nextTemp := Nat.le_refl _
  used _ hy := hy
  back _ hF := hF

theorem finish (h : b.ended = none) (t : Ir.Terminator) : Step b (b.finish t) where
  nextLabel := Nat.le_refl _
  labels _ hl := .inl hl
  nextTemp := Nat.le_refl _
  used _ hy := hy
  back F := by
    rintro ⟨more, term, rest, hF, hended⟩
    refine ⟨more, term, rest, hF, fun t' ht => ?_⟩
    rw [h] at ht
    cases ht

/-- A block that has ended stays as it is. -/
theorem close (b : Builder) (t : Ir.Terminator) : Step b (b.close t) where
  nextLabel := Nat.le_refl _
  labels _ hl := .inl hl
  nextTemp := Nat.le_refl _
  used _ hy := hy
  back F := by
    rintro ⟨more, term, rest, hF, hended⟩
    refine ⟨more, term, rest, hF, fun t' ht => hended t' ?_⟩
    simp [Builder.close, ht]

/-- The label of the block that is started was given out since the first builder. -/
theorem start (h : Step b b') {label : String} (hlt : b.nextLabel < labelNumber label)
    (hle : labelNumber label ≤ b'.nextLabel) : Step b (b'.start label) where
  nextLabel := h.nextLabel
  labels l hl := by
    rcases Builder.mem_labels_start.1 hl with hmem | rfl
    · exact h.labels l hmem
    · exact .inr ⟨hlt, hle⟩
  nextTemp := h.nextTemp
  used := h.used
  back F hF := h.back F hF.of_start

end Step

namespace Free

variable {b b' : Builder} {label : String}

/-- A label that was just made. -/
theorem of_takeLabel (hb : b.WF) {stem : String} (hstem : isStem stem) :
    Free b.takeLabel (b.newLabel stem) where
  number := by
    rw [Builder.newLabel, labelNumber_append hstem]
    exact Nat.le_refl _
  fresh hmem := by
    have hle := hb.numbers _ hmem
    rw [Builder.newLabel, labelNumber_append hstem] at hle
    omega

theorem step (h : Free b label) (hs : Step b b') : Free b' label where
  number := Nat.le_trans h.number hs.nextLabel
  fresh hmem := by
    have hle := h.number
    rcases hs.labels _ hmem with hmem | hmem
    · exact h.fresh hmem
    · omega

theorem start (h : Free b label) {other : String} (hne : label ≠ other) :
    Free (b.start other) label where
  number := h.number
  fresh hmem := by
    rcases Builder.mem_labels_start.1 hmem with hmem | heq
    · exact h.fresh hmem
    · exact hne heq

end Free

namespace Builder.WF

variable {b b' : Builder}

theorem emit (h : b.WF) (i : Ir.Instr) : (b.emit i).WF := ⟨h.1, h.2, h.3, h.4, h.5⟩

theorem takeTemp (h : b.WF) : b.takeTemp.WF := ⟨h.1, h.2, h.3, h.4, h.5⟩

theorem takeLabel (h : b.WF) : b.takeLabel.WF :=
  ⟨fun l hl => Nat.le_succ_of_le (h.1 l hl), h.2, h.3, h.4, h.5⟩

theorem useName (h : b.WF) (y : String) : (b.useName y).WF :=
  ⟨h.1, h.2, h.3, fun z hz => List.mem_cons_of_mem _ (h.4 z hz), h.5⟩

theorem finish (h : b.WF) (t : Ir.Terminator) : (b.finish t).WF := ⟨h.1, h.2, h.3, h.4, h.5⟩

theorem close (h : b.WF) (t : Ir.Terminator) : (b.close t).WF := ⟨h.1, h.2, h.3, h.4, h.5⟩

theorem jumpingTo (h : b.WF) (jumps : List JumpTargets) : (b.jumpingTo jumps).WF :=
  ⟨h.1, h.2, h.3, h.4, h.5⟩

theorem start (h : b.WF) {label : String} (hfree : Free b label) : (b.start label).WF where
  numbers l hl := by
    rcases Builder.mem_labels_start.1 hl with hl | rfl
    · exact h.numbers l hl
    · exact hfree.number
  label hmem := by
    refine hfree.fresh ?_
    simpa [Builder.labels, Builder.start, Builder.blocks] using hmem
  noTry := h.noTry
  used := h.used
  nodup := h.nodup

/-- The scopes of a builder can be those of another one of which it has all variables. -/
theorem withScopes (h : b.WF) {scopes : Frames String}
    (hused : ∀ y ∈ Frames.values scopes, y ∈ b.used) (hnodup : (Frames.values scopes).Nodup) :
    (b.withScopes scopes).WF := ⟨h.1, h.2, h.3, hused, hnodup⟩

/-- A name of the source is bound to a new variable. -/
theorem declare (h : b.WF) {x y : String} (hy : y ∉ b.used) :
    ((b.useName y).withScopes (Frames.declare x y b.scopes)).WF := by
  refine (h.useName y).withScopes ?_ ?_
  · intro z hz
    cases hs : b.scopes with
    | nil =>
        rw [hs] at hz
        cases hz
    | cons s outer =>
        rw [hs] at hz
        have hor : z = y ∨ z ∈ Frames.values b.scopes := by
          rw [hs]
          simpa [Frames.values, Frames.declare] using hz
        rcases hor with rfl | hz
        · exact List.mem_cons_self
        · exact List.mem_cons_of_mem _ (h.used z hz)
  · cases hs : b.scopes with
    | nil => exact List.nodup_nil
    | cons s outer =>
        have hold := h.nodup
        have hnew : y ∉ Frames.values b.scopes := fun hmem => hy (h.used y hmem)
        rw [hs] at hold hnew
        simp only [Frames.values, Frames.declare, List.flatMap_cons, List.map_cons, List.cons_append]
        exact List.nodup_cons.2 ⟨hnew, hold⟩

end Builder.WF

/-! ## Open blocks -/

/-- The builder is in order, and its current block can be written to. -/
structure Builder.Ready (b : Builder) : Prop where
  wf : b.WF
  ended : b.ended = none

/-- Code was written, in the same scope and inside the same loops. -/
structure Written (b b' : Builder) : Prop where
  step : Step b b'
  wf : b'.WF
  scopes : b'.scopes = b.scopes
  jumps : b'.jumps = b.jumps

theorem Written.trans {b b' b'' : Builder} (h : Written b b') (h' : Written b' b'') :
    Written b b'' where
  step := h.step.trans h'.step
  wf := h'.wf
  scopes := h'.scopes.trans h.scopes
  jumps := h'.jumps.trans h.jumps

/-- Code was written whose end can be written on. -/
structure Grown (b b' : Builder) : Prop extends Written b b' where
  ended : b'.ended = none

namespace Grown

variable {b b' b'' : Builder}

theorem ready (h : Grown b b') : b'.Ready := ⟨h.wf, h.ended⟩

theorem refl (h : b.Ready) : Grown b b := ⟨⟨Step.refl b, h.wf, rfl, rfl⟩, h.ended⟩

theorem trans (h : Grown b b') (h' : Grown b' b'') : Grown b b'' :=
  ⟨h.toWritten.trans h'.toWritten, h'.ended⟩

theorem emit (h : Grown b b') (i : Ir.Instr) : Grown b (b'.emit i) where
  step := h.step.trans (Step.emit h.ended i)
  wf := h.wf.emit i
  scopes := h.scopes
  jumps := h.jumps
  ended := h.ended

theorem takeTemp (h : Grown b b') : Grown b b'.takeTemp where
  step := h.step.trans (Step.takeTemp b')
  wf := h.wf.takeTemp
  scopes := h.scopes
  jumps := h.jumps
  ended := h.ended

theorem takeLabel (h : Grown b b') : Grown b b'.takeLabel where
  step := h.step.trans (Step.takeLabel b')
  wf := h.wf.takeLabel
  scopes := h.scopes
  jumps := h.jumps
  ended := h.ended

theorem useName (h : Grown b b') (y : String) : Grown b (b'.useName y) where
  step := h.step.trans (Step.useName b' y)
  wf := h.wf.useName y
  scopes := h.scopes
  jumps := h.jumps
  ended := h.ended

theorem finish (h : Grown b b') (t : Ir.Terminator) : Step b (b'.finish t) :=
  h.step.trans (Step.finish h.ended t)

end Grown

/-- The label was given out since the first builder, and no block with it was started. -/
structure Pending (b b' : Builder) (label : String) : Prop extends Free b' label where
  new : b.nextLabel < labelNumber label

namespace Pending

variable {b b' b'' : Builder} {label : String}

theorem of_takeLabel (h : Grown b b') {stem : String} (hstem : isStem stem) :
    Pending b b'.takeLabel (b'.newLabel stem) where
  toFree := Free.of_takeLabel h.wf hstem
  new := by
    rw [Builder.newLabel, labelNumber_append hstem]
    exact Nat.lt_succ_of_le h.step.nextLabel

theorem step (h : Pending b b' label) (hs : Step b' b'') : Pending b b'' label where
  toFree := h.toFree.step hs
  new := h.new

theorem start (h : Pending b b' label) {other : String} (hne : label ≠ other) :
    Pending b (b'.start other) label where
  toFree := h.toFree.start hne
  new := h.new

end Pending

/-- The current block is ended, and that of a label started. -/
theorem Written.next {b b' : Builder} (h : Written b b') (t : Ir.Terminator) {label : String}
    (hlabel : Pending b b' label) : Grown b ((b'.close t).start label) where
  step := (h.step.trans (Step.close b' t)).start hlabel.new hlabel.number
  wf := (h.wf.close t).start ⟨hlabel.number, hlabel.fresh⟩
  scopes := h.scopes
  jumps := h.jumps
  ended := rfl

theorem Grown.next {b b' : Builder} (h : Grown b b') (t : Ir.Terminator) {label : String}
    (hlabel : Pending b b' label) : Grown b ((b'.finish t).start label) := by
  rw [← Builder.close_of_open h.ended]
  exact h.toWritten.next t hlabel

end ProtoScript.Lowering
