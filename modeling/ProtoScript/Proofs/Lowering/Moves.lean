import ProtoScript.Proofs.Lowering.Site
import ProtoScript.Proofs.Lowering.Steps

set_option autoImplicit false

/-!
# Rules for the steps of lowering

Where a step of lowering succeeds it has done nothing but acts. To show this for a step it suffices to know
little about the site it starts from: which labels control may go to, which labels were made for blocks to
come, and which temporaries are surely defined. This is a stage of writing; `Moves` says that a step
leads from one stage to another, and there is one rule for each thing a step can do.

A step that starts the blocks of all labels it makes can be looked at on its own, from the point where it
begins (`Moves.nest`). Expressions and statements are of this kind.
-/

namespace ProtoScript

open Ir

namespace Lowering

variable {α β : Type}

/-! ## Steps that have succeeded -/

theorem Runs.of_bind {c : Context} {m : Lower α} {f : α → Lower β} {b b' : Builder} {d : β}
    (h : Runs c (m >>= f) b d b') : ∃ a b₁, Runs c m b a b₁ ∧ Runs c (f a) b₁ d b' := by
  have hstep : (m >>= f) c b = (m c b >>= fun r => f r.1 c r.2) := rfl
  unfold Runs at h
  rw [hstep] at h
  cases hm : m c b with
  | error e =>
      rw [hm] at h
      cases h
  | ok r =>
      rw [hm] at h
      exact ⟨r.1, r.2, hm, h⟩

/-- If the step succeeds it has done nothing but acts, and they lead to a site with the given property. -/
def Builds (m : Lower α) (s : Site) (Q : α → Site → Prop) : Prop :=
  ∀ c a b, Runs c m s.builder a b → ∃ s', s'.builder = b ∧ Acts s s' ∧ Q a s'

section

variable {m : Lower α} {s : Site} {P Q : α → Site → Prop}

theorem Builds.mono (h : Builds m s P) (hPQ : ∀ a s', P a s' → Q a s') : Builds m s Q := by
  intro c a b hrun
  obtain ⟨s', hb, hacts, hP⟩ := h c a b hrun
  exact ⟨s', hb, hacts, hPQ a s' hP⟩

theorem Builds.bind {f : α → Lower β} {R : β → Site → Prop} (h : Builds m s P)
    (hf : ∀ a s', P a s' → Builds (f a) s' R) : Builds (m >>= f) s R := by
  intro c d b hrun
  obtain ⟨a, b₁, hm, hrest⟩ := hrun.of_bind
  obtain ⟨s₁, rfl, hacts, hP⟩ := h c a b₁ hm
  obtain ⟨s', hb, hacts', hR⟩ := hf a s₁ hP c d b hrest
  exact ⟨s', hb, hacts.trans hacts', hR⟩

/-- A step whose result is known. -/
theorem builds_of_runs (a : α) (s' : Site) (hrun : ∀ c, Runs c m s.builder a s'.builder) (hacts : Acts s s')
    (hQ : Q a s') : Builds m s Q := by
  intro c a' b h
  have heq := (hrun c).symm.trans h
  cases heq
  exact ⟨s', rfl, hacts, hQ⟩

/-- The first step has a known result. -/
theorem builds_bind {f : α → Lower β} {R : β → Site → Prop} (a : α) (s' : Site)
    (hrun : ∀ c, Runs c m s.builder a s'.builder) (hacts : Acts s s') (hf : Builds (f a) s' R) :
    Builds (m >>= f) s R := by
  refine Builds.bind (builds_of_runs a s' hrun hacts ⟨rfl, rfl⟩) (P := fun a' s'' => a' = a ∧ s'' = s') ?_
  rintro _ _ ⟨rfl, rfl⟩
  exact hf

theorem builds_pure {a : α} (hQ : Q a s) : Builds (pure a) s Q :=
  builds_of_runs a s (fun _ => rfl) .refl hQ

theorem builds_fail (cause : Cause) : Builds (fail cause) s Q := by
  intro c a b h
  cases h

end

/-! ## What a site keeps -/

/-- The labels a `break` or `continue` may go to. -/
def JumpTargets.labels (t : JumpTargets) : List String := t.breakLabel :: t.continueLabel.toList

namespace Site

/-- The second site is inside the same loops and `try` regions, and no less is promised and defined there. -/
structure Reaches (s s' : Site) : Prop where
  promises : s.promises ⊆ s'.promises
  defined : s.defined ⊆ s'.defined
  depth : s'.builder.tryDepth = s.builder.tryDepth
  jumps : s'.builder.jumps = s.builder.jumps

/-- Wherever a `break` or `continue` goes, it may go from here. -/
def Targeted (s : Site) : Prop :=
  ∀ t ∈ s.builder.jumps, t.tryDepth ≤ s.builder.tryDepth ∧
    ∀ l ∈ t.labels, Fact.Meets ⟨s.defined, t.tryDepth⟩ s.promises l

namespace Reaches

variable {s s' s'' : Site}

theorem refl (s : Site) : s.Reaches s :=
  ⟨List.Subset.refl _, List.Subset.refl _, rfl, rfl⟩

theorem trans (h : s.Reaches s') (h' : s'.Reaches s'') : s.Reaches s'' where
  promises := List.Subset.trans h.promises h'.promises
  defined := List.Subset.trans h.defined h'.defined
  depth := h'.depth.trans h.depth
  jumps := h'.jumps.trans h.jumps

/-- Control may go on to the same labels. -/
theorem meets (h : s.Reaches s') {facts : Facts} {l : String} (hl : s.here.Meets facts l) :
    s'.here.Meets facts l := hl.mono (List.Subset.refl _) h.defined h.depth

theorem targeted (h : s.Reaches s') (hs : s.Targeted) : s'.Targeted := by
  intro t ht
  rw [h.jumps] at ht
  obtain ⟨hle, hmeets⟩ := hs t ht
  refine ⟨?_, fun l hl => (hmeets l hl).mono h.promises h.defined rfl⟩
  rw [h.depth]
  exact hle

theorem write (h : s.Reaches s') {i : Instr}
    (hdepth : i.depthAfter s'.builder.tryDepth = s'.builder.tryDepth) : s.Reaches (s'.write i) where
  promises := h.promises
  defined := List.Subset.trans h.defined (List.subset_append_right _ _)
  depth := hdepth.trans h.depth
  jumps := h.jumps

theorem withScopes (h : s.Reaches s') (scopes : Frames String) : s.Reaches (s'.withScopes scopes) :=
  ⟨h.promises, h.defined, h.depth, h.jumps⟩

end Reaches

end Site

/-! ## Stages -/

/-- What is known about a site while a statement or expression is written. -/
structure Stage where
  /-- Control may go to these labels. -/
  targets : List String
  /-- These labels were made for blocks to come. -/
  todo : List String
  /-- If the current block is open, temporaries that are defined. -/
  known : Option (List Temp)

/-- The site is at the given stage of what was begun at the site `s₀`. -/
structure Site.At (s₀ : Site) (p : Stage) (s : Site) : Prop where
  reaches : s₀.Reaches s
  targets : ∀ l ∈ p.targets, s₀.here.Meets s.promises l
  todo : ∀ l ∈ p.todo, (l, s₀.here) ∈ s.promises
  pending : s.pending.Perm (p.todo ++ s₀.pending)
  known : ∀ ts ∈ p.known, s.IsOpen ∧ ts ⊆ s.defined

/-- The step leads from one stage to another, if the temporaries `base` are defined where it all began. -/
def Moves (base : List Temp) (p : Stage) (m : Lower α) (q : α → Stage) : Prop :=
  ∀ s₀ s : Site, s₀.Targeted → base ⊆ s₀.defined → s₀.At p s → Builds m s fun a => s₀.At (q a)

namespace Site.At

variable {s₀ s : Site} {targets todo : List String} {known : List Temp} {k : Option (List Temp)}
  {p : Stage}

/-- Behind a statement all labels that were made for it are placed. -/
theorem of_reaches (h : s₀.Reaches s) (hpending : s.pending.Perm s₀.pending) : s₀.At ⟨[], [], none⟩ s :=
  ⟨h, nofun, nofun, hpending, nofun⟩

theorem self (s : Site) : s.At ⟨[], [], none⟩ s := of_reaches (.refl s) (List.Perm.refl _)

theorem refl {s : Site} (hopen : s.IsOpen) (hknown : known ⊆ s.defined) :
    s.At ⟨[], [], some known⟩ s :=
  ⟨.refl s, nofun, nofun, List.Perm.refl _, fun _ hts => Option.mem_some.1 hts ▸ ⟨hopen, hknown⟩⟩

theorem isOpen (h : s₀.At ⟨targets, todo, some known⟩ s) : s.IsOpen := (h.known known rfl).1

theorem subset (h : s₀.At ⟨targets, todo, some known⟩ s) : known ⊆ s.defined := (h.known known rfl).2

theorem meets (h : s₀.At p s) {l : String} (hl : l ∈ p.targets) : s.here.Meets s.promises l :=
  h.reaches.meets (h.targets l hl)

/-- Less is known. -/
theorem of_subset {targets' : List String} {k' : Option (List Temp)} (h : s₀.At ⟨targets, todo, k⟩ s)
    (htargets : targets' ⊆ targets) (hknown : ∀ ts' ∈ k', ∃ ts ∈ k, ts' ⊆ ts) :
    s₀.At ⟨targets', todo, k'⟩ s := by
  refine ⟨h.reaches, fun l hl => h.targets l (htargets hl), h.todo, h.pending, fun ts' hts' => ?_⟩
  obtain ⟨ts, hts, hsub⟩ := hknown ts' hts'
  obtain ⟨hopen, hdefined⟩ := h.known ts hts
  exact ⟨hopen, List.Subset.trans hsub hdefined⟩

/-- Nothing is known about the current block any more. -/
theorem forget (h : s₀.At ⟨targets, todo, k⟩ s) : s₀.At ⟨targets, todo, none⟩ s :=
  h.of_subset (List.Subset.refl _) nofun

theorem write (h : s₀.At ⟨targets, todo, some known⟩ s) {i : Instr}
    (hdepth : i.depthAfter s.builder.tryDepth = s.builder.tryDepth) :
    s₀.At ⟨targets, todo, some (i.dest?.toList ++ known)⟩ (s.write i) where
  reaches := h.reaches.write hdepth
  targets := h.targets
  todo := h.todo
  pending := h.pending
  known ts hts := by
    cases hts
    refine ⟨h.isOpen, List.append_subset.2 ⟨List.subset_append_left _ _, ?_⟩⟩
    exact List.Subset.trans h.subset (List.subset_append_right _ _)

theorem withScopes (h : s₀.At p s) (scopes : Frames String) : s₀.At p (s.withScopes scopes) :=
  ⟨h.reaches.withScopes scopes, h.targets, h.todo, h.pending, h.known⟩

/-- A stage of a part that began at `s` is one of the whole. -/
theorem trans {targets' : List String} {s' : Site} (h : s₀.At ⟨targets, todo, k⟩ s) {k' : Option (List Temp)}
    (h' : s.At ⟨targets', [], k'⟩ s') : s₀.At ⟨targets, todo, k'⟩ s' where
  reaches := h.reaches.trans h'.reaches
  targets l hl := (h.targets l hl).of_subset h'.reaches.promises
  todo l hl := h'.reaches.promises (h.todo l hl)
  pending := h'.pending.trans h.pending
  known := h'.known

end Site.At

section

variable {base known : List Temp} {targets todo : List String} {k : Option (List Temp)} {p : Stage}
  {m : Lower α} {q : α → Stage}

/-! ## Composition -/

theorem Moves.bind {f : α → Lower β} {r : β → Stage} (hm : Moves base p m q)
    (hf : ∀ a, Moves base (q a) (f a) r) : Moves base p (m >>= f) r := by
  intro s₀ s htargeted hbase hs
  exact (hm s₀ s htargeted hbase hs).bind fun a s' hs' => hf a s₀ s' htargeted hbase hs'

/-- Every result of the step has the property. -/
theorem Moves.bind_of_runs {φ : α → Prop} {f : α → Lower β} {r : β → Stage} (hm : Moves base p m q)
    (hφ : ∀ c b a b', Runs c m b a b' → φ a) (hf : ∀ a, φ a → Moves base (q a) (f a) r) :
    Moves base p (m >>= f) r := by
  intro s₀ s htargeted hbase hs c d b hrun
  obtain ⟨a, b₁, hrun₁, hrest⟩ := hrun.of_bind
  obtain ⟨s₁, rfl, hacts, hs₁⟩ := hm s₀ s htargeted hbase hs c a b₁ hrun₁
  obtain ⟨s', hb, hacts', hs'⟩ := hf a (hφ c _ a _ hrun₁) s₀ s₁ htargeted hbase hs₁ c d b hrest
  exact ⟨s', hb, hacts.trans hacts', hs'⟩

theorem moves_pure {a : α} (h : q a = p) : Moves base p (pure a) q := by
  intro s₀ s _ _ hs
  rw [← h] at hs
  exact builds_pure hs

theorem moves_fail (cause : Cause) : Moves base p (fail cause : Lower α) q :=
  fun _ _ _ _ _ => builds_fail cause

/-- The labels to come are in any order. -/
theorem Moves.perm {todo' : List String} (hperm : todo.Perm todo')
    (hm : Moves base ⟨targets, todo', k⟩ m q) : Moves base ⟨targets, todo, k⟩ m q := by
  intro s₀ s htargeted hbase hs
  refine hm s₀ s htargeted hbase ⟨hs.reaches, hs.targets, fun l hl => hs.todo l ?_, ?_, hs.known⟩
  · exact hperm.mem_iff.2 hl
  · exact hs.pending.trans (hperm.append_right _)

/-- Less is used than is known. -/
theorem Moves.of_subset {targets' : List String} {known' : List Temp} (htargets : targets' ⊆ targets)
    (hknown : known' ⊆ known) (hm : Moves base ⟨targets', todo, some known'⟩ m q) :
    Moves base ⟨targets, todo, some known⟩ m q := by
  intro s₀ s htargeted hbase hs
  refine hm s₀ s htargeted hbase (hs.of_subset htargets fun ts' hts' => ?_)
  cases hts'
  exact ⟨known, rfl, hknown⟩

/-- The step does not need an open block. -/
theorem Moves.anywhere (hm : Moves base ⟨targets, todo, none⟩ m q) :
    Moves base ⟨targets, todo, k⟩ m q :=
  fun s₀ s htargeted hbase hs => hm s₀ s htargeted hbase hs.forget

/-- More is known than is needed. -/
theorem Moves.keep {known known' : α → List Temp}
    (hm : Moves base p m fun a => ⟨targets, todo, some (known a)⟩) (hknown : ∀ a, known' a ⊆ known a) :
    Moves base p m fun a => ⟨targets, todo, some (known' a)⟩ := by
  intro s₀ s htargeted hbase hs
  refine (hm s₀ s htargeted hbase hs).mono fun a s' hs' => ?_
  refine hs'.of_subset (List.Subset.refl _) fun ts' hts' => ?_
  cases hts'
  exact ⟨known a, rfl, hknown a⟩

/-- Nothing has to be known about the current block at the end, and not all labels are targets for what
follows. -/
theorem Moves.forget {targets' : List String} {k' : α → Option (List Temp)}
    (hm : Moves base p m fun a => ⟨targets, todo, k' a⟩) (htargets : targets' ⊆ targets) :
    Moves base p m fun _ => ⟨targets', todo, none⟩ :=
  fun s₀ s htargeted hbase hs =>
    (hm s₀ s htargeted hbase hs).mono fun _ _ h => h.of_subset htargets nofun

/-- A step that starts the blocks of all labels it makes can be looked at on its own. -/
theorem Moves.nest {targets' : List String} {k' : α → Option (List Temp)}
    (hm : Moves known ⟨targets', [], some known⟩ m fun a => ⟨targets', [], k' a⟩)
    (htargets : targets' ⊆ targets) :
    Moves base ⟨targets, todo, some known⟩ m fun a => ⟨targets, todo, k' a⟩ := by
  intro s₀ s htargeted _ hs
  have hself : s.At ⟨targets', [], some known⟩ s :=
    { Site.At.refl hs.isOpen hs.subset with targets := fun l hl => hs.meets (htargets hl) }
  have hbuilds := hm s s (hs.reaches.targeted htargeted) hs.subset hself
  exact hbuilds.mono fun a s' hs' => hs.trans hs'

end

end Lowering

/-! ## Instructions -/

/-- The instruction declares no variable, and opens and closes no `try` region. -/
def Ir.Instr.isPlain : Instr → Bool
  | varDecl .. | setupTry _ | endTry => false
  | _ => true

theorem Ir.Instr.isPlain_of_dest? {i : Instr} {t : Temp} (h : i.dest? = some t) : i.isPlain := by
  cases i with
  | varDecl | setupTry | endTry => cases h
  | _ => rfl

theorem Ir.Instr.depthAfter_of_isPlain {i : Instr} (h : i.isPlain) (depth : Nat) :
    i.depthAfter depth = depth := by
  cases i with
  | setupTry | endTry => cases h
  | _ => rfl

theorem Ir.Instr.declared?_of_isPlain {i : Instr} (h : i.isPlain) : i.declared? = none := by
  cases i with
  | varDecl => cases h
  | _ => rfl

theorem Ir.Fact.allows_of_isPlain {x : Fact} {facts : Facts} {i : Instr} (h : i.isPlain)
    (hreads : i.operands ⊆ x.defined) : x.Allows facts i := by
  refine ⟨hreads, fun l hl => ?_, fun heq => ?_⟩
  · cases i with
    | setupTry => cases h
    | _ => cases hl
  · rw [heq] at h
    cases h

namespace Lowering

/-- Instructions with and without a result differ in the temporary that is given out. -/
theorem Builder.write_of_isPlain {b : Builder} {i : Instr} (h : i.isPlain) :
    b.write i = { b with code := b.code ++ [i], nextTemp := b.nextTemp + i.dest?.toList.length } := by
  unfold Builder.write
  rw [Instr.declared?_of_isPlain h, Instr.depthAfter_of_isPlain h]
  rfl

theorem Act.plain {s : Site} {i : Instr} (hopen : s.IsOpen) (hplain : i.isPlain)
    (hdest : ∀ t ∈ i.dest?, t = s.builder.nextTemp) (hreads : i.operands ⊆ s.defined) :
    Act s (s.write i) := by
  refine .write hopen (Fact.allows_of_isPlain hplain hreads) hdest ?_
  rw [Instr.declared?_of_isPlain hplain]
  exact nofun

section

variable {α : Type} {base known : List Temp} {targets todo : List String} {k : Option (List Temp)}

/-- An instruction without a result. -/
theorem moves_emit {i : Instr} (hplain : i.isPlain) (hdest : i.dest? = none)
    (hreads : i.operands ⊆ known) :
    Moves base ⟨targets, todo, some known⟩ (emit i) fun _ => ⟨targets, todo, some known⟩ := by
  intro s₀ s _ _ hs
  have hact : Act s (s.write i) := by
    refine .plain hs.isOpen hplain ?_ (List.Subset.trans hreads hs.subset)
    rw [hdest]
    exact nofun
  have hwrite := hs.write (Instr.depthAfter_of_isPlain hplain _)
  rw [hdest] at hwrite
  refine builds_of_runs () (s.write i) (fun _ => ?_) (.single hact) hwrite
  have hbuilder : (s.write i).builder = s.builder.emit i := by
    show s.builder.write i = _
    rw [Builder.write_of_isPlain hplain, hdest]
    rfl
  rw [hbuilder]
  exact runs_emit i

/-- An instruction with a result. -/
theorem moves_emitValue {make : Temp → Instr} (hdest : ∀ t, (make t).dest? = some t)
    (hreads : ∀ t, (make t).operands ⊆ known) :
    Moves base ⟨targets, todo, some known⟩ (emitValue make)
      fun t => ⟨targets, todo, some (t :: known)⟩ := by
  intro s₀ s _ _ hs
  generalize hi : make s.builder.nextTemp = i
  have hd : i.dest? = some s.builder.nextTemp := hi ▸ hdest _
  have hplain := Instr.isPlain_of_dest? hd
  have hact : Act s (s.write i) := by
    refine .plain hs.isOpen hplain ?_ (List.Subset.trans (hi ▸ hreads _) hs.subset)
    rw [hd]
    exact fun t ht => (Option.mem_some.1 ht).symm
  have hwrite := hs.write (Instr.depthAfter_of_isPlain hplain _)
  rw [hd] at hwrite
  refine builds_of_runs s.builder.nextTemp (s.write i) (fun _ => ?_) (.single hact) hwrite
  have hbuilder : (s.write i).builder = s.builder.takeTemp.emit i := by
    show s.builder.write i = _
    rw [Builder.write_of_isPlain hplain, hd]
    rfl
  rw [hbuilder, ← hi]
  exact runs_emitValue make

/-- The declaration of a variable under a free name. -/
theorem moves_declare (name : String) (ty : Ty) :
    Moves base ⟨targets, todo, some known⟩ (declare name ty)
      fun _ => ⟨targets, todo, some known⟩ := by
  intro s₀ s _ _ hs
  have hact : Act s (s.write (.varDecl (freeName s.builder.used name) ty)) := by
    refine .write hs.isOpen ⟨List.nil_subset _, nofun, nofun⟩ nofun fun y hy => ?_
    cases hy
    exact freeName_not_mem _ _
  exact builds_of_runs _ _ (fun _ => runs_declare name ty) (.single hact)
    (hs.write (i := .varDecl (freeName s.builder.used name) ty) rfl)

/-! ## Labels and blocks -/

/-- A label for a block to come. It is promised what holds where all began. -/
theorem moves_freshLabel {stem : String} (hstem : isStem stem) :
    Moves base ⟨targets, todo, k⟩ (freshLabel stem)
      fun l => ⟨l :: targets, todo ++ [l], k⟩ := by
  intro s₀ s _ _ hs
  refine builds_of_runs _ (s.promise stem s₀.here) (fun _ => runs_freshLabel stem)
    (.single (.promise _ hstem)) ?_
  have hpromises : s.promises ⊆ (s.promise stem s₀.here).promises := List.subset_cons_self _ _
  refine ⟨?_, fun l hl => ?_, fun l hl => ?_, ?_, hs.known⟩
  · exact ⟨List.Subset.trans hs.reaches.promises hpromises, hs.reaches.defined, hs.reaches.depth,
      hs.reaches.jumps⟩
  · rcases List.mem_cons.1 hl with rfl | hl
    · exact ⟨s₀.here, List.mem_cons_self, List.Subset.refl _, rfl⟩
    · exact (hs.targets l hl).of_subset hpromises
  · rcases List.mem_append.1 hl with hl | hl
    · exact hpromises (hs.todo l hl)
    · rw [List.mem_singleton.1 hl]
      exact List.mem_cons_self
  · rw [List.append_assoc]
    exact (hs.pending.cons _).trans List.perm_middle.symm

/-- The block of a label is started. What was defined where all began is defined there. -/
theorem moves_startBlock {label : String} :
    Moves base ⟨targets, label :: todo, k⟩ (startBlock label)
      fun _ => ⟨targets, todo, some base⟩ := by
  intro s₀ s _ hbase hs
  have hact : Act s (s.start label s₀.here (todo ++ s₀.pending)) :=
    .start (hs.todo label List.mem_cons_self) hs.reaches.depth.symm hs.pending
  refine builds_of_runs () (s.start label s₀.here (todo ++ s₀.pending))
    (fun _ => runs_startBlock label) (.single hact) ?_
  refine ⟨?_, hs.targets, fun l hl => hs.todo l (List.mem_cons_of_mem _ hl), List.Perm.refl _, ?_⟩
  · exact ⟨hs.reaches.promises, List.Subset.refl _, hs.reaches.depth, hs.reaches.jumps⟩
  · intro ts hts
    cases hts
    exact ⟨rfl, hbase⟩

/-- A block is ended, unless it has ended before. -/
theorem Site.At.endWith {s₀ s : Site} {t : Terminator} (hs : s₀.At ⟨targets, todo, k⟩ s)
    (hend : s.IsOpen → s.here.AllowsEnd s.promises t) :
    Builds (endWith t) s fun _ => s₀.At ⟨targets, todo, none⟩ := by
  cases hended : s.builder.ended with
  | none =>
      refine builds_of_runs () (s.finish t) (fun _ => runs_endWith hended t)
        (.single (.finish hended (hend hended))) ?_
      exact ⟨⟨hs.reaches.promises, hs.reaches.defined, hs.reaches.depth, hs.reaches.jumps⟩, hs.targets,
        hs.todo, hs.pending, nofun⟩
  | some t' =>
      have hsame : s.builder.close t = s.builder := by
        unfold Builder.close
        rw [hended]
        show ({ s.builder with ended := some t' } : Builder) = s.builder
        rw [← hended]
      refine builds_of_runs () s (fun c => ?_) .refl hs.forget
      have hrun := runs_close (c := c) (b := s.builder) t
      rw [hsame] at hrun
      exact hrun

/-- The end of an open block, from which control stays in the function. -/
theorem moves_endWith {t : Terminator} (hreads : t.operands ⊆ known)
    (htargets : t.successors ⊆ targets) (hstays : t.isReturn = false) :
    Moves base ⟨targets, todo, some known⟩ (endWith t) fun _ => ⟨targets, todo, none⟩ := by
  intro s₀ s _ _ hs
  refine hs.endWith fun _ => ⟨List.Subset.trans hreads hs.subset, ?_, fun hret => ?_⟩
  · exact fun l hl => hs.meets (htargets hl)
  · rw [hstays] at hret
    cases hret

theorem moves_branch {cond : Temp} {thenLabel elseLabel : String} (hcond : cond ∈ known)
    (hthen : thenLabel ∈ targets) (helse : elseLabel ∈ targets) :
    Moves base ⟨targets, todo, some known⟩ (endWith (.branch cond thenLabel elseLabel))
      fun _ => ⟨targets, todo, none⟩ := by
  refine moves_endWith ?_ ?_ rfl
  · simpa [Terminator.operands] using hcond
  · simpa [Terminator.successors] using ⟨hthen, helse⟩

/-- A jump, unless the block has ended before. -/
theorem moves_jump {label : String} (hlabel : label ∈ targets) :
    Moves base ⟨targets, todo, k⟩ (jump label) fun _ => ⟨targets, todo, none⟩ := by
  intro s₀ s _ _ hs
  refine hs.endWith fun _ => ⟨List.nil_subset _, fun l hl => ?_, nofun⟩
  rw [List.mem_singleton.1 hl]
  exact hs.meets hlabel

/-! ## Names -/

/-- A step that writes nothing. -/
theorem moves_idle {p : Stage} {m : Lower α} (h : ∀ c b a b', Runs c m b a b' → b' = b) :
    Moves base p m fun _ => p := by
  intro s₀ s _ _ hs c a b hrun
  exact ⟨s, (h c _ a b hrun).symm, .refl, hs⟩

theorem moves_get {p : Stage} : Moves base p (get : Lower Builder) fun _ => p := by
  refine moves_idle fun c b a b' hrun => ?_
  cases hrun
  rfl

theorem moves_read {p : Stage} : Moves base p (read : Lower Context) fun _ => p := by
  refine moves_idle fun c b a b' hrun => ?_
  cases hrun
  rfl

theorem moves_varOf? {p : Stage} (x : String) : Moves base p (varOf? x) fun _ => p := by
  refine moves_idle fun c b a b' hrun => ?_
  cases hrun
  rfl

theorem moves_typeOf {p : Stage} (e : Expr) : Moves base p (typeOf e) fun _ => p := by
  unfold typeOf
  split
  · exact moves_pure rfl
  · exact moves_fail _

/-- Names may stand for anything. -/
theorem moves_rescope {p : Stage} (f : Frames String → Frames String) :
    Moves base p (modify fun b => { b with scopes := f b.scopes }) fun _ => p := by
  intro s₀ s _ _ hs
  exact builds_of_runs () (s.withScopes (f s.builder.scopes)) (fun _ => rfl) (.single (.withScopes _))
    (hs.withScopes _)

theorem moves_bindName {p : Stage} (x y : String) : Moves base p (bindName x y) fun _ => p := by
  intro s₀ s _ _ hs
  exact builds_of_runs () (s.withScopes (Frames.declare x y s.builder.scopes))
    (fun _ => runs_bindName x y) (.single (.withScopes _)) (hs.withScopes _)

theorem moves_declareVar (x : String) (ty : Ty) :
    Moves base ⟨targets, todo, some known⟩ (declareVar x ty)
      fun _ => ⟨targets, todo, some known⟩ :=
  (moves_declare x ty).bind fun _ => (moves_bindName _ _).bind fun _ => moves_pure rfl

theorem moves_declareJoin (ty : Ty) :
    Moves base ⟨targets, todo, some known⟩ (declareJoin ty)
      fun _ => ⟨targets, todo, some known⟩ :=
  moves_get.bind fun _ => moves_declare _ ty

theorem Moves.inScope {p : Stage} {m : Lower α} {q : α → Stage} (hm : Moves base p m q) :
    Moves base p (inScope m) q :=
  (moves_rescope fun scopes => [] :: scopes).bind fun _ => hm.bind fun _ =>
    (moves_rescope List.tail).bind fun _ => moves_pure rfl

theorem Moves.withoutLocals {p : Stage} {m : Lower α} {q : α → Stage} (hm : Moves base p m q) :
    Moves base p (withoutLocals m) q :=
  moves_get.bind fun _ => (moves_rescope fun _ => [[]]).bind fun _ => hm.bind fun _ =>
    (moves_rescope fun _ => _).bind fun _ => moves_pure rfl

/-! ## Statements -/

end

/-- From any open block the step leads to the start or the end of some block, and the labels are as
before. -/
structure Settles (m : Lower Unit) : Prop where
  moves : ∀ {base known : List Temp} {targets todo : List String},
    Moves base ⟨targets, todo, some known⟩ m fun _ => ⟨targets, todo, none⟩

/-- The step is a statement, or does nothing because the current block is closed. -/
structure Follows (m : Lower Unit) : Prop where
  moves : ∀ {base : List Temp} {targets todo : List String},
    Moves base ⟨targets, todo, none⟩ m fun _ => ⟨targets, todo, none⟩

/-- It suffices to look at the step on its own. -/
theorem Settles.of_moves {m : Lower Unit}
    (h : ∀ known, Moves known ⟨[], [], some known⟩ m fun _ => ⟨[], [], none⟩) : Settles m :=
  ⟨fun {_ known _ _} => (h known).nest (List.nil_subset _)⟩

theorem Follows.settles {m : Lower Unit} (h : Follows m) : Settles m := ⟨h.moves.anywhere⟩

theorem Settles.inScope {m : Lower Unit} (h : Settles m) : Settles (inScope m) := ⟨h.moves.inScope⟩

theorem Settles.follows {m : Lower Unit} (h : Settles m) : Follows (do if ← isOpen then m) := by
  constructor
  intro base targets todo s₀ s htargeted hbase hs
  refine builds_bind s.builder.ended.isNone s (fun _ => runs_isOpen) .refl ?_
  by_cases hopen : s.builder.ended = none
  · rw [hopen]
    have hstart : s₀.At ⟨targets, todo, some []⟩ s := by
      refine { hs with known := fun ts hts => ?_ }
      cases hts
      exact ⟨hopen, List.nil_subset _⟩
    exact h.moves s₀ s htargeted hbase hstart
  · rw [Option.isNone_eq_false_iff.2 (Option.isSome_iff_ne_none.2 hopen)]
    exact builds_pure hs

/-- From an open block where `break` and `continue` have targets, a statement can be written on its own. -/
theorem Settles.builds {m : Lower Unit} (h : Settles m) {s : Site} (htargeted : s.Targeted)
    (hopen : s.IsOpen) : Builds m s fun _ => s.At ⟨[], [], none⟩ :=
  h.moves s s htargeted (List.nil_subset _) (.refl hopen (List.nil_subset _))

section

variable {α : Type} {base known : List Temp} {targets todo : List String} {k : Option (List Temp)}

/-! ## Detours -/

/-- The sites differ in what is written only. -/
def Site.Alike (s s' : Site) : Prop :=
  s'.promises = s.promises ∧ s'.pending = s.pending ∧ s'.defined = s.defined

/-- A part of what was begun is written inside another loop or `try` region. -/
theorem Site.At.detour {s₀ s s' s₁ s₂ : Site} {k' : Option (List Temp)}
    (hs : s₀.At ⟨targets, todo, k⟩ s) (halike : s.Alike s') (hpart : s'.At ⟨[], [], k'⟩ s₁)
    (halike₁ : s₁.Alike s₂)
    (hdepth : s₂.builder.tryDepth = s.builder.tryDepth)
    (hjumps : s₂.builder.jumps = s.builder.jumps) : s₀.At ⟨targets, todo, none⟩ s₂ := by
  obtain ⟨hpromises, hpending, hdefined⟩ := halike
  obtain ⟨hpromises₁, hpending₁, hdefined₁⟩ := halike₁
  have hmore : s.promises ⊆ s₂.promises := by
    rw [hpromises₁, ← hpromises]
    exact hpart.reaches.promises
  refine ⟨⟨List.Subset.trans hs.reaches.promises hmore, List.Subset.trans hs.reaches.defined ?_, ?_, ?_⟩,
    ?_, ?_, ?_, nofun⟩
  · rw [hdefined₁, ← hdefined]
    exact hpart.reaches.defined
  · exact hdepth.trans hs.reaches.depth
  · exact hjumps.trans hs.reaches.jumps
  · exact fun l hl => (hs.targets l hl).of_subset hmore
  · exact fun l hl => hmore (hs.todo l hl)
  · rw [hpending₁]
    refine hpart.pending.trans ?_
    rw [hpending]
    exact hs.pending

/-- The two steps lead from an open block into an open block where statements can be written, and from behind
these statements back. -/
def Detours (p : Stage) (enter leave : Lower Unit) (q : Stage) : Prop :=
  ∀ s₀ s : Site, s₀.Targeted → s₀.At p s → Builds enter s fun _ s₁ => s₁.Targeted ∧ s₁.IsOpen ∧
    ∀ s₂, s₁.At ⟨[], [], none⟩ s₂ → Builds leave s₂ fun _ => s₀.At q

/-- Statements are written between the two steps. -/
theorem Settles.between {m enter leave : Lower Unit} {rest : Lower α} {p q : Stage} {r : α → Stage}
    (hm : Settles m) (h : Detours p enter leave q) (hrest : Moves base q rest r) :
    Moves base p (do enter; m; leave; rest) r := by
  intro s₀ s htargeted hbase hs
  refine (h s₀ s htargeted hs).bind fun _ s₁ ⟨hinside, hopen, hleave⟩ => ?_
  refine (hm.builds hinside hopen).bind fun _ s₂ hs₂ => ?_
  exact (hleave s₂ hs₂).bind fun _ s₃ hs₃ => hrest s₀ s₃ htargeted hbase hs₃

/-! ## Loops -/

/-- Inside the loop `break` and `continue` have new targets; behind it they have the old ones. -/
theorem detours_loop {breakLabel : String} {continueLabel : Option String} (hbreak : breakLabel ∈ targets)
    (hcontinue : ∀ l ∈ continueLabel, l ∈ targets) :
    Detours ⟨targets, todo, some known⟩ (enterLoop breakLabel continueLabel) leaveLoop
      ⟨targets, todo, none⟩ := by
  intro s₀ s htargeted hs
  generalize hjumps : (⟨breakLabel, continueLabel, s.builder.tryDepth⟩ : JumpTargets) ::
    s.builder.jumps = jumps
  have hinside : (s.jumpingTo jumps).Targeted := by
    intro t ht
    have hmem : t ∈ jumps := ht
    rw [← hjumps] at hmem
    rcases List.mem_cons.1 hmem with rfl | hmem
    · refine ⟨Nat.le_refl _, fun l hl => hs.meets ?_⟩
      rcases List.mem_cons.1 hl with rfl | hl
      · exact hbreak
      · exact hcontinue l (Option.mem_toList.1 hl)
    · exact hs.reaches.targeted htargeted t hmem
  refine builds_of_runs () (s.jumpingTo jumps) (fun _ => ?_) (.single (.jumpingTo jumps))
    ⟨hinside, hs.isOpen, fun s₁ hs₁ => ?_⟩
  · show Runs _ _ s.builder () (s.builder.jumpingTo jumps)
    rw [← hjumps]
    exact runs_modify _
  · have hback : s₁.builder.jumps.tail = s.builder.jumps := by
      rw [hs₁.reaches.jumps]
      show jumps.tail = s.builder.jumps
      rw [← hjumps]
      rfl
    have halike : s.Alike (s.jumpingTo jumps) := ⟨rfl, rfl, rfl⟩
    have hafter : s₀.At ⟨targets, todo, none⟩ (s₁.jumpingTo s₁.builder.jumps.tail) :=
      hs.detour halike hs₁ ⟨rfl, rfl, rfl⟩ hs₁.reaches.depth hback
    exact builds_of_runs () _ (fun _ => runs_modify _) (.single (.jumpingTo _)) hafter

theorem Settles.withJumps {breakLabel : String} {continueLabel : Option String} {m : Lower Unit}
    (hm : Settles m) (hbreak : breakLabel ∈ targets) (hcontinue : ∀ l ∈ continueLabel, l ∈ targets) :
    Moves base ⟨targets, todo, some known⟩ (withJumps breakLabel continueLabel m)
      fun _ => ⟨targets, todo, none⟩ := by
  rw [withJumps_eq]
  exact hm.between (detours_loop hbreak hcontinue) (moves_pure rfl)

/-! ## Regions of exceptions -/

/-- The site with a number of `try` regions closed. -/
def Site.unwound (s : Site) (n : Nat) : Site :=
  { s with
    builder := { s.builder with
      code := s.builder.code ++ List.replicate n .endTry
      tryDepth := s.builder.tryDepth - n } }

theorem Site.acts_unwound {s : Site} (hopen : s.IsOpen) {n : Nat} (hn : n ≤ s.builder.tryDepth) :
    Acts s (s.unwound n) := by
  induction n with
  | zero =>
      have heq : s.unwound 0 = s := by
        unfold Site.unwound
        rw [List.replicate_zero, List.append_nil, Nat.sub_zero]
      rw [heq]
  | succ n ih =>
      have hact : Act (s.unwound n) ((s.unwound n).write .endTry) := by
        refine .write hopen ⟨List.nil_subset _, nofun, fun _ => ?_⟩ nofun nofun
        show 0 < s.builder.tryDepth - n
        omega
      have heq : (s.unwound n).write .endTry = s.unwound (n + 1) := by
        unfold Site.unwound Site.write Builder.write
        rw [List.replicate_succ', List.append_assoc, Nat.sub_add_eq]
        rfl
      rw [heq] at hact
      exact (ih (by omega)).tail hact

/-- Regions are closed, and control leaves the block. What follows is again inside of them. -/
theorem builds_leave {s₀ s : Site} {t : Terminator} {depth : Nat} (hs : s₀.At ⟨targets, todo, k⟩ s)
    (hopen : s.IsOpen) (hle : depth ≤ s.builder.tryDepth)
    (hend : Fact.AllowsEnd ⟨s.defined, depth⟩ s.promises t) :
    Builds (do unwindTo depth; endWith t) s fun _ => s₀.At ⟨targets, todo, none⟩ := by
  generalize hn : s.builder.tryDepth - depth = n
  have hdepth : s.builder.tryDepth - n = depth := by omega
  have hclosed : Acts s (s.unwound n) := Site.acts_unwound hopen (by omega)
  have hleft : Act (s.unwound n) ((s.unwound n).finish t) := by
    refine .finish hopen ?_
    show Fact.AllowsEnd ⟨s.defined, s.builder.tryDepth - n⟩ s.promises t
    rw [hdepth]
    exact hend
  have hback : Act ((s.unwound n).finish t) (((s.unwound n).finish t).atDepth s.builder.tryDepth) :=
    .atDepth _ rfl
  refine builds_of_runs () (((s.unwound n).finish t).atDepth s.builder.tryDepth) (fun c => ?_)
    ((hclosed.tail hleft).tail hback) ?_
  · refine Runs.bind (runs_modify _) ?_
    rw [hn]
    exact runs_endWith (b := { s.builder with code := s.builder.code ++ List.replicate n .endTry }) hopen t
  · exact ⟨⟨hs.reaches.promises, hs.reaches.defined, hs.reaches.depth, hs.reaches.jumps⟩, hs.targets,
      hs.todo, hs.pending, nofun⟩

theorem runs_leaveTry {c : Context} {b : Builder} (h : b.ended = none) :
    Runs c leaveTry b () { b with code := b.code ++ [.endTry], tryDepth := b.tryDepth - 1 } := by
  refine (runs_modify _).bind (runs_isOpen.bind ?_)
  show Runs c (if b.ended.isNone then emit .endTry else pure ()) _ _ _
  rw [h]
  exact runs_emit _

/-- If the statements inside of a `try` region leave their block open the region is closed there; otherwise
control has left the region before. -/
theorem detours_try {handler : String} (hhandler : handler ∈ targets) :
    Detours ⟨targets, todo, some known⟩ (enterTry handler) leaveTry ⟨targets, todo, none⟩ := by
  intro s₀ s htargeted hs
  have hopens : Act s (s.write (.setupTry handler)) := by
    refine .write hs.isOpen ⟨List.nil_subset _, fun l hl => ?_, nofun⟩ nofun nofun
    cases hl
    exact hs.meets hhandler
  have hinside : (s.write (.setupTry handler)).Targeted := by
    intro t ht
    obtain ⟨hle, hmeets⟩ := hs.reaches.targeted htargeted t ht
    exact ⟨Nat.le_succ_of_le hle, hmeets⟩
  -- The instruction and the depth are written apart; behind both is the site of the act.
  refine builds_of_runs () (s.write (.setupTry handler)) (fun _ => rfl) (.single hopens)
    ⟨hinside, hs.isOpen, fun s₁ hs₁ => ?_⟩
  have hdepth : s₁.builder.tryDepth = s.builder.tryDepth + 1 := hs₁.reaches.depth
  have hback : s₁.builder.tryDepth - 1 = s.builder.tryDepth := by omega
  have halike : s.Alike (s.write (.setupTry handler)) := ⟨rfl, rfl, rfl⟩
  cases hended : s₁.builder.ended with
  | none =>
      have hcloses : Act s₁ (s₁.write .endTry) := by
        refine .write hended ⟨List.nil_subset _, nofun, fun _ => ?_⟩ nofun nofun
        show 0 < s₁.builder.tryDepth
        omega
      have hafter : s₀.At ⟨targets, todo, none⟩ (s₁.write .endTry) :=
        hs.detour halike hs₁ ⟨rfl, rfl, rfl⟩ hback hs₁.reaches.jumps
      exact builds_of_runs () (s₁.write .endTry) (fun _ => runs_leaveTry hended) (.single hcloses) hafter
  | some t =>
      -- Whatever ended the block has closed the region; only the depth is set back.
      have hafter : s₀.At ⟨targets, todo, none⟩ (s₁.atDepth (s₁.builder.tryDepth - 1)) :=
        hs.detour halike hs₁ ⟨rfl, rfl, rfl⟩ hback hs₁.reaches.jumps
      refine builds_bind () (s₁.atDepth (s₁.builder.tryDepth - 1)) (fun _ => runs_modify _)
        (.single (.atDepth _ hended)) ?_
      refine builds_bind s₁.builder.ended.isNone _ (fun _ => runs_isOpen) .refl ?_
      rw [hended]
      exact builds_pure hafter

end

end Lowering

end ProtoScript
