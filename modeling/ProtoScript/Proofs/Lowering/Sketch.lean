import ProtoScript.Proofs.Ir.Paths
import ProtoScript.Proofs.Lowering.Scopes

set_option autoImplicit false

/-!
# A function while claims are made about it

To make claims about the paths of a lowered function one goes along with lowering: when a label is made, what
is to hold there is claimed, and where control is sent to the label, the claim has to hold. A sketch is a
builder with the claims so far and with what holds at the current point. It is sound if every block keeps to
the law and the claims as far as it is written (`Sketch.Sound`).

`Draws` is the judgement that a step of lowering leads from one sound sketch to another. There is one rule for
each thing a step can do; a step that is put together of others is looked at by these rules alone.
-/

namespace ProtoScript.Lowering

open Ir

variable {H : Type} {α β : Type}

/-- A function while it is written, with what is claimed of it. -/
structure Sketch (H : Type) where
  builder : Builder
  /-- What is claimed at the labels that were made. -/
  claims : Claims H
  /-- What holds of everything that may be remembered at the current point. -/
  here : H → Prop

namespace Sketch

/-- The current block is open, and `A` holds at the current point. -/
structure At (s : Sketch H) (A : H → Prop) : Prop where
  isOpen : s.builder.ended = none
  holds : ∀ x, s.here x → A x

/-- If the current block is open, `A` holds at the current point. -/
def Ends (s : Sketch H) (A : H → Prop) : Prop := s.builder.ended = none → ∀ x, s.here x → A x

/-- The current block has its terminator. -/
def Closed (s : Sketch H) : Prop := s.builder.ended.isSome

/-- The second sketch has come from the first by writing more. -/
structure Grows (s s' : Sketch H) : Prop where
  claims : s.claims ⊆ s'.claims
  nextTemp : s.builder.nextTemp ≤ s'.builder.nextTemp
  used : s.builder.used ⊆ s'.builder.used

/-- Labels have one claim each, and every block keeps to the law and the claims, the current one as far as it
is written. -/
structure Sound (law : Law H) (s : Sketch H) : Prop where
  nodup : (s.claims.map Prod.fst).Nodup
  numbers : ∀ l ∈ s.claims.map Prod.fst, labelNumber l ≤ s.builder.nextLabel
  entry : s.claims.Met law.start "entry"
  finished : ∀ b ∈ s.builder.finished, b.Keeps law s.claims
  current : ∃ A, (s.builder.label, A) ∈ s.claims ∧ ∀ x, A x → law.Obeys s.claims s.builder.code x ∧
    ∀ y, law.through s.builder.code x y → (s.builder.ended = none → s.here y) ∧
      ∀ t ∈ s.builder.ended, law.AllowsEnd s.claims s.builder.code t y

section

variable {s s' s'' : Sketch H} {A B : H → Prop} {law : Law H}

theorem At.mono (h : s.At A) (hAB : ∀ x, A x → B x) : s.At B := ⟨h.isOpen, fun x hx => hAB x (h.holds x hx)⟩

theorem At.ends (h : s.At A) : s.Ends A := fun _ => h.holds

theorem Ends.mono (h : s.Ends A) (hAB : ∀ x, A x → B x) : s.Ends B :=
  fun hopen x hx => hAB x (h hopen x hx)

theorem Ends.at (h : s.Ends A) (hopen : s.builder.ended = none) : s.At A := ⟨hopen, h hopen⟩

theorem Closed.ends (h : s.Closed) : s.Ends A := by
  intro hopen
  unfold Closed at h
  rw [hopen] at h
  cases h

theorem Grows.refl (s : Sketch H) : s.Grows s :=
  ⟨List.Subset.refl _, Nat.le_refl _, List.Subset.refl _⟩

theorem Grows.trans (h : s.Grows s') (h' : s'.Grows s'') : s.Grows s'' :=
  ⟨List.Subset.trans h.claims h'.claims, Nat.le_trans h.nextTemp h'.nextTemp,
    List.Subset.trans h.used h'.used⟩

/-! ## What keeps a sketch sound -/

/-- Names and the targets of jumps are of no importance. -/
theorem Sound.withBuilder {b : Builder} (h : s.Sound law) (hfinished : b.finished = s.builder.finished)
    (hlabel : b.label = s.builder.label) (hcode : b.code = s.builder.code)
    (hended : b.ended = s.builder.ended) (hnext : b.nextLabel = s.builder.nextLabel) :
    ({ s with builder := b } : Sketch H).Sound law where
  nodup := h.nodup
  numbers l hl := hnext ▸ h.numbers l hl
  entry := h.entry
  finished b hb := h.finished b (hfinished ▸ hb)
  current := by
    show ∃ A, (b.label, A) ∈ s.claims ∧ ∀ x, A x → law.Obeys s.claims b.code x ∧
      ∀ y, law.through b.code x y → (b.ended = none → s.here y) ∧
        ∀ t ∈ b.ended, law.AllowsEnd s.claims b.code t y
    rw [hlabel, hcode, hended]
    exact h.current

/-- An instruction that may stand at the current point is written there. -/
theorem Sound.write {i : Instr} {n : Temp} {used : List String} (h : s.Sound law)
    (hopen : s.builder.ended = none) (hobeys : ∀ x, s.here x → law.Obeys s.claims [i] x)
    (hafter : ∀ x y, s.here x → law.after i x y → B y) :
    (⟨{ s.builder with code := s.builder.code ++ [i], nextTemp := n, used }, s.claims, B⟩ :
      Sketch H).Sound law where
  nodup := h.nodup
  numbers := h.numbers
  entry := h.entry
  finished := h.finished
  current := by
    obtain ⟨A, hA, hcode⟩ := h.current
    refine ⟨A, hA, fun x hx => ?_⟩
    obtain ⟨hobeys₀, hthrough⟩ := hcode x hx
    refine ⟨hobeys₀.concat fun y hy => hobeys y ((hthrough y hy).1 hopen), fun z hz => ⟨fun _ => ?_, ?_⟩⟩
    · obtain ⟨y, hy, hyz⟩ := Observer.through_concat.1 hz
      exact hafter y z ((hthrough y hy).1 hopen) hyz
    · intro t ht
      have hended : s.builder.ended = some t := ht
      rw [hopen] at hended
      cases hended

/-- A new label is made, and something is claimed there. -/
theorem Sound.claim {stem : String} (h : s.Sound law) (hstem : isStem stem) (A : H → Prop) :
    (⟨s.builder.takeLabel, (s.builder.newLabel stem, A) :: s.claims, s.here⟩ : Sketch H).Sound law := by
  have hmore : s.claims ⊆ (s.builder.newLabel stem, A) :: s.claims := List.subset_cons_self _ _
  have hnumber : labelNumber (s.builder.newLabel stem) = s.builder.nextLabel + 1 :=
    labelNumber_append hstem _
  refine ⟨List.nodup_cons.2 ⟨fun hmem => ?_, h.nodup⟩, fun l hl => ?_, h.entry.of_subset hmore, ?_, ?_⟩
  · have hle : labelNumber (s.builder.newLabel stem) ≤ s.builder.nextLabel := h.numbers _ hmem
    omega
  · rcases List.mem_cons.1 hl with rfl | hl
    · exact Nat.le_of_eq hnumber
    · exact Nat.le_succ_of_le (h.numbers l hl)
  · exact fun b hb => (h.finished b hb).of_subset hmore
  · obtain ⟨A', hA', hcode⟩ := h.current
    refine ⟨A', hmore hA', fun x hx => ?_⟩
    obtain ⟨hobeys, hthrough⟩ := hcode x hx
    refine ⟨hobeys.of_subset hmore, fun y hy => ⟨(hthrough y hy).1, fun t ht => ?_⟩⟩
    exact ((hthrough y hy).2 t ht).of_subset hmore

/-- The current block is ended. -/
theorem Sound.finish {t : Terminator} (h : s.Sound law) (hopen : s.builder.ended = none)
    (hend : ∀ x, s.here x → law.AllowsEnd s.claims s.builder.code t x) :
    (⟨s.builder.finish t, s.claims, s.here⟩ : Sketch H).Sound law where
  nodup := h.nodup
  numbers := h.numbers
  entry := h.entry
  finished := h.finished
  current := by
    obtain ⟨A, hA, hcode⟩ := h.current
    refine ⟨A, hA, fun x hx => ?_⟩
    obtain ⟨hobeys, hthrough⟩ := hcode x hx
    refine ⟨hobeys, fun y hy => ⟨nofun, fun t' ht => ?_⟩⟩
    cases ht
    exact hend y ((hthrough y hy).1 hopen)

/-- All blocks of a sketch keep to the law, once the current one is ended. -/
theorem Sound.keeps (h : s.Sound law) (hclosed : s.Closed) : ∀ b ∈ s.builder.blocks, b.Keeps law s.claims := by
  intro b hb
  rcases List.mem_append.1 hb with hb | hb
  · exact h.finished b hb
  · rw [List.mem_singleton.1 hb]
    obtain ⟨A, hA, hcode⟩ := h.current
    obtain ⟨t, ht⟩ := Option.isSome_iff_exists.1 hclosed
    refine ⟨A, hA, fun x hx => ?_⟩
    obtain ⟨hobeys, hthrough⟩ := hcode x hx
    refine ⟨hobeys, fun y hy => ?_⟩
    show law.AllowsEnd s.claims s.builder.code (s.builder.ended.getD .unreachable) y
    rw [ht]
    exact (hthrough y hy).2 t ht

/-- The block of a label is started. -/
theorem Sound.start {label : String} (h : s.Sound law) (hclosed : s.Closed) (hA : (label, A) ∈ s.claims) :
    (⟨s.builder.start label, s.claims, A⟩ : Sketch H).Sound law where
  nodup := h.nodup
  numbers := h.numbers
  entry := h.entry
  finished := h.keeps hclosed
  current := ⟨A, hA, fun x hx => ⟨trivial, by
    rintro _ rfl
    exact ⟨fun _ => hx, nofun⟩⟩⟩

end

end Sketch

/-! ## Steps -/

/-- If the step succeeds from the sketch, its builder is that of a sound sketch with the given property. -/
def Draws (law : Law H) (c : Context) (s : Sketch H) (m : Lower α) (Q : α → Sketch H → Prop) : Prop :=
  s.Sound law → ∀ a b, Runs c m s.builder a b →
    ∃ s', s'.builder = b ∧ s'.Sound law ∧ s.Grows s' ∧ Q a s'

section

variable {law : Law H} {c : Context} {s : Sketch H} {m : Lower α} {P Q : α → Sketch H → Prop}
  {A B C : H → Prop}

theorem Draws.mono (h : Draws law c s m P) (hPQ : ∀ a s', s.Grows s' → P a s' → Q a s') :
    Draws law c s m Q := by
  intro hs a b hrun
  obtain ⟨s', hb, hs', hgrows, hP⟩ := h hs a b hrun
  exact ⟨s', hb, hs', hgrows, hPQ a s' hgrows hP⟩

theorem Draws.bind {f : α → Lower β} {R : β → Sketch H → Prop} (h : Draws law c s m P)
    (hf : ∀ a s', s.Grows s' → P a s' → Draws law c s' (f a) R) : Draws law c s (m >>= f) R := by
  intro hs d b hrun
  obtain ⟨a, b₁, hm, hrest⟩ := hrun.of_bind
  obtain ⟨s₁, rfl, hs₁, hgrows₁, hP⟩ := h hs a b₁ hm
  obtain ⟨s₂, hb, hs₂, hgrows₂, hR⟩ := hf a s₁ hgrows₁ hP hs₁ d b hrest
  exact ⟨s₂, hb, hs₂, hgrows₁.trans hgrows₂, hR⟩

/-- What is true of every run of the step may be used. -/
theorem Draws.along {φ : Builder → α → Builder → Prop} (hφ : ∀ a b', Runs c m s.builder a b' → φ s.builder a b')
    (h : Draws law c s m P) : Draws law c s m fun a s' => φ s.builder a s'.builder ∧ P a s' := by
  intro hs a b hrun
  obtain ⟨s', rfl, hs', hgrows, hP⟩ := h hs a b hrun
  exact ⟨s', rfl, hs', hgrows, hφ a _ hrun, hP⟩

/-- The run of the step may be used. -/
theorem Draws.runs (h : Draws law c s m P) :
    Draws law c s m fun a s' => Runs c m s.builder a s'.builder ∧ P a s' :=
  h.along (φ := fun b a b' => Runs c m b a b') fun _ _ hrun => hrun

/-- A step that leaves scopes and the targets of jumps. -/
theorem Draws.steady (hm : Steady m) (h : Draws law c s m P) :
    Draws law c s m fun a s' => s.builder.SameScopes s'.builder ∧ P a s' :=
  h.along (φ := fun b _ b' => b.SameScopes b') fun a b' hrun => hm c s.builder a b' hrun

/-- A step whose result is known. -/
theorem draws_of_runs (a : α) (s' : Sketch H) (hrun : Runs c m s.builder a s'.builder)
    (hsound : s.Sound law → s'.Sound law) (hgrows : s.Grows s') (hQ : Q a s') : Draws law c s m Q := by
  intro hs a' b h
  have heq := hrun.symm.trans h
  cases heq
  exact ⟨s', rfl, hsound hs, hgrows, hQ⟩

theorem draws_pure {a : α} (hQ : Q a s) : Draws law c s (pure a) Q :=
  draws_of_runs a s rfl id (.refl s) hQ

theorem draws_fail (cause : Cause) : Draws law c s (fail cause) Q := by
  intro _ a b h
  cases h

theorem draws_typeOf {e : Expr} {Q : Ty → Sketch H → Prop} (hQ : ∀ τ, e.type? = some τ → Q τ s) :
    Draws law c s (typeOf e) Q := by
  unfold typeOf
  cases he : e.type? with
  | none => exact draws_fail _
  | some τ => exact draws_pure (hQ τ he)

theorem draws_get {Q : Builder → Sketch H → Prop} (hQ : Q s.builder s) : Draws law c s get Q :=
  draws_of_runs s.builder s runs_get id (.refl s) hQ

theorem draws_read {Q : Context → Sketch H → Prop} (hQ : Q c s) : Draws law c s read Q :=
  draws_of_runs c s rfl id (.refl s) hQ

theorem draws_isOpen {Q : Bool → Sketch H → Prop} (hQ : Q s.builder.ended.isNone s) :
    Draws law c s isOpen Q := draws_of_runs _ s runs_isOpen id (.refl s) hQ

theorem draws_varOf? {x : String} {Q : Option String → Sketch H → Prop}
    (hQ : Q (Frames.find? s.builder.scopes x) s) : Draws law c s (varOf? x) Q :=
  draws_of_runs _ s (runs_varOf? x) id (.refl s) hQ

/-! ## Instructions -/

theorem obeys_singleton {claims : Claims H} {i : Instr} {x : H} (hallows : law.Allows x i)
    (hhandler : i.handler? = none) : law.Obeys claims [i] x := by
  refine ⟨hallows, fun y _ => ⟨fun l hl => ?_, trivial⟩⟩
  rw [hhandler] at hl
  cases hl

/-- An instruction is written. -/
theorem draws_emit {i : Instr} (h : s.At A) (hobeys : ∀ x, A x → law.Obeys s.claims [i] x)
    (hafter : ∀ x y, A x → law.after i x y → B y) : Draws law c s (emit i) fun _ s' => s'.At B := by
  refine draws_of_runs () ⟨s.builder.emit i, s.claims, B⟩ (runs_emit i) (fun hs => ?_) ?_ ?_
  · exact hs.write h.isOpen (fun x hx => hobeys x (h.holds x hx)) fun x y hx => hafter x y (h.holds x hx)
  · exact ⟨List.Subset.refl _, Nat.le_refl _, List.Subset.refl _⟩
  · exact ⟨h.isOpen, fun _ hx => hx⟩

/-- An instruction that defines a temporary is written. -/
theorem draws_emitValue {make : Temp → Instr} (h : s.At A)
    (hobeys : ∀ x, A x → law.Obeys s.claims [make s.builder.nextTemp] x)
    (hafter : ∀ x y, A x → law.after (make s.builder.nextTemp) x y → B y) :
    Draws law c s (emitValue make) fun t s' =>
      t = s.builder.nextTemp ∧ s'.builder.nextTemp = t + 1 ∧ s'.At B := by
  refine draws_of_runs s.builder.nextTemp
    ⟨s.builder.takeTemp.emit (make s.builder.nextTemp), s.claims, B⟩ (runs_emitValue make)
    (fun hs => ?_) ?_ ⟨rfl, rfl, h.isOpen, fun _ hx => hx⟩
  · exact hs.write h.isOpen (fun x hx => hobeys x (h.holds x hx)) fun x y hx => hafter x y (h.holds x hx)
  · exact ⟨List.Subset.refl _, Nat.le_succ _, List.Subset.refl _⟩

/-- The declaration of a variable under a free name. -/
theorem draws_declare {name : String} {ty : Ty} {B : String → H → Prop} (h : s.At A)
    (hafter : ∀ v x y, v ∉ s.builder.used → A x → law.after (.varDecl v ty) x y → B v y) :
    Draws law c s (declare name ty) fun v s' =>
      v ∉ s.builder.used ∧ v ∈ s'.builder.used ∧ s'.At (B v) := by
  have hnew := freeName_not_mem s.builder.used name
  refine draws_of_runs (freeName s.builder.used name)
    ⟨(s.builder.useName (freeName s.builder.used name)).emit (.varDecl (freeName s.builder.used name) ty),
      s.claims, B (freeName s.builder.used name)⟩ (runs_declare name ty) (fun hs => ?_) ?_
    ⟨hnew, List.mem_cons_self, h.isOpen, fun _ hx => hx⟩
  · exact hs.write h.isOpen (fun x _ => obeys_singleton trivial rfl)
      fun x y hx => hafter _ x y hnew (h.holds x hx)
  · exact ⟨List.Subset.refl _, Nat.le_refl _, List.subset_cons_self _ _⟩

/-! ## Labels and blocks -/

/-- A label is made, and something is claimed there. -/
theorem draws_freshLabel {stem : String} (hstem : isStem stem) (B : H → Prop) (h : s.Ends A) :
    Draws law c s (freshLabel stem) fun l s' =>
      (l, B) ∈ s'.claims ∧ s'.builder.ended = s.builder.ended ∧ s'.Ends A := by
  refine draws_of_runs (s.builder.newLabel stem)
    ⟨s.builder.takeLabel, (s.builder.newLabel stem, B) :: s.claims, s.here⟩ (runs_freshLabel stem)
    (fun hs => hs.claim hstem B) ?_ ⟨List.mem_cons_self, rfl, h⟩
  exact ⟨List.subset_cons_self _ _, Nat.le_refl _, List.Subset.refl _⟩

/-- A label is made at an open point. -/
theorem Sketch.At.freshLabel {stem : String} (hstem : isStem stem) (B : H → Prop) (h : s.At A) :
    Draws law c s (freshLabel stem) fun l s' => (l, B) ∈ s'.claims ∧ s'.At A :=
  (draws_freshLabel hstem B h.ends).mono fun _ _ _ hl => ⟨hl.1, hl.2.2.at (hl.2.1.trans h.isOpen)⟩

/-- An open block is ended. -/
theorem draws_endWith {t : Terminator} (h : s.At A)
    (hend : ∀ x, A x → law.AllowsEnd s.claims s.builder.code t x) :
    Draws law c s (endWith t) fun _ s' => s'.Closed := by
  refine draws_of_runs () ⟨s.builder.finish t, s.claims, s.here⟩ (runs_endWith h.isOpen t)
    (fun hs => hs.finish h.isOpen fun x hx => hend x (h.holds x hx)) ?_ rfl
  exact ⟨List.Subset.refl _, Nat.le_refl _, List.Subset.refl _⟩

/-- A block is ended, unless it has ended before. -/
theorem Sketch.Ends.endWith {t : Terminator} (h : s.Ends A)
    (hend : ∀ x, A x → law.AllowsEnd s.claims s.builder.code t x) :
    Draws law c s (endWith t) fun _ s' => s'.Closed := by
  cases hended : s.builder.ended with
  | none => exact draws_endWith (h.at hended) hend
  | some t' =>
      have hsame : s.builder.close t = s.builder := by
        unfold Builder.close
        rw [hended]
        show ({ s.builder with ended := some t' } : Builder) = s.builder
        rw [← hended]
      have hrun := runs_close (c := c) (b := s.builder) t
      rw [hsame] at hrun
      exact draws_of_runs () s hrun id (.refl s) (Option.isSome_iff_exists.2 ⟨t', hended⟩)

/-- Control goes on to a label whose claim holds, unless it has gone elsewhere. -/
theorem draws_jump {label : String} (h : s.Ends A) (hlabel : (label, A) ∈ s.claims) :
    Draws law c s (jump label) fun _ s' => s'.Closed := by
  refine h.endWith fun x hx => ⟨trivial, fun l hl => ?_⟩
  rw [List.mem_singleton.1 hl]
  exact ⟨A, hlabel, hx⟩

/-- Control goes to one of two labels whose claims hold. -/
theorem draws_branch {cond : Temp} {l l' : String} (h : s.At A) (hl : (l, B) ∈ s.claims)
    (hl' : (l', C) ∈ s.claims) (hB : ∀ x, A x → B x) (hC : ∀ x, A x → C x) :
    Draws law c s (endWith (.branch cond l l')) fun _ s' => s'.Closed := by
  refine draws_endWith h fun x hx => ⟨trivial, fun k hk => ?_⟩
  rcases List.mem_cons.1 hk with rfl | hk
  · exact ⟨B, hl, hB x hx⟩
  · rw [List.mem_singleton.1 hk]
    exact ⟨C, hl', hC x hx⟩

/-- The block of a label is started, where the claim at the label holds. -/
theorem draws_startBlock {label : String} (hclosed : s.Closed) (hlabel : (label, A) ∈ s.claims) :
    Draws law c s (startBlock label) fun _ s' => s'.At A := by
  refine draws_of_runs () ⟨s.builder.start label, s.claims, A⟩ (runs_startBlock label)
    (fun hs => hs.start hclosed hlabel) ?_ ⟨rfl, fun _ hx => hx⟩
  exact ⟨List.Subset.refl _, Nat.le_refl _, List.Subset.refl _⟩

/-! ## Scopes and jumps -/

/-- A step that changes names and targets of jumps only. -/
theorem draws_modify {g : Builder → Builder} (hfinished : (g s.builder).finished = s.builder.finished)
    (hlabel : (g s.builder).label = s.builder.label) (hcode : (g s.builder).code = s.builder.code)
    (hended : (g s.builder).ended = s.builder.ended)
    (hnextLabel : (g s.builder).nextLabel = s.builder.nextLabel)
    (hnextTemp : (g s.builder).nextTemp = s.builder.nextTemp) (hused : (g s.builder).used = s.builder.used)
    {Q : Unit → Sketch H → Prop} (hQ : Q () { s with builder := g s.builder }) :
    Draws law c s (modify g) Q := by
  refine draws_of_runs () { s with builder := g s.builder } (runs_modify g)
    (fun hs => hs.withBuilder hfinished hlabel hcode hended hnextLabel) ?_ hQ
  exact ⟨List.Subset.refl _, Nat.le_of_eq hnextTemp.symm, fun y hy => hused ▸ hy⟩

/-- The sketch inside a scope of its own. -/
def Sketch.inScope (s : Sketch H) : Sketch H :=
  { s with builder := s.builder.withScopes ([] :: s.builder.scopes) }

/-- The sketch inside a loop or switch of its own. -/
def Sketch.jumpingTo (s : Sketch H) (breakLabel : String) (continueLabel : Option String) : Sketch H :=
  { s with
    builder := s.builder.jumpingTo (⟨breakLabel, continueLabel, s.builder.tryDepth⟩ :: s.builder.jumps) }

/-- A name is bound. -/
theorem draws_bindName {x v : String} {Q : Unit → Sketch H → Prop}
    (hQ : Q () { s with builder := s.builder.withScopes (Frames.declare x v s.builder.scopes) }) :
    Draws law c s (bindName x v) Q :=
  draws_of_runs () { s with builder := s.builder.withScopes (Frames.declare x v s.builder.scopes) }
    (runs_bindName x v) (fun hs => hs.withBuilder rfl rfl rfl rfl rfl)
    ⟨List.Subset.refl _, Nat.le_refl _, List.Subset.refl _⟩ hQ

/-- The declaration of the variable of a name. -/
theorem draws_declareVar {name : String} {ty : Ty} {B : String → H → Prop} (h : s.At A)
    (hafter : ∀ v x y, v ∉ s.builder.used → A x → law.after (.varDecl v ty) x y → B v y) :
    Draws law c s (declareVar name ty) fun v s' =>
      v ∉ s.builder.used ∧ v ∈ s'.builder.used ∧ s'.At (B v) := by
  refine (draws_declare h hafter).bind fun v s₁ _ ⟨hnew, hused, hat⟩ => ?_
  exact (draws_bindName (Q := fun _ s' => v ∉ s.builder.used ∧ v ∈ s'.builder.used ∧ s'.At (B v))
    ⟨hnew, hused, hat.isOpen, hat.holds⟩).bind fun _ _ _ hQ => draws_pure hQ

theorem Draws.inScope (h : Draws law c s.inScope m P)
    (hPQ : ∀ a s' scopes, P a s' → Q a { s' with builder := s'.builder.withScopes scopes }) :
    Draws law c s (inScope m) Q := by
  refine (draws_modify (Q := fun _ s' => s' = s.inScope) rfl rfl rfl rfl rfl rfl rfl rfl).bind ?_
  rintro _ _ _ rfl
  refine h.bind fun a s' _ hP => ?_
  refine (draws_modify (Q := fun _ s'' => Q a s'') rfl rfl rfl rfl rfl rfl rfl (hPQ a s' _ hP)).bind ?_
  exact fun _ s'' _ hQ => draws_pure hQ

theorem Draws.withoutLocals
    (h : Draws law c { s with builder := s.builder.withScopes [[]] } m P)
    (hPQ : ∀ a s' scopes, P a s' → Q a { s' with builder := s'.builder.withScopes scopes }) :
    Draws law c s (withoutLocals m) Q := by
  refine (draws_get (Q := fun _ s' => s = s') rfl).bind ?_
  rintro saved _ _ rfl
  refine (draws_modify (Q := fun _ s' => s' = { s with builder := s.builder.withScopes [[]] })
    rfl rfl rfl rfl rfl rfl rfl rfl).bind ?_
  rintro _ _ _ rfl
  refine h.bind fun a s' _ hP => ?_
  refine (draws_modify (Q := fun _ s'' => Q a s'') rfl rfl rfl rfl rfl rfl rfl (hPQ a s' _ hP)).bind ?_
  exact fun _ s'' _ hQ => draws_pure hQ

theorem Draws.withJumps {breakLabel : String} {continueLabel : Option String}
    (h : Draws law c (s.jumpingTo breakLabel continueLabel) m P)
    (hPQ : ∀ a s' jumps, P a s' → Q a { s' with builder := s'.builder.jumpingTo jumps }) :
    Draws law c s (withJumps breakLabel continueLabel m) Q := by
  refine (draws_modify (Q := fun _ s' => s' = s.jumpingTo breakLabel continueLabel)
    rfl rfl rfl rfl rfl rfl rfl rfl).bind ?_
  rintro _ _ _ rfl
  refine h.bind fun a s' _ hP => ?_
  refine (draws_modify (Q := fun _ s'' => Q a s'') rfl rfl rfl rfl rfl rfl rfl (hPQ a s' _ hP)).bind ?_
  exact fun _ s'' _ hQ => draws_pure hQ

end

end ProtoScript.Lowering
