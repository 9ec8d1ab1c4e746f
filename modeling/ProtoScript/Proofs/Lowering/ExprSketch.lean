import ProtoScript.Proofs.Lowering.ExprMoves
import ProtoScript.Proofs.Lowering.Sketch
import ProtoScript.Proofs.Source.Nodes

set_option autoImplicit false

/-!
# What holds in front of an expression holds behind it

The code of an expression defines new temporaries and new variables only. A claim that such code cannot break
(`Zone.Stable`) holds everywhere in it if it holds in front of it, and at its end (`keeps_lowerExpr?`).
Where an expression splits its block, the claim is made at all labels in between; behind the last of them
the variable in which the values meet can be read besides.

The claim has to say that the variables can be read that the names in the expression stand for.
-/

namespace ProtoScript

/-- An instruction that only computes: it has nothing to do with variables, writes no element of a container
and sends control nowhere. -/
def Ir.Instr.computes : Ir.Instr → Bool
  | varDecl .. | loadVar .. | storeVar .. | indexSet .. | throw _ | setupTry _ | endTry => false
  | _ => true

namespace Ir.Instr

variable {i : Instr} (h : i.computes)

include h

theorem declared?_of_computes : i.declared? = none := by
  cases i with
  | varDecl => cases h
  | _ => rfl

theorem handler?_of_computes : i.handler? = none := by
  cases i with
  | setupTry => cases h
  | _ => rfl

theorem allows_of_computes {H : Type} (law : Law H) (x : H) : law.Allows x i := by
  cases i with
  | loadVar | indexSet => cases h
  | _ => trivial

end Ir.Instr

namespace Lowering

open Ir

variable {H : Type} {α β : Type}

/-! ## Zones -/

/-- Code that begins at the builder may contain the instruction: what it defines, declares or stores to is
new. -/
structure Builder.Inner (b : Builder) (i : Instr) : Prop where
  dest : ∀ t ∈ i.dest?, b.nextTemp ≤ t
  declared : ∀ y ∈ i.declared?, y ∉ b.used
  stored : ∀ y t, i = .storeVar y t → y ∉ b.used

theorem Builder.inner_varDecl {b : Builder} {v : String} {ty : Ty} (hv : v ∉ b.used) :
    b.Inner (.varDecl v ty) :=
  ⟨by simp [Instr.dest?], by simpa [Instr.declared?] using hv, by simp⟩

theorem Builder.inner_loadVar {b : Builder} {v : String} {t : Temp} (ht : b.nextTemp ≤ t) :
    b.Inner (.loadVar t v) :=
  ⟨by simpa [Instr.dest?] using ht, by simp [Instr.declared?], by simp⟩

theorem Builder.inner_storeVar {b : Builder} {v : String} {t : Temp} (hv : v ∉ b.used) :
    b.Inner (.storeVar v t) :=
  ⟨by simp [Instr.dest?], by simp [Instr.declared?], by simpa using hv⟩

/-- Where expressions are written: the builder at the start, what is claimed throughout, and what names stand
for. -/
structure Zone (H : Type) where
  base : Builder
  claim : H → Prop
  scopes : Frames String

namespace Zone

/-- New code cannot break the claim. -/
def Stable (law : Law H) (Z : Zone H) : Prop :=
  ∀ i x y, Z.base.Inner i → law.after i x y → Z.claim x → Z.claim y

/-- Where the claim holds, the name or receiver can be read. -/
def Readable (law : Law H) (Z : Zone H) : Expr → Prop
  | .ident _ x => ∀ v, Frames.find? Z.scopes x = some v → ∀ y, Z.claim y → law.reads y v
  | .self _ => ∀ y, Z.claim y → law.reads y "self"
  | _ => True

/-- The sketch is one that is written from the start of the zone on, where names stand for the same. -/
structure Within (Z : Zone H) (s : Sketch H) : Prop where
  nextTemp : Z.base.nextTemp ≤ s.builder.nextTemp
  used : Z.base.used ⊆ s.builder.used
  scopes : s.builder.scopes = Z.scopes

/-- The current point is in the zone, and the claim holds there. -/
structure Holds (Z : Zone H) (s : Sketch H) : Prop extends Z.Within s where
  point : s.At Z.claim

/-- The step leads from the zone into it; the temporaries of its result are given out. -/
def Keeps (law : Law H) (c : Context) (Z : Zone H) (m : Lower α) (temps : α → List Temp) : Prop :=
  ∀ s, Z.Holds s → Draws law c s m fun a s' => Z.Holds s' ∧ ∀ t ∈ temps a, t < s'.builder.nextTemp

variable {law : Law H} {c : Context} {Z : Zone H} {s s' : Sketch H} {temps : α → List Temp}
  {temps' : β → List Temp}

/-- A step that leaves what names stand for. -/
theorem Within.along {m : Lower α} {P : α → Sketch H → Prop} (hs : Z.Within s) (hm : Steady m)
    (h : Draws law c s m P) : Draws law c s m fun a s' => Z.Within s' ∧ P a s' :=
  (h.steady hm).mono fun _ _ hgrows hP =>
    ⟨⟨Nat.le_trans hs.nextTemp hgrows.nextTemp, List.Subset.trans hs.used hgrows.used,
      hP.1.scopes.trans hs.scopes⟩, hP.2⟩

/-! ### Sequences -/

theorem Keeps.bind {m : Lower α} {f : α → Lower β} (hm : Z.Keeps law c m temps)
    (hf : ∀ a, Z.Keeps law c (f a) temps') : Z.Keeps law c (m >>= f) temps' :=
  fun s hs => (hm s hs).bind fun a s' _ h => hf a s' h.1

/-- The result of the last step is handed on. -/
theorem Keeps.pure {m : Lower α} {f : α → β} (hm : Z.Keeps law c m temps)
    (h : ∀ a, temps' (f a) ⊆ temps a) : Z.Keeps law c (do return f (← m)) temps' :=
  fun s hs => (hm s hs).bind fun a _ _ hQ => draws_pure ⟨hQ.1, fun t ht => hQ.2 t (h a ht)⟩

theorem keeps_pure {a : α} (h : temps a = []) : Z.Keeps law c (Pure.pure a) temps := by
  refine fun s hs => draws_pure ⟨hs, ?_⟩
  rw [h]
  exact nofun

theorem keeps_fail (cause : Cause) : Z.Keeps law c (fail cause : Lower α) temps :=
  fun _ _ => draws_fail cause

/-- A step that writes nothing. -/
theorem Keeps.idle {m : Lower α} {P : α → Prop} {f : α → Lower β}
    (hm : ∀ s, Z.Holds s → Draws law c s m fun a s' => s' = s ∧ P a)
    (hf : ∀ a, P a → Z.Keeps law c (f a) temps') : Z.Keeps law c (m >>= f) temps' := by
  refine fun s hs => (hm s hs).bind ?_
  rintro a _ _ ⟨rfl, ha⟩
  exact hf a ha _ hs

theorem keeps_typeOf {e : Expr} {f : Ty → Lower β} (hf : ∀ τ, Z.Keeps law c (f τ) temps') :
    Z.Keeps law c (typeOf e >>= f) temps' :=
  .idle (P := fun _ => True) (fun _ _ => draws_typeOf fun _ _ => ⟨rfl, trivial⟩) fun τ _ => hf τ

theorem keeps_callOf {n : Note} {f : CallTarget × Bool → Lower β}
    (hf : ∀ r, Z.Keeps law c (f r) temps') : Z.Keeps law c (callOf n >>= f) temps' := by
  refine .idle (P := fun _ => True) (fun s _ => ?_) fun r _ => hf r
  unfold callOf
  split
  · exact draws_fail _
  · exact draws_fail _
  · exact draws_pure ⟨rfl, trivial⟩

theorem keeps_isTrivial {e : Expr} {f : Bool → Lower β} (hf : ∀ r, Z.Keeps law c (f r) temps') :
    Z.Keeps law c (isTrivial e >>= f) temps' := by
  refine .idle (P := fun _ => True) (fun s _ => ?_) fun r _ => hf r
  unfold isTrivial
  split
  · exact draws_pure ⟨rfl, trivial⟩
  · refine (draws_varOf? (Q := fun _ s' => s' = s) rfl).bind ?_
    rintro _ _ _ rfl
    exact draws_pure ⟨rfl, trivial⟩
  · exact draws_pure ⟨rfl, trivial⟩

theorem keeps_valueOf {e : Expr} {m : Lower (Option Temp)} (hm : Z.Keeps law c m Option.toList) :
    Z.Keeps law c (do valueOf e (← m)) fun t => [t] := by
  refine fun s hs => (hm s hs).bind fun r s' _ h => ?_
  cases r with
  | none => exact draws_fail _
  | some t => exact draws_pure h

/-- The value of an expression is used. -/
theorem Keeps.value {e : Expr} {m : Lower (Option Temp)} {f : Temp → Lower β}
    (hm : Z.Keeps law c m Option.toList) (hf : ∀ t, Z.Keeps law c (f t) temps') :
    Z.Keeps law c (do let t ← valueOf e (← m); f t) temps' := by
  have hvalue := (keeps_valueOf (e := e) hm).bind hf
  rwa [bind_assoc] at hvalue

/-- An operation gives the value of an expression. -/
theorem Keeps.some {m : Lower Temp} (hm : Z.Keeps law c m fun t => [t]) :
    Z.Keeps law c (do return some (← m)) Option.toList :=
  hm.pure fun _ => List.Subset.refl _

/-! ### Instructions -/

/-- New code may contain the instruction, and it obeys the law wherever the claim holds. -/
structure Fits (law : Law H) (Z : Zone H) (i : Instr) : Prop where
  inner : Z.base.Inner i
  allows : ∀ x, Z.claim x → law.Allows x i
  handler : i.handler? = none

theorem Fits.of_computes {i : Instr} (h : i.computes) (hdest : ∀ t ∈ i.dest?, Z.base.nextTemp ≤ t) :
    Z.Fits law i := by
  refine ⟨⟨hdest, ?_, ?_⟩, ?_, Instr.handler?_of_computes h⟩
  · rw [Instr.declared?_of_computes h]
    exact nofun
  · rintro y t rfl
    cases h
  · exact fun x _ => Instr.allows_of_computes h law x

variable (hZ : Z.Stable law)

include hZ

theorem Holds.emit {i : Instr} (hs : Z.Holds s) (hi : Z.Fits law i) :
    Draws law c s (emit i) fun _ s' => Z.Holds s' := by
  refine (hs.along (steady_emit i) (draws_emit (B := Z.claim) hs.point (fun x hx => ?_)
    fun x y hx hy => ?_)).mono fun _ s' _ h => ⟨h.1, h.2⟩
  · exact obeys_singleton (hi.allows x hx) hi.handler
  · exact hZ i x y hi.inner hy hx

theorem keeps_emit {i : Instr} (hi : i.computes) (hdest : i.dest? = none) :
    Z.Keeps law c (Lowering.emit i) fun _ => [] := by
  intro s hs
  have hfits : Z.Fits law i := .of_computes hi (by simp [hdest])
  exact (hs.emit hZ hfits).mono fun _ _ _ h => ⟨h, nofun⟩

theorem Holds.emitValue {make : Temp → Instr} (hs : Z.Holds s)
    (hi : ∀ t, Z.base.nextTemp ≤ t → Z.Fits law (make t)) :
    Draws law c s (emitValue make) fun t s' => Z.Holds s' ∧ ∀ u ∈ [t], u < s'.builder.nextTemp := by
  have hfits := hi _ hs.nextTemp
  refine (hs.along (steady_emitValue make) (draws_emitValue (B := Z.claim) hs.point (fun x hx => ?_)
    fun x y hx hy => ?_)).mono fun t s' _ h => ?_
  · exact obeys_singleton (hfits.allows x hx) hfits.handler
  · exact hZ _ x y hfits.inner hy hx
  · obtain ⟨hwithin, _, hnext, hat⟩ := h
    refine ⟨⟨hwithin, hat⟩, fun u hu => ?_⟩
    rw [List.mem_singleton.1 hu, hnext]
    exact Nat.lt_succ_self t

theorem keeps_emitValue {make : Temp → Instr} (hi : ∀ t, (make t).computes)
    (hdest : ∀ t, (make t).dest? = some t) : Z.Keeps law c (Lowering.emitValue make) fun t => [t] := by
  refine fun s hs => hs.emitValue hZ fun t ht => .of_computes (hi t) ?_
  rw [hdest]
  rintro _ ⟨⟩
  exact ht

/-- A variable that can be read is read. -/
theorem keeps_load {v : String} (hv : ∀ x, Z.claim x → law.reads x v) :
    Z.Keeps law c (Lowering.emitValue (.loadVar · v)) fun t => [t] :=
  fun _ hs => hs.emitValue hZ fun _ ht => ⟨Builder.inner_loadVar ht, hv, rfl⟩

theorem keeps_emitResult {hasResult : Bool} {make : Option Temp → Instr} (hi : ∀ r, (make r).computes)
    (hdest : ∀ r, (make r).dest? = r) : Z.Keeps law c (emitResult hasResult make) Option.toList := by
  unfold emitResult
  cases hasResult with
  | true =>
      exact (keeps_emitValue hZ (fun t => hi _) fun t => hdest _).some
  | false => exact (keeps_emit hZ (hi none) (hdest none)).bind fun _ => keeps_pure rfl

/-! ### Values that meet -/

/-- The claim holds, and the variable in which values meet can be read. -/
def Joined (law : Law H) (Z : Zone H) (v : String) (x : H) : Prop := Z.claim x ∧ law.reads x v

/-- The variable in which values meet is new. -/
theorem Holds.declareJoin (hs : Z.Holds s) (ty : Ty) :
    Draws law c s (declareJoin ty) fun v s' => Z.Holds s' ∧ v ∉ Z.base.used := by
  refine (draws_get (Q := fun _ s' => s' = s) rfl).bind ?_
  rintro b _ _ rfl
  refine (hs.along (steady_declare _ ty) (draws_declare (B := fun _ => Z.claim) hs.point
    fun v x y hv hx hy => ?_)).mono fun v s' _ h => ⟨⟨h.1, h.2.2.2⟩, fun hmem => h.2.1 (hs.used hmem)⟩
  exact hZ _ x y (Builder.inner_varDecl fun hmem => hv (hs.used hmem)) hy hx

/-- A value is put where others may meet it. -/
theorem Holds.store {v : String} {t : Temp} (hs : Z.Holds s) (hv : v ∉ Z.base.used) :
    Draws law c s (Lowering.emit (.storeVar v t)) fun _ s' => Z.Within s' ∧ s'.At (Z.Joined law v) := by
  refine hs.along (steady_emit _) (draws_emit hs.point (fun x _ => obeys_singleton trivial rfl)
    fun x y hx hy => ⟨?_, law.reads_stored hy⟩)
  exact hZ _ x y (Builder.inner_storeVar hv) hy hx

/-- A value is put where others may meet it, and control goes on to there. -/
theorem Holds.meet {v done : String} {t : Temp} {k : Lower β} {Q : β → Sketch H → Prop} (hs : Z.Holds s)
    (hv : v ∉ Z.base.used) (hdone : (done, Z.Joined law v) ∈ s.claims)
    (hk : ∀ s', s.Grows s' → s'.Closed → Z.Within s' → Draws law c s' k Q) :
    Draws law c s (do Lowering.emit (.storeVar v t); jump done; k) Q := by
  refine (hs.store hZ hv).bind fun _ s₁ hgrows₁ h₁ => ?_
  refine (h₁.1.along (steady_jump done) (draws_jump h₁.2.ends (hgrows₁.claims hdone))).bind
    fun _ s₂ hgrows₂ h₂ => ?_
  exact hk s₂ (hgrows₁.trans hgrows₂) h₂.2 h₂.1

/-- Where values have met, what they have become is read. -/
theorem Within.meeting {v done : String} (hs : Z.Within s) (hclosed : s.Closed)
    (hdone : (done, Z.Joined law v) ∈ s.claims) :
    Draws law c s (do startBlock done; return some (← Lowering.emitValue (.loadVar · v)))
      fun r s' => Z.Holds s' ∧ ∀ t ∈ r.toList, t < s'.builder.nextTemp := by
  refine (hs.along (steady_startBlock done) (draws_startBlock hclosed hdone)).bind fun _ s₁ _ h₁ => ?_
  refine (h₁.1.along (steady_emitValue _) (draws_emitValue (B := Z.claim) h₁.2 (fun x hx => ?_)
    fun x y hx hy => ?_)).bind fun t s₂ _ h₂ => draws_pure ⟨⟨h₂.1, h₂.2.2.2⟩, ?_⟩
  · exact obeys_singleton hx.2 rfl
  · exact hZ _ x y (Builder.inner_loadVar h₁.1.nextTemp) hy hx.1
  · intro u hu
    rw [List.mem_singleton.1 hu, h₂.2.2.1]
    exact Nat.lt_succ_self t

omit hZ in
/-- A block is started in which the claim holds. -/
theorem Within.start {label : String} (hs : Z.Within s) (hclosed : s.Closed)
    (hlabel : (label, Z.claim) ∈ s.claims) :
    Draws law c s (startBlock label) fun _ s' => Z.Holds s' :=
  (hs.along (steady_startBlock label) (draws_startBlock hclosed hlabel)).mono fun _ _ _ h => ⟨h.1, h.2⟩

omit hZ in
/-- A label is made at which something is claimed. -/
theorem Within.label {stem : String} {A : H → Prop} (hs : Z.Within s) (hat : s.At A)
    (hstem : isStem stem) (B : H → Prop) : Draws law c s (freshLabel stem) fun l s' =>
      Z.Within s' ∧ (l, B) ∈ s'.claims ∧ s'.At A :=
  hs.along (steady_freshLabel stem) (hat.freshLabel hstem B)

/-! ### Single operations -/

theorem keeps_emitBinary {op : BinaryOp} {l r : Temp} {ty : Ty} :
    Z.Keeps law c (emitBinary op l r ty) fun t => [t] := by
  have hvalue : Z.Keeps law c (Lowering.emitValue (.binary · op l r)) fun t => [t] :=
    keeps_emitValue hZ (fun _ => rfl) fun _ => rfl
  unfold emitBinary
  split
  · exact (keeps_emit hZ rfl rfl).bind fun _ => hvalue
  · exact hvalue

theorem keeps_emitUnary {op : UnaryOp} {t : Temp} {ty : Ty} :
    Z.Keeps law c (emitUnary op t ty) fun t => [t] := by
  have hvalue : Z.Keeps law c (Lowering.emitValue (.unary · op t)) fun t => [t] :=
    keeps_emitValue hZ (fun _ => rfl) fun _ => rfl
  unfold emitUnary
  split
  · exact (keeps_emit hZ rfl rfl).bind fun _ => hvalue
  · exact hvalue

theorem keeps_emitTarget {ni : String → Lower Temp} {name : String}
    (hnew : ∀ proto, Z.Keeps law c (ni proto) fun t => [t]) (target : Option ValueTarget) :
    Z.Keeps law c (emitTarget ni name target) fun t => [t] := by
  unfold emitTarget
  split
  · exact keeps_emitValue hZ (fun _ => rfl) fun _ => rfl
  · exact hnew _
  · exact keeps_fail _

theorem keeps_emitContainerCall {n : Note} {method : ContainerMethod} {object : Temp} {args : List Temp} :
    Z.Keeps law c (emitContainerCall n method object args) Option.toList := by
  have hvalue : ∀ {make : Temp → Instr}, (∀ t, (make t).computes) → (∀ t, (make t).dest? = some t) →
      Z.Keeps law c (do return some (← Lowering.emitValue make)) Option.toList :=
    fun hi hdest => (keeps_emitValue hZ hi hdest).some
  have hnone : ∀ {i : Instr}, i.computes → i.dest? = none →
      Z.Keeps law c (do Lowering.emit i; return (none : Option Temp)) Option.toList :=
    fun hi hdest => (keeps_emit hZ hi hdest).bind fun _ => keeps_pure rfl
  unfold emitContainerCall
  split
  · exact hnone rfl rfl
  · exact hvalue (fun _ => rfl) fun _ => rfl
  · exact hvalue (fun _ => rfl) fun _ => rfl
  · split
    · exact hvalue (fun _ => rfl) fun _ => rfl
    · exact keeps_fail _
  · split
    · exact hvalue (fun _ => rfl) fun _ => rfl
    · exact keeps_fail _
  · exact hnone rfl rfl
  · exact hvalue (fun _ => rfl) fun _ => rfl
  · exact hnone rfl rfl
  · exact keeps_fail _

theorem keeps_prints (args : List Temp) :
    Z.Keeps law c (args.forM fun value => Lowering.emit (.print value)) fun _ => [] := by
  induction args with
  | nil => exact keeps_pure rfl
  | cons t rest ih => exact (keeps_emit hZ rfl rfl).bind fun _ => ih

theorem keeps_emitPlainCall {n : Note} {target : CallTarget} {hasResult : Bool} {args : List Temp} :
    Z.Keeps law c (emitPlainCall n target hasResult args) Option.toList := by
  unfold emitPlainCall
  split
  · exact keeps_emitResult hZ (fun _ => rfl) fun _ => rfl
  · exact (keeps_prints hZ args).bind fun _ => keeps_pure rfl
  · exact keeps_emitResult hZ (fun _ => rfl) fun _ => rfl
  · exact keeps_fail _

theorem keeps_emitMethodCall {n : Note} {target : CallTarget} {hasResult : Bool} {receiver : Temp}
    {args : List Temp} :
    Z.Keeps law c (emitMethodCall n target hasResult receiver args) Option.toList := by
  unfold emitMethodCall
  split
  · exact keeps_emitResult hZ (fun _ => rfl) fun _ => rfl
  · exact (keeps_emitValue hZ (fun _ => rfl) fun _ => rfl).some
  · exact keeps_emitContainerCall hZ
  · exact keeps_fail _

/-- The start of a logical operation. Where the right operand is not computed, the left one is what can be
read. -/
theorem Holds.startLogical (hs : Z.Holds s) (op : BinaryOp) (left : Temp) :
    Draws law c s (startLogical op left) fun r s' => s'.Closed ∧ Z.Within s' ∧ r.1 ∉ Z.base.used ∧
      (r.2.1, Z.claim) ∈ s'.claims ∧ (r.2.2, Z.Joined law r.1) ∈ s'.claims := by
  refine (hs.declareJoin hZ .bool).bind fun joined s₁ _ h₁ => ?_
  obtain ⟨hs₁, hnew⟩ := h₁
  refine (hs₁.store hZ hnew).bind fun _ s₂ _ h₂ => ?_
  obtain ⟨hw₂, hat₂⟩ := h₂
  refine (hw₂.label hat₂ rfl Z.claim).bind fun rhs s₃ _ h₃ => ?_
  obtain ⟨hw₃, hrhs, hat₃⟩ := h₃
  refine (hw₃.label hat₃ rfl (Z.Joined law joined)).bind fun done s₄ hgrows₄ h₄ => ?_
  obtain ⟨hw₄, hdone, hat₄⟩ := h₄
  have hrhs₄ := hgrows₄.claims hrhs
  have hend : Draws law c s₄ (endWith (if op = .and then .branch left rhs done else .branch left done rhs))
      fun _ s' => s'.Closed := by
    split
    · exact draws_branch hat₄ hrhs₄ hdone (fun _ hx => hx.1) fun _ hx => hx
    · exact draws_branch hat₄ hdone hrhs₄ (fun _ hx => hx) fun _ hx => hx.1
  refine (hw₄.along (steady_endWith _) hend).bind fun _ s₅ hgrows₅ h₅ => draws_pure ?_
  exact ⟨h₅.2, h₅.1, hnew, hgrows₅.claims hrhs₄, hgrows₅.claims hdone⟩

end Zone

/-! ## Expressions -/

theorem keeps_lowerLogical {law : Law H} {c : Context} {Z : Zone H} (hZ : Z.Stable law)
    (op : BinaryOp) {a : Temp} {m : Lower Temp} (hm : Z.Keeps law c m fun t => [t]) :
    Z.Keeps law c (do
      let (joined, rhs, done) ← startLogical op a
      startBlock rhs
      let b ← m
      emit (.storeVar joined b)
      jump done
      startBlock done
      return some (← emitValue (.loadVar · joined))) Option.toList := by
  refine fun s hs => (hs.startLogical hZ op a).bind fun ⟨joined, rhs, done⟩ s₁ _ h₁ => ?_
  obtain ⟨hclosed, hw₁, hnew, hrhs, hdone⟩ := h₁
  refine (hw₁.start hclosed hrhs).bind fun _ s₂ hgrows₂ hs₂ => ?_
  refine (hm s₂ hs₂).bind fun b s₃ hgrows₃ h₃ => ?_
  have hdone₃ := hgrows₃.claims (hgrows₂.claims hdone)
  exact h₃.1.meet hZ hnew hdone₃ fun s₄ hgrows₄ hclosed₄ hw₄ =>
    hw₄.meeting hZ hclosed₄ (hgrows₄.claims hdone₃)

/-- The start of a choice between values, up to the first branch. -/
theorem draws_openTernary {law : Law H} {c : Context} {Z : Zone H} {ni : String → Lower Temp}
    {n : Note} {e x y : Expr} {s : Sketch H} (hZ : Z.Stable law) (hs : Z.Holds s)
    (he : Z.Keeps law c (lowerExpr ni e) fun t => [t]) :
    Draws law c s (openTernary ni n e x y) fun r s' => Z.Holds s' ∧ r.1 ∉ Z.base.used ∧
      (r.2.1, Z.claim) ∈ s'.claims ∧ (r.2.2, Z.Joined law r.1) ∈ s'.claims := by
  refine (draws_typeOf (Q := fun _ s' => s' = s) fun _ _ => rfl).bind ?_
  rintro ty _ _ rfl
  refine (he _ hs).bind fun cond s₁ _ h₁ => (h₁.1.declareJoin hZ ty).bind fun joined s₂ _ h₂ => ?_
  obtain ⟨hs₂, hnew⟩ := h₂
  refine (hs₂.toWithin.label hs₂.point rfl Z.claim).bind fun thenLabel s₃ _ h₃ => ?_
  obtain ⟨hw₃, hthen, hat₃⟩ := h₃
  refine (hw₃.label hat₃ rfl Z.claim).bind fun elseLabel s₄ hgrows₄ h₄ => ?_
  obtain ⟨hw₄, helse, hat₄⟩ := h₄
  refine (hw₄.label hat₄ rfl (Z.Joined law joined)).bind fun done s₅ hgrows₅ h₅ => ?_
  obtain ⟨hw₅, hdone, hat₅⟩ := h₅
  have hthen₅ := hgrows₅.claims (hgrows₄.claims hthen)
  have helse₅ := hgrows₅.claims helse
  refine (hw₅.along (steady_endWith _) (draws_branch hat₅ hthen₅ helse₅ (fun _ hx => hx)
    fun _ hx => hx)).bind fun _ s₆ hgrows₆ h₆ => ?_
  refine (h₆.1.start h₆.2 (hgrows₆.claims hthen₅)).bind fun _ s₇ hgrows₇ hs₇ => draws_pure ?_
  have hgrows := hgrows₆.trans hgrows₇
  exact ⟨hs₇, hnew, hgrows.claims helse₅, hgrows.claims hdone⟩

/-- Both values of a choice are put where they meet. -/
theorem keeps_lowerTernary {law : Law H} {c : Context} {Z : Zone H} {ni : String → Lower Temp}
    {n : Note} {e x y : Expr} (hZ : Z.Stable law) (he : Z.Keeps law c (lowerExpr ni e) fun t => [t])
    (hx : Z.Keeps law c (lowerExpr ni x) fun t => [t]) (hy : Z.Keeps law c (lowerExpr ni y) fun t => [t]) :
    Z.Keeps law c (do
      let (joined, elseLabel, done) ← openTernary ni n e x y
      let a ← lowerExpr ni x
      emit (.storeVar joined a)
      jump done
      startBlock elseLabel
      let b ← lowerExpr ni y
      emit (.storeVar joined b)
      jump done
      startBlock done
      return some (← emitValue (.loadVar · joined))) Option.toList := by
  refine fun s hs => (draws_openTernary hZ hs he).bind fun ⟨joined, elseLabel, done⟩ s₁ _ h₁ => ?_
  obtain ⟨hs₁, hnew, helse, hdone⟩ := h₁
  refine (hx s₁ hs₁).bind fun a s₂ hgrows₂ h₂ => ?_
  have hdone₂ := hgrows₂.claims hdone
  refine h₂.1.meet hZ hnew hdone₂ fun s₃ hgrows₃ hclosed₃ hw₃ => ?_
  refine (hw₃.start hclosed₃ (hgrows₃.claims (hgrows₂.claims helse))).bind fun _ s₄ hgrows₄ hs₄ => ?_
  refine (hy s₄ hs₄).bind fun b s₅ hgrows₅ h₅ => ?_
  have hdone₅ := hgrows₅.claims (hgrows₄.claims (hgrows₃.claims hdone₂))
  exact h₅.1.meet hZ hnew hdone₅ fun s₆ hgrows₆ hclosed₆ hw₆ =>
    hw₆.meeting hZ hclosed₆ (hgrows₆.claims hdone₅)

mutual

/-- If the names in an expression can be read, the claim holds behind it. -/
theorem keeps_lowerExpr? {law : Law H} {c : Context} {Z : Zone H} {ni : String → Lower Temp}
    (hZ : Z.Stable law) (hnew : ∀ proto, Z.Keeps law c (ni proto) fun t => [t]) :
    (e : Expr) → e.Leaves (Z.Readable law) → Z.Keeps law c (lowerExpr? ni e) Option.toList
  | .literal n v, _ => by
      rw [lowerExpr?]
      exact (Zone.keeps_emitValue hZ (fun _ => rfl) fun _ => rfl).some
  | .ident n x, h => by
      rw [lowerExpr?]
      refine .idle (P := fun v => Frames.find? Z.scopes x = v)
        (fun s hs => draws_varOf? ⟨rfl, by rw [hs.scopes]⟩) fun v hv => ?_
      cases v with
      | some v => exact (Zone.keeps_load hZ (h v hv)).some
      | none => exact (Zone.keeps_emitTarget hZ hnew _).some
  | .self n, h => by
      rw [lowerExpr?]
      exact (Zone.keeps_load hZ h).some
  | .unary n op e, h => by
      rw [lowerExpr?]
      refine Zone.keeps_typeOf fun ty => ?_
      exact (keeps_lowerExpr? hZ hnew e h).value fun t => (Zone.keeps_emitUnary hZ).some
  | .binary n op l r, h => by
      have hl := keeps_lowerExpr? hZ hnew l h.1
      have hr := keeps_lowerExpr? hZ hnew r h.2
      rw [lowerExpr?]
      split
      · refine hl.value fun a => Zone.keeps_isTrivial fun isTrivial => ?_
        split
        · refine hr.value fun b => (Zone.keeps_emitValue hZ (fun t => ?_) fun t => ?_).some
          · split <;> rfl
          · split <;> rfl
        · have hlogical := keeps_lowerLogical hZ op (a := a) (Zone.keeps_valueOf (e := r) hr)
          simpa only [bind_assoc] using hlogical
      · exact Zone.keeps_typeOf fun ty => hl.value fun a => hr.value fun b =>
          (Zone.keeps_emitBinary hZ).some
  | .ternary n e x y, h => by
      have hternary := keeps_lowerTernary (n := n) hZ (Zone.keeps_valueOf (e := e) (keeps_lowerExpr? hZ hnew e h.1))
        (Zone.keeps_valueOf (e := x) (keeps_lowerExpr? hZ hnew x h.2.1))
        (Zone.keeps_valueOf (e := y) (keeps_lowerExpr? hZ hnew y h.2.2))
      rw [lowerExpr?_ternary]
      simpa only [openTernaryElse, bind_assoc, pure_bind] using hternary
  | .call n name args, h => by
      have hargs := keeps_lowerExprs hZ hnew args h
      rw [lowerExpr?]
      refine Zone.keeps_callOf fun ⟨target, hasResult⟩ => ?_
      dsimp only
      split
      · exact (hnew _).some
      · exact hargs.bind fun _ => Zone.keeps_emitPlainCall hZ
      · exact hargs.bind fun _ => Zone.keeps_emitPlainCall hZ
      · exact hargs.bind fun _ => Zone.keeps_emitPlainCall hZ
      · exact Zone.keeps_fail _
  | .methodCall n receiver name args, h => by
      have hreceiver := keeps_lowerExpr? hZ hnew receiver h.1
      have hargs := keeps_lowerExprs hZ hnew args h.2
      rw [lowerExpr?]
      refine Zone.keeps_callOf fun ⟨target, hasResult⟩ => ?_
      dsimp only
      split
      · exact (hnew _).some
      · exact hargs.bind fun _ => Zone.keeps_emitPlainCall hZ
      · exact hargs.bind fun _ => Zone.keeps_emitPlainCall hZ
      · split
        · exact hreceiver.value fun _ => hargs.bind fun _ => Zone.keeps_emitPlainCall hZ
        · exact hargs.bind fun _ => Zone.keeps_emitPlainCall hZ
      · exact hreceiver.value fun _ => Zone.keeps_emitMethodCall hZ
      · exact hreceiver.value fun _ => hargs.bind fun _ => Zone.keeps_emitMethodCall hZ
  | .member n object name, h => by
      rw [lowerExpr?]
      split
      · exact (Zone.keeps_emitValue hZ (fun _ => rfl) fun _ => rfl).some
      · exact (keeps_lowerExpr? hZ hnew object h).value fun _ =>
          (Zone.keeps_emitValue hZ (fun _ => rfl) fun _ => rfl).some
      · exact Zone.keeps_fail _
  | .index n object i, h => by
      have hobject := keeps_lowerExpr? hZ hnew object h.1
      have hi := keeps_lowerExpr? hZ hnew i h.2
      rw [lowerExpr?]
      exact Zone.keeps_typeOf fun ty => hobject.value fun _ => hi.value fun _ =>
        (Zone.keeps_emit hZ rfl rfl).bind fun _ => (Zone.keeps_emitValue hZ (fun _ => rfl) fun _ => rfl).some
  | .cast n e target, h => by
      rw [lowerExpr?]
      exact (keeps_lowerExpr? hZ hnew e h).value fun _ =>
        (Zone.keeps_emitValue hZ (fun _ => rfl) fun _ => rfl).some
  | .list n items, h => by
      rw [lowerExpr?]
      exact Zone.keeps_typeOf fun ty => (keeps_lowerExprs hZ hnew items h).bind fun _ =>
        (Zone.keeps_emitValue hZ (fun _ => rfl) fun _ => rfl).some
  | .map n entries, h => by
      rw [lowerExpr?]
      exact Zone.keeps_typeOf fun ty => (keeps_lowerEntries hZ hnew entries h).bind fun _ =>
        (Zone.keeps_emitValue hZ (fun _ => rfl) fun _ => rfl).some

theorem keeps_lowerExprs {law : Law H} {c : Context} {Z : Zone H} {ni : String → Lower Temp}
    (hZ : Z.Stable law) (hnew : ∀ proto, Z.Keeps law c (ni proto) fun t => [t]) :
    (es : List Expr) → AllLeaves (Z.Readable law) es → Z.Keeps law c (lowerExprs ni es) fun _ => []
  | [], _ => by
      rw [lowerExprs]
      exact Zone.keeps_pure rfl
  | e :: rest, h => by
      rw [lowerExprs]
      exact (keeps_lowerExpr? hZ hnew e h.1).value fun _ => (keeps_lowerExprs hZ hnew rest h.2).bind
        fun _ => Zone.keeps_pure rfl

theorem keeps_lowerEntries {law : Law H} {c : Context} {Z : Zone H} {ni : String → Lower Temp}
    (hZ : Z.Stable law) (hnew : ∀ proto, Z.Keeps law c (ni proto) fun t => [t]) :
    (es : List (Expr × Expr)) → EntryLeaves (Z.Readable law) es →
      Z.Keeps law c (lowerEntries ni es) fun _ => []
  | [], _ => by
      rw [lowerEntries]
      exact Zone.keeps_pure rfl
  | (k, v) :: rest, h => by
      rw [lowerEntries]
      exact (keeps_lowerExpr? hZ hnew k h.1).value fun _ => (keeps_lowerExpr? hZ hnew v h.2.1).value
        fun _ => (keeps_lowerEntries hZ hnew rest h.2.2).bind fun _ => Zone.keeps_pure rfl

end

theorem keeps_lowerExpr {law : Law H} {c : Context} {Z : Zone H} {ni : String → Lower Temp}
    (hZ : Z.Stable law) (hnew : ∀ proto, Z.Keeps law c (ni proto) fun t => [t]) {e : Expr}
    (h : e.Leaves (Z.Readable law)) : Z.Keeps law c (lowerExpr ni e) fun t => [t] :=
  Zone.keeps_valueOf (keeps_lowerExpr? hZ hnew e h)

/-! ## New instances -/

/-- No initial value of a field looks at a receiver. -/
def Context.Selfless (c : Context) : Prop :=
  ∀ f e, initialValue? c.prototypes f = some e → e.Leaves fun e => ∀ n, e ≠ .self n

/-- The zone for a step that sees no local variable. -/
def Zone.bare (Z : Zone H) : Zone H := { Z with scopes := [[]] }

variable {law : Law H} {c : Context} {Z : Zone H}

/-- Initial values have no names that would have to be read. -/
theorem Context.Selfless.readable (hc : c.Selfless) {f : FieldInfo} {e : Expr}
    (he : initialValue? c.prototypes f = some e) : e.Leaves (Z.bare.Readable law) := by
  refine Expr.Leaves.mono (fun e hself => ?_) (hc f e he)
  cases e with
  | ident n x =>
      intro v hv
      cases hv
  | self n => exact absurd rfl (hself n)
  | _ => trivial

/-- What is written without locals keeps what it keeps. -/
theorem Zone.Keeps.withoutLocals {m : Lower α} {temps : α → List Temp}
    (h : Z.bare.Keeps law c m temps) (hm : Steady m) : Z.Keeps law c (withoutLocals m) temps := by
  intro s hs
  have hbare : Z.bare.Holds { s with builder := s.builder.withScopes [[]] } :=
    ⟨⟨hs.nextTemp, hs.used, rfl⟩, hs.point.isOpen, hs.point.holds⟩
  refine (hs.along (Relates.withoutLocals writing_sameScopes hm) ((h _ hbare).withoutLocals (Q := fun a s' =>
    s'.At Z.claim ∧ ∀ t ∈ temps a, t < s'.builder.nextTemp) ?_)).mono ?_
  · rintro a s' scopes ⟨hs', htemps⟩
    exact ⟨⟨hs'.point.isOpen, hs'.point.holds⟩, htemps⟩
  · rintro a s' _ ⟨hw, hat, htemps⟩
    exact ⟨⟨hw, hat⟩, htemps⟩

theorem keeps_initFields {ni : String → Lower Temp} (proto : String) (object : Temp) (hc : c.Selfless)
    (hZ : Z.Stable law) (hsteady : ∀ proto, Steady (ni proto))
    (hnew : ∀ proto, Z.bare.Keeps law c (ni proto) fun t => [t]) (fields : List FieldInfo) :
    Z.Keeps law c (initFields ni proto object fields) fun _ => [] := by
  induction fields with
  | nil => exact Zone.keeps_pure rfl
  | cons f rest ih =>
      rw [initFields]
      refine .idle (P := fun c' => c' = c) (fun _ _ => draws_read ⟨rfl, rfl⟩) ?_
      rintro _ rfl
      split
      · exact ih
      · rename_i e he
        have hvalue := keeps_lowerExpr (Z := Z.bare) hZ hnew (hc.readable he)
        exact (hvalue.withoutLocals (steady_lowerExpr hsteady e)).bind fun value =>
          (Zone.keeps_emit hZ rfl rfl).bind fun _ => ih

/-- A new instance is made without a look at local variables. -/
theorem keeps_newInstance (hc : c.Selfless) (depth : Nat) {Z : Zone H} (hZ : Z.Stable law)
    (proto : String) : Z.Keeps law c (newInstance depth proto) fun t => [t] := by
  induction depth generalizing proto Z with
  | zero => exact Zone.keeps_fail _
  | succ depth ih =>
      rw [newInstance]
      refine fun s hs => (Zone.keeps_emitValue hZ (fun _ => rfl) (fun _ => rfl) s hs).bind
        fun object s₁ _ h₁ => ?_
      refine (draws_read (Q := fun _ s' => s' = s₁) rfl).bind ?_
      rintro c' _ _ rfl
      have hfields := keeps_initFields proto object hc hZ (steady_newInstance depth)
        (fun proto => ih (Z := Z.bare) hZ proto)
      refine (hfields _ _ h₁.1).bind fun _ s₂ hgrows₂ h₂ => draws_pure ⟨h₂.1, fun t ht => ?_⟩
      exact Nat.lt_of_lt_of_le (h₁.2 t ht) hgrows₂.nextTemp

/-- Making new instances keeps all claims that new code cannot break. -/
structure Inert (law : Law H) (c : Context) (ni : String → Lower Temp) : Prop where
  steady : ∀ proto, Steady (ni proto)
  keeps : ∀ {Z : Zone H}, Z.Stable law → ∀ proto, Z.Keeps law c (ni proto) fun t => [t]

theorem inert_newInstance (hc : c.Selfless) (depth : Nat) : Inert law c (newInstance depth) :=
  ⟨steady_newInstance depth, fun hZ proto => keeps_newInstance hc depth hZ proto⟩

end Lowering

end ProtoScript
