import ProtoScript.Proofs.Analysis.Advances
import ProtoScript.Proofs.Lowering.FunctionSketch

set_option autoImplicit false

/-!
# Variables that the checker knows to have a value

On a path, a variable of the lowered function has a value if it was stored to behind its last declaration, or
if it was not declared at all, as a parameter is not (`Assigned`). The checker speaks of places of names and
the lowered function of variables. Where the stacks of the two have names at the same places (`Stands`),
what the checker knows becomes a claim about the path so far (`Known`).
-/

namespace ProtoScript.Lowering

open Ir

/-! ## What has happened on a path -/

/-- On the path, the last instruction first, there is an assignment to the variable behind its last
declaration, or it was never declared. -/
def Assigned (v : String) : List Instr → Prop
  | [] => True
  | .storeVar w _ :: past => w = v ∨ Assigned v past
  | .varDecl w _ :: past => w ≠ v ∧ Assigned v past
  | _ :: past => Assigned v past

theorem Assigned.cons {v : String} {i : Instr} {past : List Instr} (h : Assigned v past)
    (hi : i.declared? ≠ some v) : Assigned v (i :: past) := by
  cases i with
  | storeVar w t => exact .inr h
  | varDecl w ty => exact ⟨fun hw => hi (congrArg some hw), h⟩
  | _ => exact h

/-- Behind its declaration a variable has a value only if it was stored to. -/
theorem Assigned.stored {v : String} {ty : Ty} {before : List Instr} (later : List Instr)
    (h : Assigned v (later ++ .varDecl v ty :: before)) : ∃ t, Instr.storeVar v t ∈ later := by
  induction later with
  | nil => exact absurd rfl h.1
  | cons i later ih =>
      have hrest : ∀ {j : Instr}, Assigned v (later ++ .varDecl v ty :: before) →
          ∃ t, Instr.storeVar v t ∈ j :: later := fun hlater =>
        let ⟨t, ht⟩ := ih hlater
        ⟨t, List.mem_cons_of_mem _ ht⟩
      cases i with
      | storeVar w t =>
          rcases h with rfl | h
          · exact ⟨t, List.mem_cons_self⟩
          · exact hrest h
      | varDecl w ty' => exact hrest h.2
      | _ => exact hrest h

/-- A variable is read only where it has a value. -/
def initializing : Law (List Instr) where
  toObserver := .history
  reads past v := Assigned v past
  writes _ _ _ _ := True
  stops _ := True
  returnsNothing := True
  reads_stored h := by
    cases h
    exact .inl rfl
  stops_throw := trivial

/-! ## What the checker knows -/

/-- All variables that are known to have a value were assigned to, and a receiver has its value. -/
structure Known (c : Analysis.Context) (f : Knowledge) (names : Nat × String → Option String)
    (past : List Instr) : Prop where
  values : ∀ {k v}, f k = some true → names k = some v → Assigned v past
  self : c.proto?.isSome → Assigned "self" past

section

variable {c : Analysis.Context} {f g : Knowledge} {names : Nat × String → Option String}
  {past : List Instr}

theorem Known.below (h : Known c f names past) (hgf : g.Below f) : Known c g names past :=
  ⟨fun hk hv => h.values (hgf _ hk) hv, h.self⟩

/-- An instruction that declares none of the variables. -/
theorem Known.cons {i : Instr} (h : Known c f names past) (hi : ∀ k v, names k = some v → i.declared? ≠ some v)
    (hself : c.proto?.isSome → i.declared? ≠ some "self") : Known c f names (i :: past) :=
  ⟨fun hk hv => (h.values hk hv).cons (hi _ _ hv), fun hproto => (h.self hproto).cons (hself hproto)⟩

/-- The variable at a place is stored to. -/
theorem Known.store {k : Nat × String} {v : String} {t : Temp} (h : Known c f names past)
    (hv : names k = some v) : Known c (f.give k) names (.storeVar v t :: past) := by
  refine ⟨fun {k' v'} hk' hv' => ?_, fun hproto => .inr (h.self hproto)⟩
  by_cases hkey : k' = k
  · rw [hkey, hv] at hv'
    exact .inl (Option.some.inj hv')
  · rw [Knowledge.give, if_neg hkey] at hk'
    exact .inr (h.values hk' hv')

/-- What is known of inner variables is of no importance outside. -/
theorem Known.leave {s : Scopes} {V : Frames String} (h : Known c s.known (Frames.at? V) past) :
    Known c s.leave.known (Frames.at? V.tail) past := by
  refine ⟨fun {k v} hk hv => ?_, h.self⟩
  rw [Scopes.known_leave] at hk
  split at hk
  · exact h.values hk (Frames.at?_of_tail hv)
  · cases hk

end

/-! ## States of the checker and zones -/

/-- The names in scope for the checker have variables `V` at the same places. Names stand for the same variables
in the lowered function, which are all declared at the builder. What has no value is one of the late
names. -/
structure Stands (c : Analysis.Context) (late : List String) (s : Analysis.State) (base : Builder)
    (V scopes : Frames String) : Prop where
  same : Frames.Same s.scopes.frames V
  names : ∀ x, Frames.find? scopes x = Frames.find? V x
  inner : V ≠ []
  innerScope : scopes ≠ []
  used : ∀ {k v}, Frames.at? V k = some v → v ∈ base.used
  self : c.proto?.isSome → "self" ∈ base.used
  late : ∀ {k}, s.scopes.known k = some false → k.2 ∈ late

/-- The zone where the claim is that variables have the values they are known to have. -/
def knowing (c : Analysis.Context) (base : Builder) (f : Knowledge) (V scopes : Frames String) :
    Zone (List Instr) := ⟨base, Known c f (Frames.at? V), scopes⟩

theorem knowing_inner {c : Analysis.Context} {base : Builder} {f : Knowledge} {V scopes : Frames String} :
    (knowing c base f V scopes).inner = knowing c base f ([] :: V) ([] :: scopes) := by
  unfold knowing Zone.inner
  rw [Frames.at?_push]

namespace Stands

open Analysis (State Passes Settled Keeps declares)

variable {c : Analysis.Context} {late : List String} {s s' : State} {base : Builder}
  {V scopes : Frames String} {f : Knowledge} {past : List Instr}

/-- New code declares none of the variables. -/
theorem stable (h : Stands c late s base V scopes) : (knowing c base f V scopes).Stable initializing := by
  intro i past _ hi hafter hpast
  cases hafter
  refine Known.cons hpast (fun k v hv hdeclared => hi.declared v hdeclared (h.used hv)) ?_
  exact fun hproto hdeclared => hi.declared _ hdeclared (h.self hproto)

/-- The place of a name that stands for a variable. -/
theorem find? (h : Stands c late s base V scopes) {x v : String} (hx : Frames.find? scopes x = some v) :
    ∃ k b, Frames.keyOf? s.scopes.frames x = some k ∧ s.scopes.look x = some b ∧
      s.scopes.known k = some b ∧ Frames.at? V k = some v ∧ k.2 = x := by
  rw [h.names] at hx
  obtain ⟨k, hk, hv⟩ := Frames.exists_keyOf? hx
  have hkey := (h.same.keyOf? x).trans hk
  obtain ⟨hname, b, hfind, hat⟩ := Frames.keyOf?_spec hkey
  refine ⟨k, b.initialized, hkey, ?_, ?_, hv, hname⟩
  · rw [Scopes.look, ← Scopes.find?_frames, hfind]
    rfl
  · show (Frames.at? _ k).map _ = _
    rw [hat]
    rfl

/-- A name that is known to have a value can be read where that is known. -/
theorem readable_ident (h : Stands c late s base V scopes) {n : Note} {x : String}
    (hx : s.scopes.look x ≠ some false)
    (hf : ∀ k, k.2 = x → s.scopes.known k = some true → f k = some true) :
    (knowing c base f V scopes).Readable initializing (.ident n x) := by
  intro v hv past hpast
  obtain ⟨k, b, _, hlook, hknown, hat, hname⟩ := h.find? hv
  have hb : b = true := by
    rw [hlook] at hx
    simpa using hx
  rw [hb] at hknown
  exact hpast.values (hf k hname hknown) hat

theorem readable (h : Stands c late s base V scopes) {e : Expr}
    (he : e.Leaves (Settled c s.scopes.look)) :
    e.Leaves ((knowing c base s.scopes.known V scopes).Readable initializing) :=
  he.of_names e (fun _ _ _ hx => h.readable_ident hx fun _ _ hk => hk) fun _ hproto _ hpast =>
    hpast.self hproto

/-! ### Steps of the checker -/

/-- Names are as they were. -/
theorem of_shape (h : Stands c late s base V scopes) (hshape : s'.scopes.shape = s.scopes.shape)
    (hlate : ∀ {k}, s'.scopes.known k = some false → k.2 ∈ late) : Stands c late s' base V scopes :=
  ⟨(Scopes.same_of_shape hshape).trans h.same, h.names, h.inner, h.innerScope, h.used, h.self, hlate⟩

theorem of_known (h : Stands c late s base V scopes) (hshape : s'.scopes.shape = s.scopes.shape)
    (hknown : s'.scopes.known = s.scopes.known) : Stands c late s' base V scopes :=
  h.of_shape hshape fun hk => h.late (hknown ▸ hk)

theorem of_advances {A L : List String} (h : Stands c late s base V scopes)
    (hshape : s'.scopes.shape = s.scopes.shape) (hadvances : s.scopes.known.Advances A L s'.scopes.known)
    (hL : L ⊆ late) : Stands c late s' base V scopes :=
  h.of_shape hshape fun hk => (hadvances.opened _ hk).elim (fun hk => h.late hk) fun hk => hL hk

/-- One goes on with what is known of the same variables. -/
theorem restored (h : Stands c late s base V scopes) {before : FlowSnapshot}
    (hplaces : before.known.SamePlaces s.scopes.known) (hlate : ∀ {k}, before.known k = some false → k.2 ∈ late) :
    Stands c late (s.restored before) base V scopes :=
  h.of_shape (s.shape_restored before) fun hk => hlate (Analysis.known_restored hplaces ▸ hk)

theorem enter (h : Stands c late s base V scopes) (kind : ScopeKind) :
    Stands c late (s.enter kind) base ([] :: V) ([] :: scopes) where
  same := h.same.push
  names x := by
    rw [Frames.find?_cons, Frames.find?_cons, h.names]
  inner := nofun
  innerScope := nofun
  used hv := h.used (by rwa [Frames.at?_push] at hv)
  self := h.self
  late hk := h.late (by rwa [Analysis.known_enter] at hk)

/-- The lowered function may have scopes without names in between. -/
theorem push (h : Stands c late s base V scopes) : Stands c late s base V ([] :: scopes) :=
  ⟨h.same, fun x => by rw [Frames.find?_cons, h.names]; rfl, h.inner, nofun, h.used, h.self, h.late⟩

/-- The place of a name that the checker binds. -/
theorem define (h : Stands c late s base V scopes) {x : String} {b : Binding}
    (hdefine : Analysis.define x b c s = (none, s')) :
    ∃ top outer, V = top :: outer ∧ s'.scopes.length = V.length ∧
      s.scopes.known (outer.length, x) = none ∧ ∀ k, s'.scopes.known k =
        if k = (outer.length, x) then some b.initialized else s.scopes.known k := by
  obtain ⟨top, outer, rfl⟩ := List.exists_cons_of_ne_nil h.inner
  have hlength : s.scopes.length = outer.length + 1 := (Scopes.length_frames _).symm.trans h.same.length
  rcases Analysis.define_known hdefine with ⟨hnil, _⟩ | ⟨hsame, hnew, hknown⟩
  · rw [hnil] at hlength
    cases hlength
  · have hleave : s.scopes.leave.length = outer.length := by
      show s.scopes.tail.length = _
      rw [List.length_tail, hlength]
      rfl
    rw [hleave] at hnew hknown
    exact ⟨top, outer, rfl, hsame.trans hlength, hnew, hknown⟩

/-- A name is bound by the checker, and a new variable is declared for it. -/
theorem declare (h : Stands c late s base V scopes) {x v : String} {b : Binding} {b' : Builder}
    (hdefine : Analysis.define x b c s = (none, s')) (hb : b.initialized = false → x ∈ late)
    (hused : v ∈ b'.used) (hold : base.used ⊆ b'.used) :
    Stands c late s' b' (Frames.declare x v V) (Frames.declare x v scopes) := by
  obtain ⟨top, outer, rfl, hlength, _, hknown⟩ := h.define hdefine
  obtain ⟨inner, rest, rfl⟩ := List.exists_cons_of_ne_nil h.innerScope
  refine ⟨⟨?_, fun k => ?_⟩, fun y => ?_, nofun, nofun, fun {k w} hw => ?_, fun hproto => hold (h.self hproto),
    fun {k} hk => ?_⟩
  · rw [Scopes.length_frames, hlength]
    rfl
  · have hk : (Frames.at? s'.scopes.frames k).isSome = (s'.scopes.known k).isSome := by
      unfold Scopes.known
      rw [Option.isSome_map]
    have hk₀ : (Frames.at? s.scopes.frames k).isSome = (s.scopes.known k).isSome := by
      unfold Scopes.known
      rw [Option.isSome_map]
    rw [hk, hknown, Frames.at?_declare]
    split
    · rfl
    · rw [← hk₀, h.same.bound]
  · rw [Frames.find?_declare, Frames.find?_declare, h.names]
  · rw [Frames.at?_declare] at hw
    split at hw
    · cases hw
      exact hused
    · exact hold (h.used hw)
  · rw [hknown] at hk
    split at hk
    · rename_i hkey
      rw [hkey]
      exact hb (Option.some.inj hk)
    · exact h.late hk

/-- Behind the declaration of a variable, and behind its initial value, that is known which the checker
knows. -/
theorem known_declare (h : Stands c late s base V scopes) {x v : String} {ty : Ty} {b : Binding}
    (hdefine : Analysis.define x b c s = (none, s')) (hnew : v ∉ base.used)
    (hpast : Known c s.scopes.known (Frames.at? V) past) :
    (b.initialized = false →
      Known c s'.scopes.known (Frames.at? (Frames.declare x v V)) (.varDecl v ty :: past)) ∧
    ∀ t, Known c s'.scopes.known (Frames.at? (Frames.declare x v V)) (.storeVar v t :: .varDecl v ty :: past) := by
  obtain ⟨top, outer, rfl, _, _, hknown⟩ := h.define hdefine
  have hdeclared : ∀ {w}, w ∈ base.used → (Instr.varDecl v ty).declared? ≠ some w := by
    intro w hw heq
    exact hnew (Option.some.inj heq ▸ hw)
  have hself : c.proto?.isSome → Assigned "self" (.varDecl v ty :: past) := fun hproto =>
    (hpast.self hproto).cons (hdeclared (h.self hproto))
  -- All places but the new one are as before.
  have hrest : ∀ {k w}, k ≠ (outer.length, x) → s'.scopes.known k = some true →
      Frames.at? (Frames.declare x v (top :: outer)) k = some w → Assigned w (.varDecl v ty :: past) := by
    intro k w hkey hk hw
    rw [hknown, if_neg hkey] at hk
    rw [Frames.at?_declare, if_neg hkey] at hw
    exact (hpast.values hk hw).cons (hdeclared (h.used hw))
  refine ⟨fun hb => ⟨fun {k w} hk hw => ?_, hself⟩, fun t => ⟨fun {k w} hk hw => ?_, fun hproto =>
    .inr (hself hproto)⟩⟩
  · refine hrest (fun hkey => ?_) hk hw
    rw [hknown, if_pos hkey, hb] at hk
    cases hk
  · by_cases hkey : k = (outer.length, x)
    · rw [Frames.at?_declare, if_pos hkey] at hw
      exact .inl (Option.some.inj hw)
    · exact .inr (hrest hkey hk hw)

/-- The same for the declaration of a variable that may have an initial value. -/
theorem declaring (h : Stands c late s base V scopes) {x : String} {ty : Ty} {b : Binding} {init : Option Expr}
    (hdefine : Analysis.define x b c s = (none, s')) (hb : b.initialized = init.isSome) :
    (knowing c base s.scopes.known V scopes).Declaring initializing ty init fun v =>
      Known c s'.scopes.known (Frames.at? (Frames.declare x v V)) := by
  unfold Zone.Declaring
  split
  · intro v past _ hnew hpast hdeclared t _ hstored
    cases hdeclared
    cases hstored
    exact (h.known_declare hdefine hnew hpast).2 t
  · rename_i hnone
    intro v past _ hnew hpast hdeclared
    cases hdeclared
    exact (h.known_declare hdefine hnew hpast).1 (hb.trans (Bool.eq_false_iff.2 hnone))

/-- The same in a new scope, where the value is there at once. -/
theorem binding (h : Stands c late s base V scopes) {x : String} {ty : Ty} {b : Binding} {kind : ScopeKind}
    (hdefine : Analysis.define x b c (s.enter kind) = (none, s')) :
    (knowing c base s.scopes.known V scopes).Binding initializing ty fun v =>
      Known c s'.scopes.known (Frames.at? (Frames.declare x v ([] :: V))) := by
  intro v past _ hnew hpast hdeclared t _ hstored
  cases hdeclared
  cases hstored
  refine ((h.enter kind).known_declare hdefine hnew ?_).2 t
  rw [Analysis.known_enter, Frames.at?_push]
  exact hpast

end Stands

end ProtoScript.Lowering
