import ProtoScript.Proofs.Analysis.TypedStmt

set_option autoImplicit false

/-!
# What the checker knows of variables

A variable in scope has a place: the number of scopes outside of its own, and its name. Scopes and snapshots
are looked at as functions from places here (`Knowledge`): is there a variable at the place, and is it known
to have a value. In these terms leaving a scope restricts a function, going on with a snapshot replaces it,
and where paths meet a variable has a value if it has one on both (`Knowledge.join`).

The names of a checked function and those of the lowered one are kept in stacks of the same form. Two stacks
with names at the same places look every name up at the same place (`Frames.Same.keyOf?`).
-/

namespace ProtoScript

/-! ## Places in frames -/

namespace Frames

variable {α β : Type} {A : Frames α} {B : Frames β} {x : String} {a : α} {k : Nat × String}

/-- What stands at a place. -/
def at? : Frames α → Nat × String → Option α
  | [], _ => none
  | s :: outer, k => if k.1 = outer.length then s.lookup k.2 else at? outer k

/-- The place of the innermost use of a name. -/
def keyOf? : Frames α → String → Option (Nat × String)
  | [], _ => none
  | s :: outer, x => if (s.lookup x).isSome then some (outer.length, x) else keyOf? outer x

theorem at?_eq_none (h : A.length ≤ k.1) : at? A k = none := by
  induction A with
  | nil => rfl
  | cons s outer ih =>
      rw [List.length_cons] at h
      rw [at?, if_neg (by omega)]
      exact ih (by omega)

theorem lt_of_at? (h : at? A k = some a) : k.1 < A.length := by
  by_contra hle
  rw [at?_eq_none (Nat.not_lt.1 hle)] at h
  cases h

theorem at?_push : at? ([] :: A) = at? A := by
  funext k
  rw [at?]
  split
  · rename_i hk
    rw [at?_eq_none (Nat.le_of_eq hk.symm)]
    rfl
  · rfl

/-- Leaving the innermost scope forgets what stands in it. -/
theorem at?_tail : at? A.tail k = if k.1 < A.tail.length then at? A k else none := by
  split
  · rename_i hk
    cases A with
    | nil => rfl
    | cons s outer =>
        have hne : k.1 ≠ outer.length := Nat.ne_of_lt hk
        rw [at?, if_neg hne, List.tail_cons]
  · rename_i hk
    exact at?_eq_none (Nat.not_lt.1 hk)

theorem at?_of_tail (h : at? A.tail k = some a) : at? A k = some a := by
  rw [at?_tail] at h
  split at h
  · exact h
  · cases h

theorem at?_cons {s : List (String × α)} {outer : Frames α} :
    at? (s :: outer) k = if k.1 = outer.length then s.lookup k.2 else at? outer k := rfl

/-- A name is looked up at its place. -/
theorem keyOf?_spec (h : keyOf? A x = some k) : k.2 = x ∧ ∃ a, find? A x = some a ∧ at? A k = some a := by
  induction A with
  | nil => cases h
  | cons s outer ih =>
      rw [keyOf?] at h
      rw [find?_cons]
      cases hs : s.lookup x with
      | some a =>
          rw [hs, Option.isSome_some, if_pos rfl] at h
          cases h
          exact ⟨rfl, a, rfl, by rw [at?_cons, if_pos rfl, hs]⟩
      | none =>
          rw [hs, Option.isSome_none, if_neg Bool.false_ne_true] at h
          obtain ⟨hx, a, hfind, hat⟩ := ih h
          exact ⟨hx, a, hfind, by rw [at?_cons, if_neg (Nat.ne_of_lt (lt_of_at? hat)), hat]⟩

theorem exists_keyOf? (h : find? A x = some a) : ∃ k, keyOf? A x = some k ∧ at? A k = some a := by
  induction A with
  | nil => cases h
  | cons s outer ih =>
      rw [find?_cons] at h
      rw [keyOf?]
      cases hs : s.lookup x with
      | some b =>
          rw [hs, Option.some_or] at h
          exact ⟨(outer.length, x), rfl, by rw [at?_cons, if_pos rfl, hs, h]⟩
      | none =>
          rw [hs, Option.none_or] at h
          obtain ⟨k, hk, hat⟩ := ih h
          exact ⟨k, hk, by rw [at?_cons, if_neg (Nat.ne_of_lt (lt_of_at? hat)), hat]⟩

/-- A new name in the innermost scope stands at a new place. -/
theorem at?_declare {s : List (String × α)} {outer : Frames α} :
    at? (declare x a (s :: outer)) k = if k = (outer.length, x) then some a else at? (s :: outer) k := by
  obtain ⟨n, y⟩ := k
  rw [declare, at?_cons, at?_cons, List.lookup_cons]
  by_cases hn : n = outer.length
  · by_cases hy : y = x
    · simp [hn, hy]
    · simp [hn, hy, beq_eq_false_iff_ne.2 hy]
  · simp [hn]

theorem find?_declare {s : List (String × α)} {outer : Frames α} (y : String) :
    find? (declare x a (s :: outer)) y = if y = x then some a else find? (s :: outer) y := by
  rw [declare, find?_cons, find?_cons, List.lookup_cons]
  by_cases hy : y = x
  · simp [hy]
  · simp [hy, beq_eq_false_iff_ne.2 hy]

/-- The frames have variables at the same places. -/
structure Same (A : Frames α) (B : Frames β) : Prop where
  length : A.length = B.length
  bound : ∀ k, (at? A k).isSome = (at? B k).isSome

namespace Same

theorem refl (A : Frames α) : Same A A := ⟨rfl, fun _ => rfl⟩

theorem trans {γ : Type} {C : Frames γ} (h : Same A B) (h' : Same B C) : Same A C :=
  ⟨h.length.trans h'.length, fun k => (h.bound k).trans (h'.bound k)⟩

theorem push (h : Same A B) : Same ([] :: A) ([] :: B) :=
  ⟨congrArg Nat.succ h.length, fun k => by rw [at?_push, at?_push, h.bound]⟩

theorem tail (h : Same A B) : Same A.tail B.tail := by
  have hlength : A.tail.length = B.tail.length := by
    rw [List.length_tail, List.length_tail, h.length]
  refine ⟨hlength, fun k => ?_⟩
  rw [at?_tail, at?_tail, hlength]
  split
  · exact h.bound k
  · rfl

/-- The innermost scopes have the same names, and so have those around. -/
theorem of_cons {s : List (String × α)} {t : List (String × β)} (h : Same (s :: A) (t :: B)) :
    (∀ x, (s.lookup x).isSome = (t.lookup x).isSome) ∧ Same A B := by
  have hlength : A.length = B.length := Nat.succ.inj h.length
  refine ⟨fun x => ?_, h.tail⟩
  have hx := h.bound (A.length, x)
  rwa [at?_cons, at?_cons, if_pos rfl, if_pos hlength] at hx

theorem cons {s : List (String × α)} {t : List (String × β)} (h : Same A B)
    (hst : ∀ x, (s.lookup x).isSome = (t.lookup x).isSome) : Same (s :: A) (t :: B) := by
  refine ⟨congrArg Nat.succ h.length, fun k => ?_⟩
  rw [at?_cons, at?_cons, h.length]
  split
  · exact hst k.2
  · exact h.bound k

/-- A name has the same place on both sides. -/
theorem keyOf? (h : Same A B) (x : String) : Frames.keyOf? A x = Frames.keyOf? B x := by
  induction A generalizing B with
  | nil =>
      cases B with
      | nil => rfl
      | cons t B => cases h.length
  | cons s A ih =>
      cases B with
      | nil => cases h.length
      | cons t B =>
          obtain ⟨hst, hrest⟩ := h.of_cons
          rw [Frames.keyOf?, Frames.keyOf?, hst, hrest.length, ih hrest]

end Same

end Frames

/-- For each place, whether there is a variable, and whether it is known to have a value. -/
abbrev Knowledge := Nat × String → Option Bool

/-- What is known of a variable on each of two paths. -/
def Knowledge.join (f g : Knowledge) : Knowledge := fun k =>
  (f k).bind fun x => (g k).map fun y => x && y

namespace FlowSnapshot

/-- What a snapshot says of the variables that have a value. -/
def known (snap : FlowSnapshot) : Knowledge := fun k => (snap.get? k).map FlowFact.initialized

theorem get?_join (a b : FlowSnapshot) (k : Nat × String) :
    get? (a.join b) k = (get? a k).bind fun fact => (get? b k).map fact.join := by
  unfold join get?
  induction a with
  | nil => rfl
  | cons p rest ih =>
      obtain ⟨key, fact⟩ := p
      rw [List.filterMap_cons, List.lookup_cons]
      dsimp only
      cases hb : List.lookup key b with
      | some other =>
          rw [Option.map_some, List.lookup_cons, ih]
          by_cases hk : k = key
          · simp [hk, hb]
          · simp [beq_eq_false_iff_ne.2 hk]
      | none =>
          rw [Option.map_none, ih]
          by_cases hk : k = key
          · simp [hk, hb]
          · simp [beq_eq_false_iff_ne.2 hk]

theorem known_join (a b : FlowSnapshot) : (a.join b).known = a.known.join b.known := by
  funext k
  show (get? (a.join b) k).map _ = _
  rw [get?_join]
  unfold Knowledge.join known
  cases get? a k with
  | none => rfl
  | some fact =>
      cases get? b k with
      | none => rfl
      | some other => rfl

end FlowSnapshot

namespace Scopes

/-- The bindings in scope. -/
def frames (s : Scopes) : Frames Binding := s.map Scope.bindings

/-- What is known of the variables in scope. -/
def known (s : Scopes) : Knowledge := fun k => (Frames.at? s.frames k).map Binding.initialized

variable {s s' : Scopes} {k : Nat × String}

theorem find?_frames (s : Scopes) (x : String) : Frames.find? s.frames x = s.resolve? x := by
  unfold Frames.find? frames resolve?
  rw [List.findSome?_map]
  rfl

theorem length_frames (s : Scopes) : s.frames.length = s.length := List.length_map ..

/-- Scopes of the same shape have variables at the same places. -/
theorem same_of_shape (h : s'.shape = s.shape) : Frames.Same s'.frames s.frames := by
  induction s generalizing s' with
  | nil =>
      cases s' with
      | nil => exact .refl _
      | cons => cases h
  | cons scope outer ih =>
      cases s' with
      | nil => cases h
      | cons scope' outer' =>
          obtain ⟨hscope, houter⟩ := List.cons.inj h
          refine (ih houter).cons fun x => ?_
          have hlookup := congrArg (fun t => (t.2.lookup x).isSome) hscope
          simp only [Scope.shape, Analysis.lookup_scopeTypes, Option.isSome_map] at hlookup
          exact hlookup

/-! ### How steps change what is known -/

theorem known_enter (s : Scopes) (kind : ScopeKind) : (s.enter kind).known = s.known := by
  funext k
  show (Frames.at? ([] :: s.frames) k).map _ = _
  rw [Frames.at?_push]
  rfl

theorem frames_leave (s : Scopes) : s.leave.frames = s.frames.tail := List.map_tail ..

theorem known_leave : s.leave.known k = if k.1 < s.leave.length then s.known k else none := by
  unfold known
  rw [frames_leave, Frames.at?_tail, ← frames_leave, length_frames]
  split
  · rfl
  · rfl

theorem lookup_map {f : String → Binding → Binding} (l : List (String × Binding)) (x : String) :
    (l.map fun p => (p.1, f p.1 p.2)).lookup x = (l.lookup x).map (f x) := by
  induction l with
  | nil => rfl
  | cons p rest ih =>
      rw [List.map_cons, List.lookup_cons, List.lookup_cons]
      by_cases hx : x = p.1
      · simp [hx]
      · simpa [beq_eq_false_iff_ne.2 hx] using ih

theorem known_forgetLengths (s : Scopes) : s.forgetLengths.known = s.known := by
  funext k
  unfold known
  induction s with
  | nil => rfl
  | cons scope outer ih =>
      show (Frames.at? ((scope.bindings.map fun p => (p.1, { p.2 with length? := none })) ::
        frames (forgetLengths outer)) k).map _ = (Frames.at? (scope.bindings :: frames outer) k).map _
      have hlength : (frames (forgetLengths outer)).length = (frames outer).length := by
        simp [frames, forgetLengths]
      rw [Frames.at?_cons, Frames.at?_cons, hlength]
      split
      · rw [lookup_map (f := fun _ b => { b with length? := none }), Option.map_map]
        rfl
      · exact ih

/-- A step that changes nothing but the known lengths of lists. -/
theorem known_of_forgetLengths (h : s'.forgetLengths = s.forgetLengths) : s'.known = s.known := by
  rw [← known_forgetLengths, h, known_forgetLengths]

theorem get?_snapshot (s : Scopes) (k : Nat × String) :
    s.snapshot.get? k = (Frames.at? s.frames k).map FlowFact.ofBinding := by
  induction s with
  | nil => rfl
  | cons scope outer ih =>
      have hscope : (scope.bindings.map fun p => ((outer.length, p.1), FlowFact.ofBinding p.2)).lookup k =
          if k.1 = outer.length then (scope.bindings.lookup k.2).map FlowFact.ofBinding else none := by
        induction scope.bindings with
        | nil => simp
        | cons p rest ih =>
            obtain ⟨n, x⟩ := k
            rw [List.map_cons, List.lookup_cons, List.lookup_cons, ih]
            by_cases hkey : (n, x) = (outer.length, p.1)
            · cases hkey
              simp
            · rw [beq_eq_false_iff_ne.2 hkey]
              by_cases hn : n = outer.length
              · have hx : x ≠ p.1 := fun hx => hkey (by rw [hn, hx])
                simp [hn, beq_eq_false_iff_ne.2 hx]
              · simp [hn]
      show List.lookup k (_ ++ snapshot outer) = (Frames.at? (scope.bindings :: frames outer) k).map _
      rw [List.lookup_append, hscope, Frames.at?_cons, length_frames]
      split
      · rename_i hk
        have houter : List.lookup k (snapshot outer) = none := by
          refine ih.trans ?_
          rw [Frames.at?_eq_none (Nat.le_of_eq (by rw [length_frames, hk]))]
          rfl
        rw [houter, Option.or_none]
      · rw [Option.none_or]
        exact ih

theorem known_snapshot (s : Scopes) : FlowSnapshot.known s.snapshot = s.known := by
  funext k
  unfold FlowSnapshot.known known
  rw [get?_snapshot, Option.map_map]
  rfl

theorem length_restore (snap : FlowSnapshot) (s : Scopes) : (s.restore snap).length = s.length := by
  have hshape := congrArg List.length (shape_restore snap s)
  rwa [shape, shape, List.length_map, List.length_map] at hshape

theorem length_update (x : String) (f : Binding → Binding) (s : Scopes) :
    (s.update x f).length = s.length := by
  induction s with
  | nil => rfl
  | cons scope outer ih =>
      rw [update]
      split
      · rfl
      · exact congrArg Nat.succ ih

/-- Going on with a snapshot replaces what is known of the variables it has. -/
theorem known_restore (snap : FlowSnapshot) (s : Scopes) (k : Nat × String) :
    (s.restore snap).known k = (s.known k).map fun i => (snap.known k).getD i := by
  unfold known
  induction s with
  | nil => rfl
  | cons scope outer ih =>
      let apply : String → Binding → Binding := fun x b =>
        ((snap.get? (outer.length, x)).map fun fact => fact.apply b).getD b
      show (Frames.at? (scope.bindings.map (fun p => (p.1, apply p.1 p.2)) :: frames (restore snap outer))
        k).map _ = ((Frames.at? (scope.bindings :: frames outer) k).map _).map _
      rw [Frames.at?_cons, Frames.at?_cons, length_frames, length_frames, length_restore]
      split
      · rename_i hk
        rw [lookup_map, Option.map_map, Option.map_map]
        refine congrArg (fun f => Option.map f (scope.bindings.lookup k.2)) (funext fun b => ?_)
        have hkey : (outer.length, k.2) = k := by rw [← hk]
        simp only [Function.comp_apply, apply, FlowSnapshot.known, hkey]
        cases snap.get? k with
        | none => rfl
        | some fact => rfl
      · exact ih

/-- Where the snapshot has just the variables in scope, all that is known is what it says. -/
theorem known_restore_of_bound {snap : FlowSnapshot} (h : ∀ k, (snap.known k).isSome = (s.known k).isSome) :
    (s.restore snap).known = snap.known := by
  funext k
  rw [known_restore]
  have hk := h k
  cases hsnap : snap.known k with
  | none =>
      rw [hsnap, Option.isSome_none] at hk
      have hnone : s.known k = none := by simpa using hk.symm
      rw [hnone]
      rfl
  | some i =>
      rw [hsnap, Option.isSome_some] at hk
      obtain ⟨j, hj⟩ := Option.isSome_iff_exists.1 hk.symm
      rw [hj]
      rfl

/-- The innermost binding of a name is changed. -/
theorem at?_update (x : String) (f : Binding → Binding) (s : Scopes) (k : Nat × String) :
    Frames.at? (s.update x f).frames k =
      if Frames.keyOf? s.frames x = some k then (Frames.at? s.frames k).map f else Frames.at? s.frames k := by
  induction s with
  | nil => simp [update, frames, Frames.keyOf?]
  | cons scope outer ih =>
      have hlength : (frames (update x f outer)).length = (frames outer).length := by
        rw [length_frames, length_frames]
        exact length_update x f outer
      have hkey : Frames.keyOf? (frames (scope :: outer)) x = if (scope.get? x).isSome then
          some ((frames outer).length, x) else Frames.keyOf? (frames outer) x := rfl
      rw [update, hkey]
      by_cases hx : (scope.get? x).isSome
      · let change : String → Binding → Binding := fun y b => if y = x then f b else b
        rw [if_pos hx, if_pos hx]
        show Frames.at? (scope.bindings.map (fun p => (p.1, change p.1 p.2)) :: frames outer) k =
          if _ then (Frames.at? (scope.bindings :: frames outer) k).map f
          else Frames.at? (scope.bindings :: frames outer) k
        rw [Frames.at?_cons, Frames.at?_cons, lookup_map]
        obtain ⟨n, y⟩ := k
        by_cases hn : n = (frames outer).length
        · by_cases hy : y = x
          · simp [hn, hy, change]
          · simp [hn, hy, Ne.symm hy, change]
        · simp [hn, Ne.symm hn]
      · rw [if_neg hx, if_neg hx]
        show Frames.at? (scope.bindings :: frames (update x f outer)) k =
          if _ then (Frames.at? (scope.bindings :: frames outer) k).map f
          else Frames.at? (scope.bindings :: frames outer) k
        rw [Frames.at?_cons, Frames.at?_cons, hlength, ih]
        by_cases hk : k.1 = (frames outer).length
        · rw [if_pos hk, if_pos hk, if_neg]
          intro hkey
          obtain ⟨_, _, _, hat⟩ := Frames.keyOf?_spec hkey
          exact Nat.ne_of_lt (Frames.lt_of_at? hat) hk
        · rw [if_neg hk, if_neg hk]

/-- A new name is bound in the innermost scope. -/
theorem known_define {x : String} {b : Binding} {scope : Scope} {outer : Scopes}
    (h : Scopes.define x b (scope :: outer) = .ok s') :
    known (scope :: outer) (outer.length, x) = none ∧
      ∀ k, s'.known k = if k = (outer.length, x) then some b.initialized else known (scope :: outer) k := by
  rcases define_eq_ok h with ⟨hnil, _⟩ | ⟨_, _, hcons, hnew, rfl⟩
  · cases hnil
  · cases hcons
    have hknown : ∀ (bs : List (String × Binding)) k, known (⟨scope.kind, bs⟩ :: outer) k =
        if k.1 = outer.length then (bs.lookup k.2).map Binding.initialized else known outer k := by
      intro bs k
      show (Frames.at? (bs :: frames outer) k).map _ = _
      rw [Frames.at?_cons, length_frames]
      split
      · rfl
      · rfl
    have hlookup : scope.bindings.lookup x = none := hnew
    refine ⟨?_, fun k => ?_⟩
    · rw [show scope = ⟨scope.kind, scope.bindings⟩ from rfl, hknown, if_pos rfl, hlookup]
      rfl
    · rw [hknown, show scope = ⟨scope.kind, scope.bindings⟩ from rfl, hknown, List.lookup_append,
        List.lookup_cons]
      obtain ⟨n, y⟩ := k
      by_cases hn : n = outer.length
      · by_cases hy : y = x
        · simp [hn, hy, hlookup]
        · simp [hn, hy, beq_eq_false_iff_ne.2 hy]
      · simp [hn]

end Scopes

end ProtoScript
