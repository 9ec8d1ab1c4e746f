import Mathlib.Logic.Basic
import ProtoScript.Analysis.Program

set_option autoImplicit false

/-!
# What checking leaves alone

A step of checking never takes a diagnostic back, so a step that ends without any began without any.
Most steps also leave the names in scope as they are, with their kinds and types (`Keeps`): what
changes is what is known of their values. Looking at an expression changes no more than the known
lengths of lists (`Inspects`). Declarations add names to the innermost scope, and nothing else does
(`Grows`).
-/

namespace ProtoScript

/-! ## The shape of scopes -/

namespace Scope

/-- The names of a scope, with their types. -/
def types (s : Scope) : List (String × Ty) := s.bindings.map fun p => (p.1, p.2.ty)

/-- What a scope is apart from what is known of the values in it. -/
def shape (s : Scope) : ScopeKind × List (String × Ty) := (s.kind, s.types)

theorem shape_map {f : String → Binding → Binding} (h : ∀ n b, (f n b).ty = b.ty) (s : Scope) :
    (s.map f).shape = s.shape := by
  simp [shape, types, map, Function.comp_def, h]

end Scope

namespace Scopes

/-- What scopes are apart from what is known of the values in them. -/
def shape (s : Scopes) : List (ScopeKind × List (String × Ty)) := s.map Scope.shape

theorem shape_restore (snap : FlowSnapshot) (s : Scopes) : (s.restore snap).shape = s.shape := by
  induction s with
  | nil => rfl
  | cons scope outer ih =>
      refine congrArg₂ List.cons (Scope.shape_map (fun n b => ?_) scope) ih
      cases snap.get? (outer.length, n) with
      | none => rfl
      | some fact => rfl

theorem shape_forgetLengths (s : Scopes) : s.forgetLengths.shape = s.shape := by
  induction s with
  | nil => rfl
  | cons scope outer ih =>
      refine congrArg₂ List.cons (Scope.shape_map (fun n b => ?_) scope) ih
      rfl

theorem shape_of_forgetLengths {s s' : Scopes} (h : s'.forgetLengths = s.forgetLengths) :
    s'.shape = s.shape := by
  rw [← shape_forgetLengths, h, shape_forgetLengths]

theorem shape_update (name : String) {f : Binding → Binding} (h : ∀ b, (f b).ty = b.ty)
    (s : Scopes) : (s.update name f).shape = s.shape := by
  induction s with
  | nil => rfl
  | cons scope outer ih =>
      rw [update]
      split
      · refine congrArg₂ List.cons (Scope.shape_map (fun n b => ?_) scope) rfl
        split
        · exact h b
        · rfl
      · exact congrArg₂ List.cons rfl ih

theorem forgetLengths_update (name : String) {f : Binding → Binding}
    (h : ∀ b, { f b with length? := none } = { b with length? := none }) (s : Scopes) :
    (s.update name f).forgetLengths = s.forgetLengths := by
  induction s with
  | nil => rfl
  | cons scope outer ih =>
      rw [update]
      split
      · refine congrArg₂ List.cons ?_ rfl
        simp only [Scope.modify, Scope.map, List.map_map]
        refine congrArg (Scope.mk scope.kind) (List.map_congr_left fun p _ => ?_)
        simp only [Function.comp_apply]
        split
        · rw [h]
        · rfl
      · exact congrArg₂ List.cons rfl ih

/-- A name can be bound in the innermost scope if it is new there. -/
theorem define_eq_ok {name : String} {b : Binding} {s s' : Scopes} (h : s.define name b = .ok s') :
    (s = [] ∧ s' = []) ∨ ∃ scope outer, s = scope :: outer ∧ scope.get? name = none ∧
      s' = { scope with bindings := scope.bindings ++ [(name, b)] } :: outer := by
  cases s with
  | nil =>
      cases h
      exact .inl ⟨rfl, rfl⟩
  | cons scope outer =>
      rw [define] at h
      cases hget : scope.get? name with
      | some previous =>
          rw [hget] at h
          cases h
      | none =>
          rw [hget] at h
          cases h
          exact .inr ⟨scope, outer, rfl, hget, rfl⟩

end Scopes

namespace Analysis

/-! ## Steps -/

/-- Diagnostics were added at most, and nothing has changed in the scopes but the known lengths of lists. -/
structure State.Inspects (s s' : State) : Prop where
  found : s.found <+: s'.found
  scopes : s'.scopes.forgetLengths = s.scopes.forgetLengths

/-- Diagnostics were added at most, and the names in scope are as they were. -/
structure State.Keeps (s s' : State) : Prop where
  found : s.found <+: s'.found
  shape : s'.scopes.shape = s.scopes.shape

/-- Diagnostics were added at most, and names in the innermost scope. -/
structure State.Grows (s s' : State) : Prop where
  found : s.found <+: s'.found
  kinds : s'.scopes.shape.map Prod.fst = s.scopes.shape.map Prod.fst
  outer : s'.scopes.shape.tail = s.scopes.shape.tail

/-- The step adds diagnostics at most, and changes nothing in the scopes but the known lengths of lists. -/
def Inspects {α : Type} (m : Check α) : Prop := ∀ (c : Context) (s : State), s.Inspects (m c s).2

/-- The step adds diagnostics at most, and leaves the names in scope as they are. -/
def Keeps {α : Type} (m : Check α) : Prop := ∀ (c : Context) (s : State), s.Keeps (m c s).2

/-- The step adds diagnostics at most, and names in the innermost scope. -/
def Grows {α : Type} (m : Check α) : Prop := ∀ (c : Context) (s : State), s.Grows (m c s).2

section

variable {α β : Type} {m : Check α} {f : α → Check β}

theorem Inspects.keeps (h : Inspects m) : Keeps m := fun c s =>
  ⟨(h c s).found, Scopes.shape_of_forgetLengths (h c s).scopes⟩

theorem Keeps.grows (h : Keeps m) : Grows m := fun c s =>
  ⟨(h c s).found, congrArg _ (h c s).shape, congrArg _ (h c s).shape⟩

theorem Inspects.grows (h : Inspects m) : Grows m := h.keeps.grows

theorem Inspects.bind (hm : Inspects m) (hf : ∀ a, Inspects (f a)) : Inspects (m >>= f) := fun c s =>
  ⟨(hm c s).found.trans (hf _ c _).found, ((hf _ c _).scopes).trans (hm c s).scopes⟩

theorem Keeps.bind (hm : Keeps m) (hf : ∀ a, Keeps (f a)) : Keeps (m >>= f) := fun c s =>
  ⟨(hm c s).found.trans (hf _ c _).found, ((hf _ c _).shape).trans (hm c s).shape⟩

theorem Grows.bind (hm : Grows m) (hf : ∀ a, Grows (f a)) : Grows (m >>= f) := fun c s =>
  ⟨(hm c s).found.trans (hf _ c _).found, ((hf _ c _).kinds).trans (hm c s).kinds,
    ((hf _ c _).outer).trans (hm c s).outer⟩

theorem inspects_pure (a : α) : Inspects (pure a : Check α) := fun _ _ => ⟨List.prefix_refl _, rfl⟩

theorem inspects_read : Inspects (read : Check Context) := fun _ _ => ⟨List.prefix_refl _, rfl⟩

theorem inspects_get : Inspects (get : Check State) := fun _ _ => ⟨List.prefix_refl _, rfl⟩

theorem keeps_pure (a : α) : Keeps (pure a : Check α) := (inspects_pure a).keeps

theorem Keeps.withReader (h : Keeps m) (g : Context → Context) : Keeps (withReader g m) :=
  fun c s => h (g c) s

end

theorem inspects_modifyScopes {f : Scopes → Scopes} (h : ∀ s, (f s).forgetLengths = s.forgetLengths) :
    Inspects (modifyScopes f) := fun _ s => ⟨List.prefix_refl _, h s.scopes⟩

theorem keeps_modifyScopes {f : Scopes → Scopes} (h : ∀ s, (f s).shape = s.shape) :
    Keeps (modifyScopes f) := fun _ s => ⟨List.prefix_refl _, h s.scopes⟩

theorem inspects_report (problem : Problem) (span : Span) : Inspects (report problem span) :=
  fun _ _ => ⟨List.prefix_append _ _, rfl⟩

theorem inspects_reportName (problem : Problem) (span : Span) (name : String)
    (candidates : List String) : Inspects (reportName problem span name candidates) :=
  fun _ _ => ⟨List.prefix_append _ _, rfl⟩

/-- A name that is new to the innermost scope is bound there. -/
theorem define_eq (name : String) (b : Binding) (c : Context) (s : State) :
    define name b c s =
      match s.scopes.define name b with
      | .ok scopes => (none, { s with scopes })
      | .error previous => (some previous, s) := by
  have hrun : define name b c s =
      (match s.scopes.define name b with
        | .ok scopes => do
          modifyScopes fun _ => scopes
          return none
        | .error previous => return some previous : Check (Option Span)) c s := rfl
  rw [hrun]
  cases s.scopes.define name b with
  | ok scopes => rfl
  | error previous => rfl

theorem grows_define (name : String) (b : Binding) : Grows (define name b) := by
  intro c s
  rw [define_eq]
  cases hdefine : s.scopes.define name b with
  | error previous => exact ⟨List.prefix_refl _, rfl, rfl⟩
  | ok scopes =>
      rcases Scopes.define_eq_ok hdefine with ⟨hs, rfl⟩ | ⟨scope, outer, hs, _, rfl⟩
      · exact ⟨List.prefix_refl _, by rw [hs], by rw [hs]⟩
      · exact ⟨List.prefix_refl _, by rw [hs]; rfl, by rw [hs]; rfl⟩

/-! ## Scopes of their own -/

/-- Behind a step in a scope of its own all names are as before it. -/
theorem Grows.inScope {α : Type} {m : Check α} (h : Grows m) (kind : ScopeKind) :
    Keeps (Analysis.inScope kind m) := by
  intro c s
  have hm := h c { s with scopes := s.scopes.enter kind }
  refine ⟨hm.found, ?_⟩
  have hshape : (Analysis.inScope kind m c s).2.scopes.shape =
      (m c { s with scopes := s.scopes.enter kind }).2.scopes.shape.tail := List.map_tail ..
  rw [hshape, hm.outer]
  rfl

end Analysis

end ProtoScript
