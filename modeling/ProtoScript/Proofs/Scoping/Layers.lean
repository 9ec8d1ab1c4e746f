import ProtoScript.Proofs.Analysis.TypedStmt
import ProtoScript.Proofs.Lowering.Visits

set_option autoImplicit false

/-!
# Scopes that checking and lowering share

Checking and lowering each keep a stack of scopes, and open and close them on their own. What they have in
common at a point of a function is described by layers: one for each scope of the checker, with the names
that are declared in it, their types, and the variables that lowering has made for them. `Point.Sound` says
that the layers describe what both know; what they make of a name follows (`Point.Sound.sameName`), and so
does where jumps go (`Point.Sound.breaks`, `Point.Sound.continues`).

There is one place where the two differ: the step of a `for` loop is checked in the scope of the body, but
lowered outside of it. The layer of the body is then a `step`; its names are hidden from lowering, and so are
its labels.
-/

namespace ProtoScript

/-- Statements declare names in the innermost scope only. -/
theorem TyEnv.afterAll_cons (frame : List (String × Ty)) (Γ : TyEnv) (body : List Stmt) :
    TyEnv.afterAll (frame :: Γ) body = (TyEnv.afterAll [frame] body).headD [] :: Γ := by
  unfold TyEnv.afterAll
  induction body generalizing frame with
  | nil => rfl
  | cons stmt rest ih =>
      rw [List.foldl_cons, List.foldl_cons]
      cases stmt with
      | varDecl sp x ty isConst init => exact ih ((x, ty) :: frame)
      | _ => exact ih frame

namespace Scoping

open Analysis Lowering

/-! ## Layers -/

/-- What a scope belongs to, and for a scope that can be left by jumps the labels they go to. -/
inductive Place where
  | function
  | block
  /-- The body of a loop. -/
  | loop (done again : String)
  /-- The body of a `for` loop, seen from the step of the loop. -/
  | step
  /-- An arm of a switch. -/
  | switch (done : String)
  deriving DecidableEq

/-- The kind of the scope that the checker is in. -/
def Place.kind : Place → ScopeKind
  | function => .function
  | block => .block
  | loop _ _ => .loop
  | step => .loop
  | switch _ => .switch

/-- Where `break` goes. -/
def Place.breakLabel? : Place → Option String
  | loop done _ | switch done => some done
  | _ => none

/-- Where `continue` goes. -/
def Place.continueLabel? : Place → Option String
  | loop _ again => some again
  | _ => none

/-- Where jumps go, if they can leave the scope. -/
def Place.targets? (p : Place) : Option (String × Option String) :=
  p.breakLabel?.map fun label => (label, p.continueLabel?)

/-- A local name, with its type. -/
inductive Declared where
  /-- A variable was made for it. -/
  | visible (ty : Ty) (var : String)
  /-- The body of a loop declares it, and the point is in the step of the loop. -/
  | hidden (ty : Ty)
  deriving DecidableEq

/-- The type that the checker has for the name. -/
def Declared.ty : Declared → Ty
  | visible ty _ | hidden ty => ty

/-- The variable that lowering has for the name. -/
def Declared.var? : Declared → Option String
  | visible _ var => some var
  | hidden _ => none

/-- A scope, with the names declared in it. -/
structure Layer where
  place : Place
  names : List (String × Declared)

namespace Layer

/-- The names of a layer, with their types. -/
def types (l : Layer) : List (String × Ty) := l.names.map fun p => (p.1, p.2.ty)

/-- The names of a layer that lowering knows, with their variables. -/
def vars (l : Layer) : List (String × String) := l.names.filterMap fun p => p.2.var?.map (p.1, ·)

/-- The layer with one more name. -/
def declare (x : String) (d : Declared) (l : Layer) : Layer := { l with names := (x, d) :: l.names }

/-- The layer of the body of a loop, seen from the step: the names that the body declares. -/
def ofStep (body : List Stmt) : Layer :=
  ⟨.step, ((TyEnv.afterAll [[]] body).headD []).map fun p => (p.1, .hidden p.2)⟩

theorem lookup_types (l : Layer) (x : String) : l.types.lookup x = (l.names.lookup x).map Declared.ty := by
  unfold types
  induction l.names with
  | nil => rfl
  | cons p rest ih =>
      rw [List.map_cons, List.lookup_cons, List.lookup_cons, ih]
      cases x == p.1 with
      | true => rfl
      | false => rfl

theorem lookup_vars_of_none {l : Layer} {x : String} (h : l.names.lookup x = none) :
    l.vars.lookup x = none := by
  rw [List.lookup_eq_none_iff] at h ⊢
  intro p hp
  obtain ⟨p', hp', hvar⟩ := List.mem_filterMap.1 hp
  obtain ⟨v, _, rfl⟩ := Option.map_eq_some_iff.1 hvar
  exact h p' hp'

theorem lookup_vars_of_visible {l : Layer} {x v : String} {ty : Ty}
    (h : l.names.lookup x = some (.visible ty v)) : l.vars.lookup x = some v := by
  unfold vars
  obtain ⟨place, names⟩ := l
  dsimp only at h ⊢
  induction names with
  | nil => cases h
  | cons p rest ih =>
      rw [List.lookup_cons] at h
      cases hx : x == p.1 with
      | true =>
          rw [hx] at h
          have hp : p.2 = .visible ty v := Option.some.inj h
          rw [List.filterMap_cons, hp]
          show List.lookup x ((p.1, v) :: _) = _
          rw [List.lookup_cons, hx]
      | false =>
          rw [hx] at h
          have hrest := ih h
          rw [List.filterMap_cons]
          cases p.2 with
          | hidden ty' => exact hrest
          | visible ty' v' =>
              show List.lookup x ((p.1, v') :: _) = _
              rw [List.lookup_cons, hx]
              exact hrest

theorem types_ofStep (body : List Stmt) :
    (ofStep body).types = (TyEnv.afterAll [[]] body).headD [] := by
  unfold types ofStep
  rw [List.map_map]
  exact List.map_id' _

theorem vars_ofStep (body : List Stmt) : (ofStep body).vars = [] := by
  unfold vars ofStep
  rw [List.filterMap_map]
  exact List.filterMap_eq_nil_iff.2 fun _ _ => rfl

end Layer

/-- The scopes around a point, innermost first. -/
abbrev Layers := List Layer

namespace Layers

/-- The innermost declaration of a name. -/
def declared? (ls : Layers) (x : String) : Option Declared := ls.findSome? fun l => l.names.lookup x

/-- Declares a name in the innermost scope. -/
def declare (x : String) (d : Declared) : Layers → Layers
  | [] => []
  | l :: outer => l.declare x d :: outer

theorem declared?_cons (l : Layer) (outer : Layers) (x : String) :
    declared? (l :: outer) x = (l.names.lookup x).or (outer.declared? x) := by
  unfold declared?
  rw [List.findSome?_cons]
  cases l.names.lookup x with
  | none => rfl
  | some d => rfl

theorem types_declare (x : String) (d : Declared) (ls : Layers) :
    (ls.declare x d).map Layer.types = Frames.declare x d.ty (ls.map Layer.types) := by
  cases ls with
  | nil => rfl
  | cons l outer => rfl

theorem places_declare (x : String) (d : Declared) (ls : Layers) :
    (ls.declare x d).map Layer.place = ls.map Layer.place := by
  cases ls with
  | nil => rfl
  | cons l outer => rfl

end Layers

/-! ## Points -/

/-- A point of a function: what the checker knows there, what lowering has written, and the scopes around
the point. -/
structure Point where
  state : Analysis.State
  builder : Builder
  layers : Layers

/-- The scope in which the checker finds a name, counted from the innermost. -/
def scopeOf? (scopes : Scopes) (x : String) : Option Nat :=
  scopes.findIdx? fun scope => (scope.get? x).isSome

/-- The layer in which a name is declared, counted from the innermost. -/
def Layers.layerOf? (ls : Layers) (x : String) : Option Nat :=
  ls.findIdx? fun l => (l.names.lookup x).isSome

/-- The innermost layer of one of the kinds. -/
def Layers.innermost? (ls : Layers) (kinds : List ScopeKind) : Option Layer :=
  ls.find? fun l => l.place.kind ∈ kinds

/-- Where lowering writes a `break` to. -/
def breakLabel? (b : Builder) : Option String := b.jumps.head?.map JumpTargets.breakLabel

/-- Where lowering writes a `continue` to. -/
def continueLabel? (b : Builder) : Option String := b.jumps.findSome? JumpTargets.continueLabel

/-- The builder in a scope of its own that belongs to the place. -/
def enterBuilder (b : Builder) (place : Place) : Builder :=
  (b.jumpingTo ((place.targets?.map fun t => ⟨t.1, t.2, b.tryDepth⟩).toList ++ b.jumps)).withScopes
    ([] :: b.scopes)

namespace Point

/-- A name is resolved alike by the checker, and by lowering where that resolves it to `var?`: the checker
finds it in the scope of the layer that declares it, and lowering has the variable made for that
declaration. Of a name that is hidden from lowering only the first is said. -/
structure SameName (q : Point) (x : String) (var? : Option String) : Prop where
  scope : scopeOf? q.state.scopes x = q.layers.layerOf? x
  ty : (q.state.scopes.resolve? x).map Binding.ty = (q.layers.declared? x).map Declared.ty
  free : q.layers.declared? x = none → var? = none
  bound : ∀ ty v, q.layers.declared? x = some (.visible ty v) → var? = some v

/-- A jump out of the innermost scope of one of the kinds goes to `label?`: the checker finds that scope
where the innermost such layer is, and the label is the one of the layer. Of a jump out of the body of a
loop, seen from the step, only the first is said. -/
structure SameJump (q : Point) (kinds : List ScopeKind) (ofPlace : Place → Option String)
    (label? : Option String) : Prop where
  scope : q.state.scopes.findIdx? (fun s => s.kind ∈ kinds) =
    q.layers.findIdx? fun l => l.place.kind ∈ kinds
  label : ∀ l, q.layers.innermost? kinds = some l → l.place ≠ .step →
    ∃ label, ofPlace l.place = some label ∧ label? = some label

/-- The layers describe what the checker and lowering know. -/
structure Sound (q : Point) : Prop where
  types : Views q.state.scopes (q.layers.map Layer.types)
  kinds : q.state.scopes.shape.map Prod.fst = q.layers.map fun l => l.place.kind
  vars : ∀ x, Frames.find? q.builder.scopes x = Frames.find? (q.layers.map Layer.vars) x
  jumps : q.builder.jumps.map (fun t => (t.breakLabel, t.continueLabel)) =
    q.layers.filterMap fun l => l.place.targets?
  /-- Both are inside of the scope of the function. -/
  inside : q.builder.scopes ≠ []
  within : q.layers ≠ []

end Point

/-! ## What follows of names and jumps -/

section

variable {c : Analysis.Context} {s s' : Analysis.State} {x : String} {b : Binding}

theorem define_views (h : define x b c s = (none, s')) {Γ : TyEnv} (hs : Views s.scopes Γ) :
    Views s'.scopes (Frames.declare x b.ty Γ) := by
  rw [define_eq] at h
  cases hdefine : s.scopes.define x b with
  | error previous =>
      rw [hdefine] at h
      cases h
  | ok scopes =>
      rw [hdefine] at h
      cases h
      exact (hs.define hdefine).2

theorem define_kinds {r : Option Span} (h : define x b c s = (r, s')) :
    s'.scopes.shape.map Prod.fst = s.scopes.shape.map Prod.fst := by
  have hkinds := (grows_define x b c s).kinds
  rw [h] at hkinds
  exact hkinds

end

/-- The checker finds a name where it is declared. -/
theorem scopeOf?_eq {scopes : Scopes} {ls : Layers} (h : Views scopes (ls.map Layer.types)) (x : String) :
    scopeOf? scopes x = ls.layerOf? x := by
  unfold scopeOf? Layers.layerOf?
  unfold Views Scopes.shape at h
  induction scopes generalizing ls with
  | nil =>
      cases ls with
      | nil => rfl
      | cons l outer => cases h
  | cons scope scopes ih =>
      cases ls with
      | nil => cases h
      | cons l outer =>
          obtain _ | ⟨hframe, hrest⟩ := h
          have hhere : (scope.get? x).isSome = (l.names.lookup x).isSome := by
            have hlookup := hframe x
            rw [show scope.shape.2 = scope.types from rfl, lookup_scopeTypes, l.lookup_types] at hlookup
            simpa using congrArg Option.isSome hlookup
          rw [List.findIdx?_cons, List.findIdx?_cons, hhere, ih hrest]

theorem Layers.find?_types (ls : Layers) (x : String) :
    Frames.find? (ls.map Layer.types) x = (ls.declared? x).map Declared.ty := by
  induction ls with
  | nil => rfl
  | cons l outer ih =>
      rw [List.map_cons, Frames.find?_cons, ih, l.lookup_types, Layers.declared?_cons]
      cases l.names.lookup x with
      | none => rfl
      | some d => rfl

theorem Layers.find?_vars_of_none {ls : Layers} {x : String} (h : ls.declared? x = none) :
    Frames.find? (ls.map Layer.vars) x = none := by
  induction ls with
  | nil => rfl
  | cons l outer ih =>
      rw [Layers.declared?_cons, Option.or_eq_none_iff] at h
      rw [List.map_cons, Frames.find?_cons, Layer.lookup_vars_of_none h.1, ih h.2]
      rfl

theorem Layers.find?_vars_of_visible {ls : Layers} {x v : String} {ty : Ty}
    (h : ls.declared? x = some (.visible ty v)) : Frames.find? (ls.map Layer.vars) x = some v := by
  induction ls with
  | nil => cases h
  | cons l outer ih =>
      rw [Layers.declared?_cons] at h
      rw [List.map_cons, Frames.find?_cons]
      cases hx : l.names.lookup x with
      | none =>
          rw [hx] at h
          rw [Layer.lookup_vars_of_none hx]
          exact ih h
      | some d =>
          rw [hx] at h
          cases h
          rw [Layer.lookup_vars_of_visible hx]
          rfl

/-- The innermost target of jumps is that of the innermost loop or switch, unless that is left. -/
theorem Layers.head?_targets {ls : Layers} {l : Layer} (hl : ls.innermost? [.loop, .switch] = some l)
    (hplace : l.place ≠ .step) : ∃ label, l.place.breakLabel? = some label ∧
      (ls.filterMap fun l => l.place.targets?).head?.map Prod.fst = some label := by
  unfold innermost? at hl
  induction ls with
  | nil => cases hl
  | cons l' outer ih =>
      rw [List.find?_cons] at hl
      rw [List.filterMap_cons]
      cases hl' : l'.place with
      | function | block =>
          rw [hl'] at hl
          exact ih hl
      | step =>
          rw [hl'] at hl
          cases hl
          exact absurd hl' hplace
      | loop done again =>
          rw [hl'] at hl
          cases hl
          exact ⟨done, by rw [hl']; rfl, rfl⟩
      | switch done =>
          rw [hl'] at hl
          cases hl
          exact ⟨done, by rw [hl']; rfl, rfl⟩

theorem Layers.findSome?_targets {ls : Layers} {l : Layer} (hl : ls.innermost? [.loop] = some l)
    (hplace : l.place ≠ .step) : ∃ label, l.place.continueLabel? = some label ∧
      (ls.filterMap fun l => l.place.targets?).findSome? Prod.snd = some label := by
  unfold innermost? at hl
  induction ls with
  | nil => cases hl
  | cons l' outer ih =>
      rw [List.find?_cons] at hl
      rw [List.filterMap_cons]
      cases hl' : l'.place with
      | function | block | switch =>
          rw [hl'] at hl
          exact ih hl
      | step =>
          rw [hl'] at hl
          cases hl
          exact absurd hl' hplace
      | loop done again =>
          rw [hl'] at hl
          cases hl
          exact ⟨again, by rw [hl']; rfl, rfl⟩

namespace Point.Sound

variable {q : Point}

/-- A name is resolved alike wherever lowering has the names of the point. -/
theorem sameName (h : q.Sound) {b : Builder} (hb : q.builder.SameScopes b) (x : String) :
    q.SameName x (Frames.find? b.scopes x) := by
  refine ⟨scopeOf?_eq h.types x, (h.types.find? x).trans (q.layers.find?_types x), ?_, ?_⟩
  · intro hx
    rw [hb.scopes, h.vars, Layers.find?_vars_of_none hx]
  · intro ty v hx
    rw [hb.scopes, h.vars, Layers.find?_vars_of_visible hx]

/-- The checker finds the innermost scope of a kind where it finds the layer. -/
theorem findIdx?_kind (h : q.Sound) (kinds : List ScopeKind) :
    q.state.scopes.findIdx? (fun s => s.kind ∈ kinds) =
      q.layers.findIdx? fun l => l.place.kind ∈ kinds := by
  have hkinds : q.state.scopes.map Scope.kind = q.layers.map fun l => l.place.kind := by
    rw [← h.kinds, Scopes.shape, List.map_map]
    rfl
  have hmap := congrArg (List.findIdx? (· ∈ kinds)) hkinds
  rw [List.findIdx?_map, List.findIdx?_map] at hmap
  exact hmap

theorem breaks (h : q.Sound) :
    q.SameJump [.loop, .switch] Place.breakLabel? (Scoping.breakLabel? q.builder) := by
  refine ⟨h.findIdx?_kind _, fun l hl hplace => ?_⟩
  have hhead : Scoping.breakLabel? q.builder =
      (q.layers.filterMap fun l => l.place.targets?).head?.map Prod.fst := by
    rw [← h.jumps, List.head?_map, Option.map_map]
    rfl
  rw [hhead]
  exact Layers.head?_targets hl hplace

theorem continues (h : q.Sound) :
    q.SameJump [.loop] Place.continueLabel? (Scoping.continueLabel? q.builder) := by
  refine ⟨h.findIdx?_kind _, fun l hl hplace => ?_⟩
  have hfind : Scoping.continueLabel? q.builder =
      (q.layers.filterMap fun l => l.place.targets?).findSome? Prod.snd := by
    rw [← h.jumps, List.findSome?_map]
    rfl
  rw [hfind]
  exact Layers.findSome?_targets hl hplace

/-! ## Steps that keep the layers sound -/

/-- Lowering has the same names, and the same labels to jump to. -/
theorem withBuilder (h : q.Sound) {b : Builder} (hscopes : b.scopes = q.builder.scopes)
    (hjumps : b.jumps.map (fun t => (t.breakLabel, t.continueLabel)) =
      q.builder.jumps.map fun t => (t.breakLabel, t.continueLabel)) :
    (⟨q.state, b, q.layers⟩ : Point).Sound where
  types := h.types
  kinds := h.kinds
  vars x := by
    show Frames.find? b.scopes x = _
    rw [hscopes]
    exact h.vars x
  jumps := hjumps.trans h.jumps
  inside := by
    show b.scopes ≠ []
    rw [hscopes]
    exact h.inside
  within := h.within

/-- Neither the checker nor lowering has changed its scopes. -/
theorem keep (h : q.Sound) {s : Analysis.State} {b : Builder}
    (hs : s.scopes.shape = q.state.scopes.shape) (hb : q.builder.SameScopes b) :
    (⟨s, b, q.layers⟩ : Point).Sound :=
  { h.withBuilder hb.scopes (congrArg _ hb.jumps) with
    types := h.types.of_shape hs
    kinds := (congrArg _ hs).trans h.kinds }

/-- Both have entered a scope. -/
theorem enter (h : q.Sound) (place : Place) :
    (⟨q.state.enter place.kind, enterBuilder q.builder place, ⟨place, []⟩ :: q.layers⟩ : Point).Sound where
  types := h.types.enter _
  kinds := congrArg (place.kind :: ·) h.kinds
  vars x := by
    show Frames.find? ([] :: q.builder.scopes) x = Frames.find? ([] :: q.layers.map Layer.vars) x
    rw [Frames.find?_cons, Frames.find?_cons, h.vars]
  jumps := by
    show ((place.targets?.map fun t => _).toList ++ q.builder.jumps).map _ = _
    rw [List.map_append, h.jumps, List.filterMap_cons]
    cases place.targets? with
    | none => rfl
    | some t => rfl
  inside := List.cons_ne_nil _ _
  within := List.cons_ne_nil _ _

/-- Both have declared a name in the innermost scope. -/
theorem declare (h : q.Sound) {c : Analysis.Context} {s : Analysis.State}
    {b : Builder} {x v : String} {binding : Binding} (hs : define x binding c q.state = (none, s))
    (hscopes : b.scopes = Frames.declare x v q.builder.scopes) (hjumps : b.jumps = q.builder.jumps) :
    (⟨s, b, q.layers.declare x (.visible binding.ty v)⟩ : Point).Sound := by
  have hplaces := q.layers.places_declare x (.visible binding.ty v)
  obtain ⟨frame, frames, hframes⟩ := List.exists_cons_of_ne_nil h.inside
  obtain ⟨l, outer, hl⟩ := List.exists_cons_of_ne_nil h.within
  refine ⟨?_, ?_, fun y => ?_, ?_, ?_, ?_⟩
  · show Views s.scopes ((q.layers.declare x _).map Layer.types)
    rw [Layers.types_declare]
    exact define_views hs h.types
  · have hkinds := congrArg (List.map Place.kind) hplaces
    rw [List.map_map, List.map_map] at hkinds
    exact (define_kinds hs).trans (h.kinds.trans hkinds.symm)
  · have hvars := h.vars y
    show Frames.find? b.scopes y = Frames.find? ((q.layers.declare x _).map Layer.vars) y
    rw [hl, List.map_cons, hframes, Frames.find?_cons, Frames.find?_cons] at hvars
    rw [hscopes, hl, hframes, Frames.declare, Layers.declare, List.map_cons, Frames.find?_cons,
      Frames.find?_cons, show (l.declare x (.visible binding.ty v)).vars = (x, v) :: l.vars from rfl,
      List.lookup_cons, List.lookup_cons]
    cases y == x with
    | true => rfl
    | false => exact hvars
  · have htargets := congrArg (List.filterMap Place.targets?) hplaces
    rw [List.filterMap_map, List.filterMap_map] at htargets
    show b.jumps.map _ = _
    rw [hjumps, h.jumps]
    exact htargets.symm
  · show b.scopes ≠ []
    rw [hscopes, hframes]
    exact List.cons_ne_nil _ _
  · show q.layers.declare x _ ≠ []
    rw [hl]
    exact List.cons_ne_nil _ _

/-- An empty scope of lowering makes no difference. -/
theorem enterEmpty (h : q.Sound) :
    (⟨q.state, q.builder.withScopes ([] :: q.builder.scopes), q.layers⟩ : Point).Sound :=
  ⟨h.types, h.kinds, fun x => (Frames.find?_cons [] q.builder.scopes x).trans (h.vars x), h.jumps,
    List.cons_ne_nil _ _, h.within⟩

/-- The checker is behind the body of a loop, and lowering has left its scope. -/
theorem toStep (h : q.Sound) {body : List Stmt} {s : Analysis.State} {b : Builder}
    (hs : Views s.scopes (TyEnv.afterAll ([] :: q.layers.map Layer.types) body))
    (hkinds : s.scopes.shape.map Prod.fst = .loop :: q.state.scopes.shape.map Prod.fst)
    (hb : q.builder.SameScopes b) : (⟨s, b, .ofStep body :: q.layers⟩ : Point).Sound where
  types := by
    show Views s.scopes ((Layer.ofStep body).types :: q.layers.map Layer.types)
    rw [Layer.types_ofStep, ← TyEnv.afterAll_cons]
    exact hs
  kinds := hkinds.trans (congrArg _ h.kinds)
  vars x := by
    show Frames.find? b.scopes x = Frames.find? ((Layer.ofStep body).vars :: q.layers.map Layer.vars) x
    rw [Layer.vars_ofStep, Frames.find?_cons, hb.scopes]
    exact h.vars x
  jumps := by
    show b.jumps.map _ = _
    rw [hb.jumps]
    exact h.jumps
  inside := by
    show b.scopes ≠ []
    rw [hb.scopes]
    exact h.inside
  within := List.cons_ne_nil _ _

end Point.Sound

end Scoping

end ProtoScript
