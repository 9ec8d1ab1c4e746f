import ProtoScript.Proofs.Scoping.Walk

set_option autoImplicit false

/-!
# Checking and lowering agree on scopes

In a program without problems, wherever checking and lowering come to a name, lowering reads or writes the
variable that it has made for the declaration the checker has found, and none if the checker has found none;
a `break` or `continue` goes to the loop or switch that the checker has found around it
(`agree_of_isClean`).

The step of a `for` loop is left out as far as the body of the loop is concerned: the checker sees the names
that the body declares, and takes jumps as jumps out of this loop, but lowering does neither.
-/

namespace ProtoScript.Scoping

open Analysis Lowering

/-- Lowering comes to a name that is read, and has written `b` then. -/
inductive Reads (k : Lowering.Context) (ni : String → Lower Ir.Temp) : Part → Builder → Note → String →
    Builder → Prop where
  | ofStmt {stmt stmt' : Stmt} {e : Expr} {n : Note} {x : String} {b b₁ b₂ : Builder}
    (he : Carries k ni stmt' b e b₁) (hx : Visits k ni e b₁ (.ident n x) b₂) :
    Reads k ni (.stmt stmt stmt') b n x b₂
  | ofTest {e e' : Expr} {n : Note} {x : String} {b b₁ : Builder}
    (hx : Visits k ni e' b (.ident n x) b₁) : Reads k ni (.test e e') b n x b₁

/-- Checking and lowering mean the same by the names and jumps of the part at the point. A name that is read
or written carries the type of the declaration that was found. -/
structure Agree (k : Lowering.Context) (ni : String → Lower Ir.Temp) (part : Part) (q : Point) : Prop where
  reads : ∀ {n x b}, Reads k ni part q.builder n x b → q.SameName x (Frames.find? b.scopes x) ∧
    ∀ d, q.layers.declared? x = some d → n.type? = some d.ty
  writes : ∀ {stmt sp n x op e}, part = .stmt stmt (.assign sp (.ident n x) op e) →
    q.SameName x (Frames.find? q.builder.scopes x) ∧
      ∃ d, q.layers.declared? x = some d ∧ n.type? = some d.ty
  breaks : ∀ {stmt sp}, part = .stmt stmt (.break sp) →
    q.SameJump [.loop, .switch] Place.breakLabel? (breakLabel? q.builder) ∧
      (q.layers.innermost? [.loop, .switch]).isSome
  continues : ∀ {stmt sp}, part = .stmt stmt (.continue sp) →
    q.SameJump [.loop] Place.continueLabel? (continueLabel? q.builder) ∧
      (q.layers.innermost? [.loop]).isSome

/-! ## From the layers to names and jumps -/

section

variable {c : Analysis.Context} {k : Lowering.Context} {ni : String → Lower Ir.Temp} {q : Point}

theorem Point.Sound.around (h : q.Sound) :
    Around q.state.scopes.inLoop q.state.scopes.canBreak (q.layers.map Layer.types) q.state.scopes :=
  ⟨h.types, rfl, rfl⟩

/-- A statement that checking makes obeys the rules in the scopes of its point. -/
theorem Point.Sound.typed {stmt stmt' : Stmt} (h : q.Sound)
    (hpasses : (Part.stmt stmt stmt').Passes c q.state) :
    stmt'.Typed c q.state.scopes.inLoop q.state.scopes.canBreak (q.layers.map Layer.types) := by
  obtain ⟨s', hstmt⟩ := hpasses
  exact sound_stmt stmt hstmt h.around

theorem mem_kinds_of_within {scopes : Scopes} {kinds : List ScopeKind} (h : scopes.within kinds) :
    ∃ kind ∈ scopes.shape.map Prod.fst, kind ∈ kinds := by
  induction scopes with
  | nil => cases h
  | cons scope outer ih =>
      rw [Scopes.within, Bool.or_eq_true, Bool.and_eq_true] at h
      rcases h with hhere | ⟨_, hrest⟩
      · exact ⟨scope.kind, List.mem_cons_self, of_decide_eq_true hhere⟩
      · obtain ⟨kind, hmem, hkind⟩ := ih hrest
        exact ⟨kind, List.mem_cons_of_mem _ hmem, hkind⟩

/-- A scope that jumps can leave is that of a layer. -/
theorem Point.Sound.innermost_of_within (h : q.Sound) {kinds : List ScopeKind}
    (hwithin : q.state.scopes.within kinds) : (q.layers.innermost? kinds).isSome := by
  obtain ⟨kind, hmem, hkind⟩ := mem_kinds_of_within hwithin
  rw [h.kinds] at hmem
  obtain ⟨l, hl, rfl⟩ := List.mem_map.1 hmem
  unfold Layers.innermost?
  rw [List.find?_isSome]
  exact ⟨l, hl, decide_eq_true hkind⟩

theorem Point.Sound.agree (hni : ∀ proto, Steady (ni proto)) {part : Part} (h : q.Sound)
    (hpasses : part.Passes c q.state) : Agree k ni part q where
  reads := by
    intro n x b hread
    have hnoted : (Expr.ident n x).Known c (q.layers.map Layer.types) →
        ∀ d, q.layers.declared? x = some d → n.type? = some d.ty := by
      intro hknown d hd
      refine hknown.type_of_find? ?_
      rw [Layers.find?_types, hd]
      rfl
    cases hread with
    | ofStmt he hx =>
        exact ⟨h.sameName ((he.sameScopes hni).trans (hx.sameScopes hni)) x,
          hnoted (hx.known (he.known (h.typed hpasses)))⟩
    | ofTest hx =>
        obtain ⟨s', htest⟩ := hpasses
        exact ⟨h.sameName (hx.sameScopes hni) x,
          hnoted (hx.known (passes_condition htest h.types).known)⟩
  writes := by
    rintro stmt sp n x op e rfl
    have htyped := h.typed hpasses
    rw [Stmt.Typed] at htyped
    obtain ⟨τ, htarget, _⟩ := htyped
    refine ⟨h.sameName (.refl _) x, ?_⟩
    cases htarget with
    | name hn hx =>
        rw [Layers.find?_types, Option.map_eq_some_iff] at hx
        obtain ⟨d, hd, rfl⟩ := hx
        exact ⟨d, hd, hn⟩
  breaks := by
    rintro stmt sp rfl
    have htyped := h.typed hpasses
    rw [Stmt.Typed] at htyped
    exact ⟨h.breaks, h.innermost_of_within htyped⟩
  continues := by
    rintro stmt sp rfl
    have htyped := h.typed hpasses
    rw [Stmt.Typed] at htyped
    exact ⟨h.continues, h.innermost_of_within htyped⟩

end

/-! ## Functions and programs -/

section

variable {c : Analysis.Context} {k : Lowering.Context} {ni : String → Lower Ir.Temp}
  {proto? : Option String} {f f' : FunctionDecl} {s s' : Analysis.State}

/-- At the start of a function its parameters are the only names. -/
theorem sound_start {s₁ : Analysis.State} (hscopes : s.scopes = [])
    (hparams : Passes (checkParams f.params) c (s.enter .function) () s₁)
    (hf' : f'.params = f.params) : (⟨s₁, startOf proto? f', [paramLayer f]⟩ : Point).Sound := by
  have hshape : (s.enter .function).scopes.shape = [(.function, [])] :=
    congrArg (fun scopes => Scopes.shape (⟨.function, []⟩ :: scopes)) hscopes
  obtain ⟨hshape₁, _, _⟩ := passes_params hparams hshape List.nodup_nil
  rw [List.nil_append] at hshape₁
  have htypes : (paramLayer f).types = paramTypes f.params := List.map_map
  have hvars : (paramLayer f).vars = f.params.map fun p => (p.name, p.name) := by
    unfold Layer.vars paramLayer
    rw [List.filterMap_map, ← List.filterMap_eq_map]
    rfl
  refine ⟨?_, ?_, fun x => ?_, rfl, List.cons_ne_nil _ _, List.cons_ne_nil _ _⟩
  · show Views s₁.scopes [(paramLayer f).types]
    unfold Views
    rw [hshape₁, htypes]
    exact .cons (fun _ => rfl) .nil
  · show s₁.scopes.shape.map Prod.fst = _
    rw [hshape₁]
    rfl
  · show Frames.find? [f'.params.map fun p => (p.name, p.name)] x = Frames.find? [(paramLayer f).vars] x
    rw [hvars, hf']

/-- The layers describe all points of a function that is checked without a report, and checking is silent
from each of them on. -/
theorem Meets.invariant (hni : ∀ proto, Steady (ni proto)) (hscopes : s.scopes = [])
    (hf : Passes (checkFunction proto? f) c s f' s') {part : Part} {q : Point}
    (h : Meets { c with proto?, ret := f.ret } k ni proto? f f' s part q) :
    q.Sound ∧ part.Passes { c with proto?, ret := f.ret } q.state := by
  obtain ⟨s₁, body, s₂, _, hparams, hbody, rfl⟩ := passes_function_parts hf
  induction h with
  | start hs =>
      obtain ⟨_, rfl⟩ := hs.unique hparams
      exact ⟨sound_start hscopes hs rfl, s₂, hbody⟩
  | head _ _ ih =>
      obtain ⟨hq, s', hrow⟩ := ih
      obtain ⟨stmt₁, t₁, rest₁, h₁, _, heq⟩ := passes_stmts_cons hrow
      obtain ⟨rfl, rfl⟩ := List.cons.inj heq
      exact ⟨hq, t₁, h₁⟩
  | tail _ _ hstmt ih => exact ⟨hstmt.sound hni ih.1, hstmt.passes ih.2⟩
  | into _ hpart ih => exact ⟨hpart.sound hni ih.1, hpart.passes ih.2⟩

end

/-- In a program without problems every function and method comes from one that is checked without a report,
and at every point that checking it and lowering the result come to, both mean the same by names and
jumps. -/
theorem agree_of_isClean {p : Program} {library : Library} (hclean : (p.analyze library).isClean)
    {proto? : Option String} {f' : FunctionDecl}
    (hf' : (proto?, f') ∈ (p.analyze library).program.bodies) :
    ∃ f, (proto?, f) ∈ p.bodies ∧ ∃ s s',
      Passes (checkFunction proto? f) (p.context library) s f' s' ∧ s.scopes = [] ∧
      ∀ {k : Lowering.Context} {depth : Nat} {part : Part} {q : Point},
        Meets { p.context library with proto?, ret := f.ret } k (newInstance depth) proto? f f' s part q →
        Agree k (newInstance depth) part q := by
  obtain ⟨f, hf, s, s', hpasses, hscopes⟩ := Program.passes_body_of_mem hclean hf'
  refine ⟨f, hf, s, s', hpasses, hscopes, fun {k depth part q} h => ?_⟩
  obtain ⟨hsound, hpart⟩ := h.invariant (steady_newInstance depth) hscopes hpasses
  exact hsound.agree (steady_newInstance depth) hpart

/-- A function in which the name of the parameter is declared again, in a block. -/
def shadowing : FunctionDecl where
  name := "shadowing"
  params := [{ name := "n", ty := .int }]
  ret := .int
  body :=
    [.varDecl .origin "x" .int false (some (.ident {} "n")),
      .block .origin
        [.varDecl .origin "n" .int false (some (.ident {} "x")),
          .ret .origin (some (.ident {} "n"))]]

/-- What checking makes of `shadowing`. -/
def shadowingChecked : FunctionDecl where
  name := "shadowing"
  params := [{ name := "n", ty := .int }]
  ret := .int
  body :=
    [.varDecl .origin "x" .int false (some (.ident { type? := some .int } "n")),
      .block .origin
        [.varDecl .origin "n" .int false (some (.ident { type? := some .int } "x")),
          .ret .origin (some (.ident { type? := some .int } "n"))]]

/-- The name that `shadowing` returns is that of the block, which has the second variable. -/
theorem agree_shadowing :
    let p : Program := ⟨"shadowing.ps", [], [.function shadowing]⟩
    (p.analyze ⟨[]⟩).isClean ∧ (none, shadowingChecked) ∈ (p.analyze ⟨[]⟩).program.bodies ∧
      ∃ (q : Point) (b : Builder), q.layers.declared? "n" = some (.visible .int "n_1") ∧
        q.SameName "n" (Frames.find? b.scopes "n") ∧ Frames.find? b.scopes "n" = some "n_1" := by
  intro p
  have hclean : (p.analyze ⟨[]⟩).isClean := by decide +kernel
  have hbodies : (p.analyze ⟨[]⟩).program.bodies = [(none, shadowingChecked)] := by rfl
  have hmem : (none, shadowingChecked) ∈ (p.analyze ⟨[]⟩).program.bodies := by
    rw [hbodies]
    exact List.mem_singleton_self _
  refine ⟨hclean, hmem, ?_⟩
  obtain ⟨f, hf, s, s', hpasses, hscopes, hagree⟩ := agree_of_isClean hclean hmem
  obtain rfl : f = shadowing := congrArg Prod.snd (List.mem_singleton.1 hf)
  obtain ⟨s₁, body, s₂, _, hparams, hbody, heq⟩ := passes_function_parts hpasses
  obtain rfl : body = shadowingChecked.body := (congrArg FunctionDecl.body heq).symm
  -- Both go over the first declaration, into the block and over the second one.
  obtain ⟨_, t₁, _, hfirst, hbody, hrow⟩ := passes_stmts_cons hbody
  obtain ⟨rfl, rfl⟩ := List.cons.inj hrow
  obtain ⟨_, t₂, _, hblock, _, hrow⟩ := passes_stmts_cons hbody
  obtain ⟨rfl, rfl⟩ := List.cons.inj hrow
  obtain ⟨_, t₃, hinner, hrow, _⟩ := passes_block hblock
  obtain rfl := (Stmt.block.inj hrow).2
  obtain ⟨_, t₄, _, hsecond, _, hrow⟩ := passes_stmts_cons hinner
  obtain ⟨rfl, rfl⟩ := List.cons.inj hrow
  let k : Lowering.Context := ⟨"shadowing", ⟨[]⟩, []⟩
  have hstart : Meets _ k (newInstance 0) none shadowing shadowingChecked s (.row _ _) _ := .start hparams
  have hrest := hstart.tail rfl (.declaration hfirst rfl)
  have hrow := (hrest.head rfl).into .blockBody
  have hret := (hrow.tail rfl (.declaration hsecond rfl)).head rfl
  exact ⟨_, _, rfl, ((hagree hret).reads (.ofStmt .ret .here)).1, rfl⟩

end ProtoScript.Scoping
