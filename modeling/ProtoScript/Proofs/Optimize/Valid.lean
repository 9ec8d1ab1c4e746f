import ProtoScript.Proofs.Ir.Operands
import ProtoScript.Proofs.Ir.Validate
import ProtoScript.Proofs.Optimize.Rewrite

set_option autoImplicit false

/-!
# Optimizing keeps modules valid

A valid module is valid after optimizing, and nothing of it but its instructions has changed.

For the passes that rewrite instructions this is so because they keep what a block defines and installs.
Inlining does define new temporaries. Each comes from a counter that starts above all temporaries of the
function and only goes up (`Renews`), so that none is defined twice, neither in one body nor in the bodies
of several calls.
-/

namespace ProtoScript.Ir

/-! ## Labels and targets -/

/-- The label of a block, and the labels control may go to from it. -/
def Block.exits (b : Block) : String × List String := (b.label, b.targets)

/-- A function is well formed if another one with the same labels and targets is, and it defines no
temporary twice. -/
theorem Function.WellFormed.of_exits {f g : Function} (h : f.WellFormed)
    (hexits : g.blocks.map Block.exits = f.blocks.map Block.exits) (hdests : g.dests.Nodup) :
    g.WellFormed := by
  have hlabels : g.labels = f.labels := by
    have hfst := congrArg (List.map Prod.fst) hexits
    simpa [Function.labels, Block.exits, Function.comp_def] using hfst
  refine ⟨?_, ?_, ?_, hdests⟩
  · intro hnil
    rw [hnil] at hexits
    exact h.nonempty (List.map_eq_nil_iff.1 hexits.symm)
  · rw [hlabels]
    exact h.labels
  · intro b hb l hl
    have hmem : b.exits ∈ f.blocks.map Block.exits := by
      rw [← hexits]
      exact List.mem_map_of_mem hb
    obtain ⟨c, hc, heq⟩ := List.mem_map.1 hmem
    have htargets : c.targets = b.targets := congrArg Prod.snd heq
    rw [hlabels]
    exact h.targets c hc l (htargets ▸ hl)

/-! ## Rewritten instructions -/

section

variable {pass : List Instr → List Instr} (htidy : ∀ is, Tidied is (pass is))
include htidy

theorem Function.WellFormed.mapInstrs {f : Function} (h : f.WellFormed) :
    (f.mapInstrs pass).WellFormed := by
  refine h.of_exits ?_ ?_
  · simp only [Function.mapInstrs, List.map_map]
    refine List.map_congr_left fun b _ => ?_
    have hhandlers := (htidy b.instrs).handlers
    simp only [Function.comp_apply, Block.mapInstrs, Block.exits, Block.targets, Block.handlers,
      Block.successors, hhandlers]
  · have hdests : (f.mapInstrs pass).dests = f.dests := by
      simp only [Function.dests, Function.instrs, Function.mapInstrs, List.filterMap_flatMap,
        List.flatMap_map, Block.mapInstrs]
      congr 1
      funext b
      exact (htidy b.instrs).dests
    rw [hdests]
    exact h.dests

theorem Module.isValid_mapInstrs {m : Module} (h : m.isValid) : (m.mapInstrs pass).isValid := by
  rw [Module.isValid_iff] at h ⊢
  refine ⟨?_, ?_⟩
  · intro f hf
    obtain ⟨g, hg, rfl⟩ := List.mem_map.1 hf
    exact (h.1 g hg).mapInstrs htidy
  · have hnames : (m.mapInstrs pass).functions.map Function.name = m.functions.map Function.name := by
      simp [Module.mapInstrs, Function.mapInstrs, Function.comp_def]
    rw [hnames]
    exact h.2

end

/-! ## New temporaries -/

/-- In the place of the definitions `old` stand the definitions `new`: some of the old ones, and new
ones from the numbers `next` up to `next'`, all distinct. -/
structure Renews (old new : List Nat) (next next' : Nat) : Prop where
  le : next ≤ next'
  origin : ∀ d ∈ new, d ∈ old ∨ (next ≤ d ∧ d < next')
  nodup : old.Nodup → (∀ d ∈ old, d < next) → new.Nodup

namespace Renews

variable {old old' new new' : List Nat} {next next' next'' : Nat}

theorem refl (old : List Nat) (next : Nat) : Renews old old next next :=
  ⟨Nat.le_refl next, fun _ hd => .inl hd, fun h _ => h⟩

/-- A definition may get lost. -/
theorem nil (old : List Nat) (next : Nat) : Renews old [] next next :=
  ⟨Nat.le_refl next, by simp, fun _ _ => List.nodup_nil⟩

/-- The next number is taken. -/
theorem fresh (next : Nat) : Renews [] [next] next (next + 1) where
  le := Nat.le_succ next
  origin d hd := by
    rw [List.mem_singleton] at hd
    omega
  nodup _ _ := List.nodup_singleton next

/-- One behind the other: the numbers of the second part are above those of the first. -/
theorem append (h : Renews old new next next') (h' : Renews old' new' next' next'') :
    Renews (old ++ old') (new ++ new') next next'' where
  le := Nat.le_trans h.le h'.le
  origin d hd := by
    have hle := h.le
    have hle' := h'.le
    rcases List.mem_append.1 hd with hd | hd
    · rcases h.origin d hd with hold | hnew
      · exact .inl (List.mem_append_left _ hold)
      · exact .inr (by omega)
    · rcases h'.origin d hd with hold | hnew
      · exact .inl (List.mem_append_right _ hold)
      · exact .inr (by omega)
  nodup hnodup hlt := by
    have hle := h.le
    rw [List.nodup_append'] at hnodup
    obtain ⟨hold, hold', hdisjoint⟩ := hnodup
    have hlt₁ : ∀ d ∈ old, d < next := fun d hd => hlt d (List.mem_append_left _ hd)
    have hlt₂ : ∀ d ∈ old', d < next := fun d hd => hlt d (List.mem_append_right _ hd)
    refine List.nodup_append'.2 ⟨h.nodup hold hlt₁, h'.nodup hold' fun d hd => ?_, ?_⟩
    · exact Nat.lt_of_lt_of_le (hlt₂ d hd) hle
    · intro d hd hd'
      rcases h.origin d hd with ho | hn
      · rcases h'.origin d hd' with ho' | hn'
        · exact hdisjoint ho ho'
        · have hbelow := hlt₁ d ho
          omega
      · rcases h'.origin d hd' with ho' | hn'
        · have hbelow := hlt₂ d ho'
          omega
        · omega

end Renews

/-! ## Inlined calls -/

theorem Instr.handler?_mapOperands (g : Temp → Temp) (i : Instr) :
    (i.mapOperands g).handler? = i.handler? := by
  cases i <;> rfl

theorem Instr.handler?_mapDest (g : Temp → Temp) (i : Instr) :
    (i.mapDest g).handler? = i.handler? := by
  cases i <;> rfl

theorem Instr.handler?_of_isLeafInstr {params : List String} {i : Instr}
    (h : i.isLeafInstr params) : i.handler? = none := by
  cases i with
  | setupTry => cases h
  | _ => rfl

theorem dests_cons (i : Instr) (rest : List Instr) :
    (i :: rest).filterMap Instr.dest? = i.dest?.toList ++ rest.filterMap Instr.dest? := by
  cases hd : i.dest? with
  | none => rw [List.filterMap_cons_none hd, Option.toList_none, List.nil_append]
  | some d => rw [List.filterMap_cons_some hd, Option.toList_some, List.singleton_append]

/-- A replay defines a new temporary for each instruction that defines one, and installs no handler. -/
theorem Replays.renews {params : List String} {bound : List (String × Temp)} {is out : List Instr}
    {names names' : Renaming} {next last : Nat} (h : Replays bound is names next out names' last)
    (hleaf : ∀ i ∈ is, i.isLeafInstr params) :
    Renews [] (out.filterMap Instr.dest?) next last ∧ out.filterMap Instr.handler? = [] := by
  induction h with
  | nil => exact ⟨Renews.nil [] _, rfl⟩
  | param _ _ ih => exact ih fun j hj => hleaf j (List.mem_cons_of_mem _ hj)
  | @plain i _ _ names _ _ _ _ hdest _ ih =>
      have hd : (i.mapOperands names.apply).dest? = none := by
        rw [Instr.dest?_mapOperands, hdest]
      have hh : (i.mapOperands names.apply).handler? = none := by
        rw [Instr.handler?_mapOperands, Instr.handler?_of_isLeafInstr (hleaf i List.mem_cons_self)]
      rw [List.filterMap_cons_none hd, List.filterMap_cons_none hh]
      exact ih fun j hj => hleaf j (List.mem_cons_of_mem _ hj)
  | @define i _ _ names _ _ next _ _ hdest _ ih =>
      have hd : ((i.mapOperands names.apply).mapDest fun _ => next).dest? = some next := by
        rw [Instr.dest?_mapDest, Instr.dest?_mapOperands, hdest]
        rfl
      have hh : ((i.mapOperands names.apply).mapDest fun _ => next).handler? = none := by
        rw [Instr.handler?_mapDest, Instr.handler?_mapOperands,
          Instr.handler?_of_isLeafInstr (hleaf i List.mem_cons_self)]
      rw [List.filterMap_cons_some hd, List.filterMap_cons_none hh]
      obtain ⟨hrenews, hnone⟩ := ih fun j hj => hleaf j (List.mem_cons_of_mem _ hj)
      exact ⟨(Renews.fresh next).append hrenews, hnone⟩

/-- What copies the result of a leaf defines the temporary of the call at most. -/
theorem LeafCall.renews_returned (c : LeafCall) (names : Renaming) (next : Nat) :
    Renews c.dest.toList ((c.returned names).filterMap Instr.dest?) next next ∧
      (c.returned names).filterMap Instr.handler? = [] := by
  unfold LeafCall.returned
  split
  case h_1 t d _ hdest =>
    rw [hdest]
    exact ⟨Renews.refl [d] next, rfl⟩
  case h_2 => exact ⟨Renews.nil _ next, rfl⟩

/-- What stands in the place of calls defines the temporaries of the calls at most, and new ones. -/
theorem Inlined.renews {leaves : List (String × Leaf)} (hleaves : AreLeaves leaves) {is out : List Instr}
    {next last n : Nat} (h : Inlined leaves is next out last n) :
    Renews (is.filterMap Instr.dest?) (out.filterMap Instr.dest?) next last ∧
      out.filterMap Instr.handler? = is.filterMap Instr.handler? := by
  induction h with
  | nil => exact ⟨Renews.refl [] _, rfl⟩
  | @call i c is body out names next mid last n hcall hreplay _ ih =>
      obtain ⟨name, rfl, hleaf, _⟩ := Instr.eq_of_leafCall? hcall
      obtain ⟨hbody, hnone⟩ := hreplay.renews (hleaves name c.leaf hleaf)
      obtain ⟨hreturned, hnone'⟩ := c.renews_returned names mid
      obtain ⟨hrest, hhandlers⟩ := ih
      rw [dests_cons, List.filterMap_append, List.filterMap_append, List.filterMap_append, List.filterMap_append,
        hnone, hnone', hhandlers]
      exact ⟨(hbody.append hreturned).append hrest, rfl⟩
  | @keep i is out next last n _ _ ih =>
      obtain ⟨hrest, hhandlers⟩ := ih
      rw [dests_cons, dests_cons, List.filterMap_cons, hhandlers, ← List.filterMap_cons]
      exact ⟨(Renews.refl i.dest?.toList next).append hrest, rfl⟩

theorem InlinedBlocks.renews {leaves : List (String × Leaf)} (hleaves : AreLeaves leaves)
    {blocks blocks' : List Block} {next n : Nat} (h : InlinedBlocks leaves blocks next blocks' n) :
    (∃ last, Renews ((blocks.flatMap Block.instrs).filterMap Instr.dest?)
        ((blocks'.flatMap Block.instrs).filterMap Instr.dest?) next last) ∧
      blocks'.map Block.exits = blocks.map Block.exits := by
  induction h with
  | nil => exact ⟨⟨_, Renews.refl [] _⟩, rfl⟩
  | cons hinstrs _ ih =>
      obtain ⟨hfirst, hhandlers⟩ := hinstrs.renews hleaves
      obtain ⟨⟨last, hrest⟩, hexits⟩ := ih
      refine ⟨⟨last, ?_⟩, ?_⟩
      · simp only [List.flatMap_cons, List.filterMap_append]
        exact hfirst.append hrest
      · simp only [List.map_cons, hexits, Block.exits, Block.targets, Block.handlers,
          Block.successors, hhandlers]

theorem Function.WellFormed.inlineCalls? {f g : Function} (h : f.WellFormed)
    {leaves : List (String × Leaf)} (hleaves : AreLeaves leaves) {n : Nat}
    (hinline : f.inlineCalls? leaves = some (g, n)) : g.WellFormed := by
  obtain ⟨next, blocks, hnext, hblocks, rfl⟩ := Function.eq_of_inlineCalls? hinline
  obtain ⟨⟨last, hrenews⟩, hexits⟩ := hblocks.renews hleaves
  refine h.of_exits hexits (hrenews.nodup h.dests ?_)
  intro d hd
  -- The counter starts above every temporary of the function.
  obtain ⟨i, hi, hdest⟩ := List.mem_filterMap.1 hd
  obtain ⟨b, hb, hib⟩ := List.mem_flatMap.1 hi
  refine f.lt_of_nextTemp? hnext hb (List.mem_append_left _ (List.mem_flatMap.2 ⟨i, hib, ?_⟩))
  exact List.mem_append_left _ (Option.mem_toList.2 hdest)

/-- The labels and terminators of the blocks stay. -/
theorem InlinedBlocks.outline {leaves : List (String × Leaf)} {blocks blocks' : List Block} {next n : Nat}
    (h : InlinedBlocks leaves blocks next blocks' n) :
    blocks'.map (Block.mapInstrs fun _ => []) = blocks.map (Block.mapInstrs fun _ => []) := by
  induction h with
  | nil => rfl
  | cons _ _ ih =>
      rw [List.map_cons, List.map_cons, ih]
      rfl

/-! ## Modules -/

namespace Module

variable {m m' : Module} {n : Nat}

theorem isValid_inlineRound? (hround : m.inlineRound? = some (m', n)) (h : m.isValid) : m'.isValid := by
  rw [isValid_iff] at h ⊢
  obtain ⟨results, hresults, rfl, -⟩ := eq_of_inlineRound? hround
  refine ⟨?_, ?_⟩
  · intro g hg
    obtain ⟨r, hr, rfl⟩ := List.mem_map.1 hg
    obtain ⟨f, hf, hinline⟩ := exists_of_forall₂ hresults hr
    exact (h.1 f hf).inlineCalls? m.areLeaves hinline
  · rw [names_inlineRound? hround]
    exact h.2

theorem outline_inlineRound? (hround : m.inlineRound? = some (m', n)) : m'.outline = m.outline := by
  obtain ⟨results, hresults, rfl, -⟩ := eq_of_inlineRound? hround
  clear hround
  simp only [outline, mapInstrs]
  congr 1
  generalize m.functions = functions at hresults
  induction hresults with
  | nil => rfl
  | cons hfirst _ ih =>
      obtain ⟨_, _, _, hblocks, hg⟩ := Function.eq_of_inlineCalls? hfirst
      rw [List.map_cons, List.map_cons, List.map_cons, ih, hg]
      simp only [Function.mapInstrs, hblocks.outline]

/-- What the passes keep, optimizing keeps. -/
theorem optimize?_keeps {p : Module → Prop}
    (hround : ∀ {m m' : Module} {n : Nat}, m.inlineRound? = some (m', n) → p m → p m')
    (hmap : ∀ (pass : List Instr → List Instr), (∀ is, Tidied is (pass is)) →
      ∀ m, p m → p (m.mapInstrs pass)) {level : OptLevel} {stats : OptStats}
    (h : m.optimize? level = some (m', stats)) (hm : p m) : p m' := by
  have hrewrite : ∀ m : Module, p m → p m.fold.1.dropChecks.1 := by
    intro m hm
    rw [dropChecks_fst, fold_fst]
    exact hmap _ (tidied_dropRepeatedChecks []) _ (hmap _ (tidied_foldInstrs []) m hm)
  rcases of_optimize? h with ⟨_, rfl⟩ | ⟨_, rfl⟩ | ⟨inlined, n, _, hinline, rfl⟩
  · exact hm
  · exact hrewrite m hm
  · exact hrewrite inlined ((inlines_iff.2 hinline).keeps hround hm)

theorem valid_optimize? {level : OptLevel} {stats : OptStats} (h : m.optimize? level = some (m', stats))
    (hvalid : m.isValid) : m'.isValid :=
  optimize?_keeps (p := fun m => m.isValid) isValid_inlineRound?
    (fun _ htidy _ h => isValid_mapInstrs htidy h) h hvalid

/-- Optimizing makes valid modules of valid modules, and it changes nothing but instructions: the name
and the layouts of the module, its functions in order, their names, parameters and return types, and the
labels and terminators of their blocks in order are as before. It gives a module unless calls are inlined and
the numbers of temporaries run out. -/
theorem isValid_optimize (level : OptLevel) (hvalid : m.isValid) (hroom : level = .full → ¬ m.RunsOut) :
    ∃ m' stats, m.optimize? level = some (m', stats) ∧ m'.isValid ∧ m'.outline = m.outline := by
  obtain ⟨m', stats, h⟩ := exists_optimize? hroom
  refine ⟨m', stats, h, valid_optimize? h hvalid, ?_⟩
  refine optimize?_keeps (p := fun m' => m'.outline = m.outline) ?_ ?_ h rfl
  · intro m₁ m₂ n hround houtline
    rw [outline_inlineRound? hround, houtline]
  · intro pass _ m' houtline
    rw [outline_mapInstrs, houtline]

end Module

/-- `add` is called twice in a function that can be left by an exception. -/
def guardedSum : Module where
  name := "m"
  functions :=
    [ { name := "add", params := [⟨"a", .int⟩, ⟨"b", .int⟩], ret := .int
        blocks := [⟨"entry", [.loadVar 0 "a", .loadVar 1 "b", .check (.overflow .add 0 1 .int),
          .binary 2 .add 0 1], .ret 2⟩] },
      { name := "main", params := [⟨"x", .int⟩], ret := .int
        blocks :=
          [ ⟨"entry", [.setupTry "try_handler1", .loadVar 0 "x", .const 1 (.int 2),
              .callStatic (some 2) "add" [0, 1], .callStatic (some 3) "add" [0, 1],
              .endTry], .jump "try_done2"⟩,
            ⟨"try_handler1", [.catchValue 4, .throw 4], .unreachable⟩,
            ⟨"try_done2", [.const 5 (.int 0)], .ret 5⟩ ] } ]
  layouts := []

/-- Both calls are inlined, the second overflow check is found to repeat the first, and the module is
valid with its outline as it was. -/
theorem isValid_optimize_guardedSum :
    guardedSum.isValid ∧ ¬ guardedSum.RunsOut ∧
      ∃ m', guardedSum.optimize? .full = some (m', { callsInlined := 2, redundantChecks := 1 }) ∧
        m'.isValid ∧ m'.outline = guardedSum.outline := by
  have hvalid : guardedSum.isValid := by decide +kernel
  have hstats : (guardedSum.optimize? .full).map Prod.snd =
      some { callsInlined := 2, redundantChecks := 1 } := by decide +kernel
  have hroom : ¬ guardedSum.RunsOut := by
    rw [← Module.inline?_eq_none_iff]
    intro hnone
    rw [Module.optimize?, hnone] at hstats
    cases hstats
  obtain ⟨m', stats, h, hkept⟩ := Module.isValid_optimize .full hvalid fun _ => hroom
  rw [h] at hstats
  obtain rfl := Option.some.inj hstats
  exact ⟨hvalid, hroom, m', h, hkept⟩

end ProtoScript.Ir
