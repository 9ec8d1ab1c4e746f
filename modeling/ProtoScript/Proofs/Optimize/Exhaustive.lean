import ProtoScript.Proofs.Lookup
import ProtoScript.Proofs.Optimize.Idempotent

set_option autoImplicit false

/-!
# Inlining leaves no call of a leaf

Inlining repeats rounds until one finds nothing to replace. As a loop without a bound (`Inlines`) this ends for
every module, also where functions call each other in circles, with wrong numbers of arguments or functions that
are not there, unless a round breaks off because the numbers of temporaries run out (`RunsOut`). Each round but the
last removes calls, and the body of a leaf brings in none, so the calls of the module are a measure for the loop;
the number of calls replaced is what they went down by.

Leaves arise on the way, when a function loses its last call. That none of them is missed is a statement
about the last round: it found no call of a leaf, in the very module that is returned (`inline_exhaustive`).
-/

namespace ProtoScript.Ir

/-! ## Calls that are replaced -/

namespace Module

variable {m result : Module} {n : Nat}

/-- Every call that is replaced is gone, and no other call has come. -/
theorem Inlines.staticCalls (h : m.Inlines result n) : result.staticCalls + n = m.staticCalls := by
  induction h with
  | bare => rfl
  | settled _ hround => exact staticCalls_inlineRound? hround
  | @round m m' result n k _ hround _ _ ih =>
      calc result.staticCalls + (n + k)
          = (result.staticCalls + k) + n := by omega
        _ = m'.staticCalls + n := by rw [ih]
        _ = m.staticCalls := staticCalls_inlineRound? hround

theorem Inlines.names (h : m.Inlines result n) :
    result.functions.map Function.name = m.functions.map Function.name := by
  induction h with
  | bare => rfl
  | settled _ hround => exact names_inlineRound? hround
  | round _ hround _ _ ih => rw [ih, names_inlineRound? hround]

end Module

/-! ## Calls that are left -/

/-- The function is one block that computes from the parameters and returns. -/
def Function.IsLeaf (f : Function) : Prop :=
  ∃ block, f.blocks = [block] ∧ (block.terminator = .retVoid ∨ ∃ t, block.terminator = .ret t) ∧
    ∀ i ∈ block.instrs, i.isLeafInstr (f.params.map Param.name)

theorem Function.IsLeaf.leaf? {f : Function} (h : f.IsLeaf) :
    ∃ leaf, f.leaf? = some leaf ∧ leaf.params.length = f.params.length := by
  obtain ⟨block, hblocks, hterminator, hinstrs⟩ := h
  have hall : block.instrs.all (Instr.isLeafInstr (f.params.map Param.name)) := List.all_eq_true.2 hinstrs
  unfold Function.leaf?
  rw [hblocks]
  simp only [hall, if_true]
  rcases hterminator with hvoid | ⟨t, ht⟩
  · rw [hvoid]
    exact ⟨_, rfl, List.length_map _⟩
  · rw [ht]
    exact ⟨_, rfl, List.length_map _⟩

namespace Module

/-- There is no call of a leaf with as many arguments as it has parameters. -/
def Exhausted (m : Module) : Prop :=
  ∀ f ∈ m.functions, ∀ dest name args, .callStatic dest name args ∈ f.instrs →
    ∀ g ∈ m.functions, g.name = name → g.params.length = args.length → ¬ g.IsLeaf

/-- A leaf is found under its name, if no other function has that name. -/
theorem leafArity?_of_isLeaf {m : Module} (hnames : (m.functions.map Function.name).Nodup) {g : Function}
    (hg : g ∈ m.functions) (hleaf : g.IsLeaf) : leafArity? m.leaves g.name = some g.params.length := by
  obtain ⟨leaf, hsome, hlength⟩ := hleaf.leaf?
  have hmem : (g.name, leaf) ∈ m.leaves := by
    rw [leaves, List.mem_reverse]
    exact List.mem_filterMap.2 ⟨g, hg, by rw [hsome]; rfl⟩
  cases hlookup : m.leaves.lookup g.name with
  | none =>
      exact absurd (List.mem_map_of_mem hmem) (lookup_eq_none_iff.1 hlookup)
  | some leaf' =>
      obtain ⟨g', hg', hleaf'⟩ := leavesOf_leaves hnames g.name leaf' hlookup
      rw [function?_of_mem hnames hg] at hg'
      cases hg'
      rw [hsome] at hleaf'
      cases hleaf'
      rw [leafArity?, hlookup, Option.map_some, hlength]

/-- Where nothing is left to inline there is no call of a leaf. -/
theorem Settled.exhausted {m : Module} (h : m.Settled) (hnames : (m.functions.map Function.name).Nodup) :
    m.Exhausted := by
  intro f hf dest name args hcall g hg hname hargs hleaf
  have harity := leafArity?_of_isLeaf hnames hg hleaf
  have hleaves : m.leaves ≠ [] := by
    intro hnil
    rw [leafArity?, hnil] at harity
    cases harity
  refine (h hleaves f hf).1 _ hcall ?_
  rw [Instr.callsLeaf, ← hname, harity, hargs]
  exact beq_self_eq_true _

/-- For every module the rounds of inlining end, with what inlining returns and with nothing else, or they break
off, and then inlining returns nothing. The number that is reported is that by which the calls of the module went
down, and no call of a leaf with the right number of arguments is left, if the functions have different names. -/
theorem inline_exhaustive (m : Module) :
    (∀ result n, m.Inlines result n ↔ m.inline? = some (result, n)) ∧
      (m.RunsOut ↔ m.inline? = none) ∧
      ∀ result n, m.inline? = some (result, n) →
        result.staticCalls + n = m.staticCalls ∧
          ((m.functions.map Function.name).Nodup → result.Exhausted) := by
  refine ⟨fun result n => inlines_iff, inline?_eq_none_iff.symm, fun result n h => ?_⟩
  have hinlines := inlines_iff.2 h
  refine ⟨hinlines.staticCalls, fun hnames => ?_⟩
  refine (settled_of_inlines hinlines).exhausted ?_
  rw [hinlines.names]
  exact hnames

end Module

/-- A function that calls another one with its argument. -/
def caller (name callee : String) : Function where
  name := name
  params := [⟨"n", .int⟩]
  ret := .int
  blocks := [⟨"entry", [.loadVar 0 "n", .callStatic (some 1) callee [0]], .ret 1⟩]

/-- `ping` and `pong` call each other. `twice` becomes a leaf when `one` is inlined. `main` calls `twice` with
one argument too many, then as it should, and then a function that is not there. -/
def circles : Module where
  name := "m"
  functions :=
    [ { name := "one", params := [], ret := .int, blocks := [⟨"entry", [.const 0 (.int 1)], .ret 0⟩] },
      { name := "twice", params := [⟨"a", .int⟩], ret := .int
        blocks := [⟨"entry", [.loadVar 0 "a", .callStatic (some 1) "one" [], .binary 2 .add 0 1], .ret 2⟩] },
      caller "ping" "pong",
      caller "pong" "ping",
      { name := "main", params := [⟨"x", .int⟩], ret := .void
        blocks := [⟨"entry", [.loadVar 0 "x", .callStatic (some 1) "twice" [0, 0],
          .callStatic (some 2) "twice" [0], .callStatic none "nowhere" []], .retVoid⟩] } ]
  layouts := []

/-- Two of six calls are inlined, in two rounds. The circle is left, so `pong` is no leaf. -/
theorem inline_exhaustive_circles :
    (circles.functions.map Function.name).Nodup ∧ circles.staticCalls = 6 ∧
      ∃ result, circles.inline? = some (result, 2) ∧ circles.Inlines result 2 ∧ result.staticCalls = 4 ∧
        ¬ (caller "pong" "ping").IsLeaf := by
  have hnames : (circles.functions.map Function.name).Nodup := by decide
  have hcalls : circles.staticCalls = 6 := by decide
  obtain ⟨result, hinline, hping, hpong⟩ : ∃ result, circles.inline? = some (result, 2) ∧
      caller "ping" "pong" ∈ result.functions ∧ caller "pong" "ping" ∈ result.functions :=
    ⟨_, rfl, List.mem_of_getElem? (i := 2) rfl, List.mem_of_getElem? (i := 3) rfl⟩
  obtain ⟨hends, _, hresult⟩ := circles.inline_exhaustive
  obtain ⟨hdrop, hexhausted⟩ := hresult result 2 hinline
  refine ⟨hnames, hcalls, result, hinline, (hends result 2).2 hinline, by omega, ?_⟩
  exact hexhausted hnames _ hping (some 1) "pong" [0] (by simp [caller, Function.instrs]) _ hpong rfl rfl

end ProtoScript.Ir
