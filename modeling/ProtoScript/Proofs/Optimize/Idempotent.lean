import ProtoScript.Proofs.Optimize.Rewrite

set_option autoImplicit false

/-!
# Optimizing twice

What the optimizer leaves it leaves alone: a second run returns the same module and counts no change. This
holds of every module, well formed or not.

Each pass is at rest on what it leaves. Propagation knows the same constants at every instruction the
second time (`fold_of_fold`), also where a temporary is defined twice. A check that stays is not
among those passed before it, and leaving out the others does not change that. Inlining stops when no
call of a leaf is left, and no later pass makes a leaf, a call or a higher number (`Tidied`). It does stop
within its bound, because every round but the last removes a call.
-/

namespace ProtoScript.Ir

/-! ## Propagation -/

/-- Propagation leaves every one of the instructions as it is. -/
def Folded (known : Known) : List Instr → Prop
  | [] => True
  | i :: rest => (i.fold known).2 = (some i, {}) ∧ Folded (i.fold known).1 rest

theorem foldInstrs_of_folded {known : Known} {is : List Instr} (h : Folded known is) :
    foldInstrs known is = (is, {}) := by
  induction is generalizing known with
  | nil => rfl
  | cons i rest ih =>
      obtain ⟨hi, hrest⟩ := h
      simp only [foldInstrs, hi, ih hrest]
      rfl

/-- What a step leaves of an instruction, the step leaves as it is, and it knows the same behind it. -/
theorem fold_of_fold {known : Known} {i j : Instr} (h : (i.fold known).2.1 = some j) :
    j.fold known = ((i.fold known).1, some j, {}) := by
  have hi := Instr.fold.eq_def known i
  split at hi
  case h_1 d v =>
    rw [hi] at h ⊢
    cases h
    rfl
  case h_2 d c a b =>
    split at hi
    case h_1 =>
      rw [hi] at h ⊢
      cases h
      exact hi
    case h_2 cond _ =>
      simp only at hi
      split at hi
      case h_1 v _ =>
        rw [hi] at h ⊢
        cases h
        rfl
      case h_2 hchosen =>
        -- The selection has become a copy of a temporary about which nothing is known.
        rw [hi] at h ⊢
        cases h
        simp only [Instr.fold, Instr.constantResult?, hchosen, Option.map_none]
  case h_3 c =>
    split at hi
    · rw [hi] at h
      cases h
    · rw [hi] at h ⊢
      cases h
      exact hi
  case h_4 =>
    split at hi
    case h_1 d v _ =>
      rw [hi] at h ⊢
      cases h
      rfl
    case h_2 =>
      rw [hi] at h ⊢
      cases h
      exact hi

/-- Nothing is learnt from a check. -/
theorem fold_check (known : Known) (c : Check) : (Instr.fold known (.check c)).1 = known := by
  simp only [Instr.fold]
  split <;> rfl

/-- Only a check is left out. -/
theorem eq_check_of_fold {known : Known} {i : Instr} (h : (i.fold known).2.1 = none) :
    ∃ c, i = .check c := by
  unfold Instr.fold at h
  split at h
  case h_1 => cases h
  case h_2 =>
    split at h
    · cases h
    · simp only at h
      split at h <;> cases h
  case h_3 c => exact ⟨c, rfl⟩
  case h_4 => split at h <;> cases h

theorem folded_foldInstrs (known : Known) (is : List Instr) :
    Folded known (foldInstrs known is).1 := by
  induction is generalizing known with
  | nil => exact trivial
  | cons i rest ih =>
      have hrest := ih (i.fold known).1
      simp only [foldInstrs]
      cases hkept : (i.fold known).2.1 with
      | none =>
          obtain ⟨c, rfl⟩ := eq_check_of_fold hkept
          rw [fold_check] at hrest ⊢
          exact hrest
      | some j =>
          have hj := fold_of_fold hkept
          refine ⟨by rw [hj], ?_⟩
          rw [hj]
          exact hrest

/-! ## Checks -/

theorem dropRepeatedChecks_check (seen : List Check) (c : Check) (rest : List Instr) :
    dropRepeatedChecks seen (.check c :: rest) =
      if c ∈ seen then
        ((dropRepeatedChecks seen rest).1, (dropRepeatedChecks seen rest).2 + 1)
      else
        (.check c :: (dropRepeatedChecks (seen ++ [c]) rest).1,
          (dropRepeatedChecks (seen ++ [c]) rest).2) := by
  rw [dropRepeatedChecks]
  simp only [List.contains_iff_mem]

/-- The checks that stay in mind behind an instruction that is no check. -/
def rememberedAfter (i : Instr) (seen : List Check) : List Check :=
  if i.hasSideEffects then seen.filter fun c => !c.dependsOnContainer else seen

theorem dropRepeatedChecks_of_not_check (seen : List Check) {i : Instr} (hi : i.isCheck = false)
    (rest : List Instr) :
    dropRepeatedChecks seen (i :: rest) =
      (i :: (dropRepeatedChecks (rememberedAfter i seen) rest).1,
        (dropRepeatedChecks (rememberedAfter i seen) rest).2) := by
  cases i with
  | check c => cases hi
  | _ => rfl

/-- A check that has stayed is not among those passed before it. -/
theorem dropRepeatedChecks_twice (seen : List Check) (is : List Instr) :
    dropRepeatedChecks seen (dropRepeatedChecks seen is).1 = ((dropRepeatedChecks seen is).1, 0) := by
  induction is generalizing seen with
  | nil => rfl
  | cons i rest ih =>
      cases hi : i.isCheck with
      | false =>
          simp only [dropRepeatedChecks_of_not_check seen hi, ih]
      | true =>
          obtain ⟨c, rfl⟩ : ∃ c, i = .check c := by
            cases i with
            | check c => exact ⟨c, rfl⟩
            | _ => cases hi
          rw [dropRepeatedChecks_check]
          by_cases hmem : c ∈ seen
          · simp only [if_pos hmem, ih]
          · simp only [if_neg hmem, dropRepeatedChecks_check, ih]

/-- Leaving out checks leaves propagation nothing to do, if it had nothing to do before. -/
theorem Folded.dropRepeatedChecks {known : Known} {is : List Instr} (h : Folded known is)
    (seen : List Check) : Folded known (dropRepeatedChecks seen is).1 := by
  induction is generalizing known seen with
  | nil => exact trivial
  | cons i rest ih =>
      obtain ⟨hi, hrest⟩ := h
      cases hcheck : i.isCheck with
      | false =>
          rw [dropRepeatedChecks_of_not_check seen hcheck]
          exact ⟨hi, ih hrest _⟩
      | true =>
          obtain ⟨c, rfl⟩ : ∃ c, i = .check c := by
            cases i with
            | check c => exact ⟨c, rfl⟩
            | _ => cases hcheck
          rw [dropRepeatedChecks_check]
          by_cases hmem : c ∈ seen
          · rw [if_pos hmem]
            rw [fold_check] at hrest
            exact ih hrest seen
          · rw [if_neg hmem]
            exact ⟨hi, ih hrest _⟩

/-! ## Calls of leaves -/

/-- The number of parameters of the leaf with the given name. -/
def leafArity? (leaves : List (String × Leaf)) (name : String) : Option Nat :=
  (leaves.lookup name).map fun leaf => leaf.params.length

/-- The instruction is a call that can be inlined. -/
def Instr.callsLeaf (arity? : String → Option Nat) : Instr → Bool
  | callStatic _ name args => arity? name == some args.length
  | _ => false

theorem Instr.isStaticCall_of_callsLeaf {arity? : String → Option Nat} {i : Instr}
    (h : i.callsLeaf arity?) : i.isStaticCall := by
  cases i with
  | callStatic => rfl
  | _ => cases h

theorem Instr.isSome_leafCall? (leaves : List (String × Leaf)) (i : Instr) :
    (i.leafCall? leaves).isSome = i.callsLeaf (leafArity? leaves) := by
  cases i with
  | callStatic dest name args =>
      simp only [leafCall?, callsLeaf, leafArity?]
      cases leaves.lookup name with
      | none => rfl
      | some leaf =>
          simp only [Option.bind_some, Option.map_some]
          by_cases hlen : leaf.params.length = args.length
          · simp [hlen]
          · simp [hlen]
  | _ => rfl

theorem Instr.leafCall?_eq_none {leaves : List (String × Leaf)} {i : Instr}
    (h : ¬ i.callsLeaf (leafArity? leaves)) : i.leafCall? leaves = none := by
  rw [← isSome_leafCall?] at h
  exact Option.not_isSome_iff_eq_none.1 h

/-- Inlining counts the calls that can be inlined. -/
theorem Inlined.count {leaves : List (String × Leaf)} {is out : List Instr} {next last n : Nat}
    (h : Inlined leaves is next out last n) : n = is.countP (Instr.callsLeaf (leafArity? leaves)) := by
  induction h with
  | nil => rfl
  | @call i _ _ _ _ _ _ _ _ _ hcall _ _ ih =>
      have hi := i.isSome_leafCall? leaves
      rw [hcall] at hi
      rw [List.countP_cons_of_pos hi.symm, ← ih]
  | @keep i _ _ _ _ _ hcall _ ih =>
      have hi := i.isSome_leafCall? leaves
      rw [hcall] at hi
      rw [List.countP_cons_of_neg (by simp [← hi]), ← ih]

theorem InlinedBlocks.count {leaves : List (String × Leaf)} {blocks blocks' : List Block} {next n : Nat}
    (h : InlinedBlocks leaves blocks next blocks' n) :
    n = (blocks.flatMap Block.instrs).countP (Instr.callsLeaf (leafArity? leaves)) := by
  induction h with
  | nil => rfl
  | cons hinstrs _ ih => rw [List.flatMap_cons, List.countP_append, ← ih, ← hinstrs.count]

theorem Module.count_of_inlineRound? {m m' : Module} {n : Nat} (h : m.inlineRound? = some (m', n)) :
    n = total (m.functions.map fun f => f.instrs.countP (Instr.callsLeaf (leafArity? m.leaves))) := by
  obtain ⟨results, hresults, -, rfl⟩ := Module.eq_of_inlineRound? h
  congr 1
  clear h
  generalize m.functions = functions at hresults
  induction hresults with
  | nil => rfl
  | cons hfirst _ ih =>
      obtain ⟨_, _, _, hblocks, _⟩ := Function.eq_of_inlineCalls? hfirst
      rw [List.map_cons, List.map_cons, ih, hblocks.count, Function.instrs]

theorem total_eq_zero_iff {ns : List Nat} : total ns = 0 ↔ ∀ n ∈ ns, n = 0 := by
  induction ns with
  | nil => exact ⟨nofun, fun _ => rfl⟩
  | cons n rest ih => rw [total, Nat.add_eq_zero_iff, ih, List.forall_mem_cons]

/-! ## Inlining comes to rest -/

/-- If no call was inlined nothing has changed. -/
theorem Inlined.eq_of_count_zero {leaves : List (String × Leaf)} {is out : List Instr} {next last : Nat}
    (h : Inlined leaves is next out last 0) : out = is := by
  induction is generalizing out with
  | nil =>
      cases h
      rfl
  | cons i rest ih =>
      cases h with
      | keep _ hrest => rw [ih hrest]

theorem InlinedBlocks.eq_of_count_zero {leaves : List (String × Leaf)} {blocks blocks' : List Block} {next n : Nat}
    (h : InlinedBlocks leaves blocks next blocks' n) (hn : n = 0) : blocks' = blocks := by
  induction h with
  | nil => rfl
  | cons hinstrs _ ih =>
      obtain ⟨rfl, rfl⟩ := Nat.add_eq_zero_iff.1 hn
      rw [hinstrs.eq_of_count_zero, ih rfl]

namespace Module

variable {m m' : Module} {n : Nat}

/-- There is nothing left to inline: no leaf, or no call of one and a number above the temporaries of every
function. -/
def Settled (m : Module) : Prop :=
  m.leaves ≠ [] → ∀ f ∈ m.functions,
    (∀ i ∈ f.instrs, ¬ i.callsLeaf (leafArity? m.leaves)) ∧ ∀ t ∈ f.temps, t + 1 < UInt32.size

/-- A round that inlines no call changes nothing, and nothing was left to inline. -/
theorem settled_of_inlineRound? (h : m.inlineRound? = some (m', 0)) : m' = m ∧ m.Settled := by
  have hcount := count_of_inlineRound? h
  have hcalls := total_eq_zero_iff.1 hcount.symm
  constructor
  · obtain ⟨results, hresults, rfl, hzero⟩ := eq_of_inlineRound? h
    have hsame : results.map Prod.fst = m.functions := by
      have hcounts := total_eq_zero_iff.1 hzero.symm
      clear h hcount hcalls hzero
      generalize m.functions = functions at hresults
      induction hresults with
      | nil => rfl
      | @cons f r fs rs hfirst _ ih =>
          obtain ⟨_, _, _, hblocks, hg⟩ := Function.eq_of_inlineCalls? hfirst
          have hr : r.2 = 0 := hcounts _ List.mem_cons_self
          rw [List.map_cons, hg, hblocks.eq_of_count_zero hr,
            ih fun k hk => hcounts k (List.mem_cons_of_mem _ hk)]
    rw [hsame]
  · intro _ f hf
    refine ⟨fun i hi hcall => ?_, fun t ht => ?_⟩
    · have hnone := hcalls _ (List.mem_map_of_mem hf)
      exact List.countP_eq_zero.1 hnone i hi hcall
    · by_contra hlast
      have hbroken : m.inlineRound? = none := by
        refine inlineRound?_eq_none_iff.2 ⟨f, hf, fun hroom => hlast ?_⟩
        exact Nat.lt_of_le_of_lt (Nat.le_add_left _ _) (Nat.add_assoc _ t 1 ▸ hroom.2 t ht)
      rw [hbroken] at h
      cases h

/-- Where nothing is left to inline a round does nothing. -/
theorem Settled.inlineRound? (h : m.Settled) (hleaves : m.leaves ≠ []) : m.inlineRound? = some (m, 0) := by
  have hfresh : ∀ f ∈ m.functions, f.fresh m.leaves = 0 := by
    intro f hf
    refine total_eq_zero_iff.2 fun k hk => ?_
    obtain ⟨i, hi, rfl⟩ := List.mem_map.1 hk
    rw [Instr.fresh, Instr.leafCall?_eq_none ((h hleaves f hf).1 i hi), Option.elim_none]
  cases hround : m.inlineRound? with
  | none =>
      obtain ⟨f, hf, hroom⟩ := inlineRound?_eq_none_iff.1 hround
      refine absurd ⟨?_, fun t ht => ?_⟩ hroom
      · rw [hfresh f hf]
        decide
      · rw [hfresh f hf, Nat.zero_add]
        exact (h hleaves f hf).2 t ht
  | some r =>
      have hcount : r.2 = 0 := by
        rw [count_of_inlineRound? hround, total_eq_zero_iff]
        intro k hk
        obtain ⟨f, hf, rfl⟩ := List.mem_map.1 hk
        exact List.countP_eq_zero.2 (h hleaves f hf).1
      obtain ⟨m', k⟩ := r
      subst hcount
      rw [(settled_of_inlineRound? hround).1]

/-- Where nothing is left to inline, inlining does nothing. -/
theorem Settled.inline? (h : m.Settled) : m.inline? = some (m, 0) := by
  unfold Module.inline?
  by_cases hleaves : m.leaves = []
  · simp [inlineRounds?, hleaves]
  · rw [inlineRounds?_succ hleaves (h.inlineRound? hleaves), if_pos rfl]

/-- Where the rounds end, nothing is left to inline. -/
theorem settled_of_inlines (h : m.Inlines m' n) : m'.Settled := by
  induction h with
  | bare hleaves => exact fun hne => absurd hleaves hne
  | settled _ hround =>
      obtain ⟨rfl, hsettled⟩ := settled_of_inlineRound? hround
      exact hsettled
  | round _ _ _ _ ih => exact ih

end Module

/-! ## No new leaves -/

theorem lookup_map_snd {α β : Type} (g : α → β) (l : List (String × α)) (name : String) :
    (l.map fun p => (p.1, g p.2)).lookup name = (l.lookup name).map g := by
  induction l with
  | nil => rfl
  | cons p rest ih =>
      rw [List.map_cons, List.lookup_cons, List.lookup_cons]
      cases name == p.1 with
      | true => rfl
      | false => exact ih

section

variable {pass : List Instr → List Instr} (htidy : ∀ is, Tidied is (pass is))
include htidy

theorem Function.leaf?_mapInstrs (f : Function) :
    (f.mapInstrs pass).leaf?.map Leaf.params = f.leaf?.map Leaf.params := by
  unfold Function.leaf? Function.mapInstrs
  cases hblocks : f.blocks with
  | nil => rfl
  | cons b rest =>
      cases rest with
      | cons b' rest => rfl
      | nil =>
          have hall := (htidy b.instrs).leaf (f.params.map Param.name)
          simp only [List.map_cons, List.map_nil, Block.mapInstrs, hall]
          split
          · cases b.terminator <;> rfl
          · rfl

/-- The leaves have the same names and the same parameters, in the same order. -/
theorem Module.leaves_mapInstrs (m : Module) :
    (m.mapInstrs pass).leaves.map (fun p => (p.1, p.2.params)) = m.leaves.map fun p => (p.1, p.2.params) := by
  simp only [Module.leaves, Module.mapInstrs, List.map_reverse, List.filterMap_map, List.map_filterMap]
  congr 2
  funext f
  have hleaf := f.leaf?_mapInstrs htidy
  have hname : (f.mapInstrs pass).name = f.name := rfl
  simp only [Function.comp_apply, hname]
  cases h : f.leaf? with
  | none =>
      rw [h] at hleaf
      rw [Option.map_eq_none_iff.1 hleaf]
  | some leaf =>
      rw [h] at hleaf
      obtain ⟨leaf', hleaf', hparams⟩ := Option.map_eq_some_iff.1 hleaf
      rw [hleaf']
      simp [hparams]

theorem Module.leafArity?_mapInstrs (m : Module) :
    leafArity? (m.mapInstrs pass).leaves = leafArity? m.leaves := by
  funext name
  have hlookup := congrArg (fun l => (l.lookup name).map List.length) (m.leaves_mapInstrs htidy)
  simp only [lookup_map_snd, Option.map_map] at hlookup
  exact hlookup

theorem Function.temps_mapInstrs (f : Function) : (f.mapInstrs pass).temps ⊆ f.temps := by
  intro t ht
  obtain ⟨b', hb', ht⟩ := List.mem_flatMap.1 ht
  obtain ⟨b, hb, rfl⟩ := List.mem_map.1 hb'
  refine List.mem_flatMap.2 ⟨b, hb, ?_⟩
  rcases List.mem_append.1 ht with ht | ht
  · refine List.mem_append_left _ (List.mem_flatMap.2 ?_)
    obtain ⟨j, hj, ht⟩ := List.mem_flatMap.1 ht
    rcases List.mem_append.1 ht with ht | ht
    · have hdest : t ∈ (pass b.instrs).filterMap Instr.dest? :=
        List.mem_filterMap.2 ⟨j, hj, Option.mem_toList.1 ht⟩
      rw [(htidy b.instrs).dests] at hdest
      obtain ⟨i, hi, hd⟩ := List.mem_filterMap.1 hdest
      exact ⟨i, hi, List.mem_append_left _ (Option.mem_toList.2 hd)⟩
    · obtain ⟨i, hi, ht⟩ := List.mem_flatMap.1 ((htidy b.instrs).operands (List.mem_flatMap.2 ⟨j, hj, ht⟩))
      exact ⟨i, hi, List.mem_append_right _ ht⟩
  · exact List.mem_append_right _ ht

/-- Rewriting brings nothing to inline. -/
theorem Module.Settled.mapInstrs {m : Module} (h : m.Settled) : (m.mapInstrs pass).Settled := by
  have hleaves := m.leaves_mapInstrs htidy
  have harity := m.leafArity?_mapInstrs htidy
  intro hne f' hf'
  have hne' : m.leaves ≠ [] := by
    intro hnil
    rw [hnil] at hleaves
    exact hne (List.map_eq_nil_iff.1 hleaves)
  obtain ⟨f, hf, rfl⟩ := List.mem_map.1 hf'
  obtain ⟨hcalls, htemps⟩ := h hne' f hf
  refine ⟨fun i hi hcall => ?_, fun t ht => htemps t (f.temps_mapInstrs htidy ht)⟩
  rw [harity] at hcall
  obtain ⟨b', hb', hi⟩ := List.mem_flatMap.1 hi
  obtain ⟨b, hb, rfl⟩ := List.mem_map.1 hb'
  -- A call that is there after the pass was there before.
  have hmem : i ∈ (pass b.instrs).filter Instr.isStaticCall :=
    List.mem_filter.2 ⟨hi, Instr.isStaticCall_of_callsLeaf hcall⟩
  rw [(htidy b.instrs).calls] at hmem
  exact hcalls i (List.mem_flatMap.2 ⟨b, hb, List.mem_of_mem_filter hmem⟩) hcall

end

/-! ## Modules -/

/-- Every block of a module has the property. -/
def Module.EveryBlock (p : List Instr → Prop) (m : Module) : Prop :=
  ∀ f ∈ m.functions, ∀ b ∈ f.blocks, p b.instrs

theorem Module.everyBlock_mapInstrs {p : List Instr → Prop} {pass : List Instr → List Instr}
    (h : ∀ is, p (pass is)) (m : Module) : (m.mapInstrs pass).EveryBlock p := by
  intro f hf b hb
  obtain ⟨g, _, rfl⟩ := List.mem_map.1 hf
  obtain ⟨c, _, rfl⟩ := List.mem_map.1 hb
  exact h c.instrs

theorem Function.fold_of_folded {f : Function} (h : ∀ b ∈ f.blocks, Folded [] b.instrs) :
    f.fold = (f, {}) := by
  have hmap : f.blocks.map Block.fold = f.blocks.map fun b => (b, {}) := by
    refine List.map_congr_left fun b hb => ?_
    simp only [Block.fold, foldInstrs_of_folded (h b hb)]
  have hstats : ∀ blocks : List Block,
      (blocks.map fun _ => ({} : FoldStats)).foldl (· + ·) ({} : FoldStats) = {} := by
    intro blocks
    induction blocks with
    | nil => rfl
    | cons b rest ih => exact ih
  have hstats' := hstats f.blocks
  simp only [Function.fold, hmap, List.map_map, Function.comp_def, List.map_id', hstats']

theorem Module.fold_of_folded {m : Module} (h : m.EveryBlock (Folded [])) :
    m.fold = (m, m.functions.map fun _ => {}) := by
  have hmap : m.functions.map Function.fold = m.functions.map fun f => (f, {}) :=
    List.map_congr_left fun f hf => Function.fold_of_folded (h f hf)
  simp only [Module.fold, hmap, List.map_map, Function.comp_def, List.map_id']

theorem Function.dropChecks_of_settled {f : Function}
    (h : ∀ b ∈ f.blocks, dropRepeatedChecks [] b.instrs = (b.instrs, 0)) : f.dropChecks = (f, 0) := by
  have hmap : f.blocks.map Block.dropChecks = f.blocks.map fun b => (b, 0) := by
    refine List.map_congr_left fun b hb => ?_
    simp only [Block.dropChecks, h b hb]
  have hzero : total (f.blocks.map fun _ => 0) = 0 := total_eq_zero_iff.2 (by simp)
  simp only [Function.dropChecks, hmap, List.map_map, Function.comp_def, List.map_id', hzero]

theorem Module.dropChecks_of_settled {m : Module}
    (h : m.EveryBlock fun is => dropRepeatedChecks [] is = (is, 0)) :
    m.dropChecks = (m, m.functions.map fun _ => 0) := by
  have hmap : m.functions.map Function.dropChecks = m.functions.map fun f => (f, 0) :=
    List.map_congr_left fun f hf => Function.dropChecks_of_settled (h f hf)
  simp only [Module.dropChecks, hmap, List.map_map, Function.comp_def, List.map_id']

/-- The two passes that rewrite instructions are at rest on what they leave, and so is inlining if it was
before them. -/
theorem Module.settled_rewritten (m : Module) :
    m.fold.1.dropChecks.1.EveryBlock (Folded []) ∧
      (m.fold.1.dropChecks.1.EveryBlock fun is => dropRepeatedChecks [] is = (is, 0)) ∧
      (m.Settled → m.fold.1.dropChecks.1.Settled) := by
  rw [Module.dropChecks_fst, Module.fold_fst]
  refine ⟨?_, Module.everyBlock_mapInstrs (fun is => dropRepeatedChecks_twice [] is) _, fun h => ?_⟩
  · intro f hf b hb
    obtain ⟨g, hg, rfl⟩ := List.mem_map.1 hf
    obtain ⟨c, hc, rfl⟩ := List.mem_map.1 hb
    have hfolded := m.everyBlock_mapInstrs (folded_foldInstrs []) g hg c hc
    exact hfolded.dropRepeatedChecks []
  · exact (h.mapInstrs (tidied_foldInstrs [])).mapInstrs (tidied_dropRepeatedChecks [])

/-- Rewriting twice changes nothing the second time. -/
theorem Module.rewrite_rewritten (m : Module) :
    m.fold.1.dropChecks.1.rewrite 0 = (m.fold.1.dropChecks.1, {}) := by
  obtain ⟨hfolded, hdropped, _⟩ := m.settled_rewritten
  have hzero : ∀ {α : Type} (l : List α), total (l.map fun _ => 0) = 0 :=
    fun l => total_eq_zero_iff.2 (by simp)
  simp only [Module.rewrite, Module.fold_of_folded hfolded, Module.dropChecks_of_settled hdropped, List.map_map,
    Function.comp_def, hzero]

/-- Optimizing is idempotent. It gives a module unless it inlines and the numbers run out, and what it has made
of a module it leaves unchanged and reports as unchanged. -/
theorem Module.optimize_optimize (level : OptLevel) (m : Module) :
    (m.optimize? level = none ↔ level = .full ∧ m.RunsOut) ∧
      ∀ m' stats, m.optimize? level = some (m', stats) → m'.optimize? level = some (m', {}) := by
  refine ⟨Module.optimize?_eq_none_iff, fun m' stats h => ?_⟩
  rcases Module.of_optimize? h with ⟨rfl, rfl⟩ | ⟨rfl, rfl⟩ | ⟨inlined, n, rfl, hinline, rfl⟩
  · rfl
  · exact congrArg some m.rewrite_rewritten
  · have hsettled := Module.settled_of_inlines (Module.inlines_iff.2 hinline)
    have hagain := (inlined.settled_rewritten.2.2 hsettled).inline?
    rw [Module.optimize?, hagain, Option.map_some]
    exact congrArg some inlined.rewrite_rewritten

/-- `one` is called, and twice the same is added. -/
def sumOfOnes : Module where
  name := "m"
  functions :=
    [ { name := "one", params := [], ret := .int, blocks := [⟨"entry", [.const 0 (.int 1)], .ret 0⟩] },
      { name := "main", params := [], ret := .int
        blocks := [⟨"entry", [.callStatic (some 0) "one" [], .const 1 (.int 2),
          .check (.overflow .add 1 1 .int), .binary 2 .add 1 1, .binary 3 .add 0 2], .ret 3⟩] } ]
  layouts := []

/-- The call is inlined, the result and both sums are constants, and then nothing is left to do. -/
theorem optimize_optimize_sumOfOnes :
    ∃ m', sumOfOnes.optimize? .full =
        some (m', { callsInlined := 1, constantsFolded := 3, checksProven := 1 }) ∧
      m' ≠ sumOfOnes ∧ m'.optimize? .full = some (m', {}) := by
  have hstats : (sumOfOnes.optimize? .full).map Prod.snd =
      some { callsInlined := 1, constantsFolded := 3, checksProven := 1 } := by decide +kernel
  obtain ⟨⟨m', stats⟩, h, hsnd⟩ := Option.map_eq_some_iff.1 hstats
  cases hsnd
  have hagain := (Module.optimize_optimize .full sumOfOnes).2 m' _ h
  refine ⟨m', h, ?_, hagain⟩
  rintro rfl
  rw [hagain] at h
  cases h

end ProtoScript.Ir
