import ProtoScript.Optimize.Inline
import ProtoScript.Proofs.Ir.Operands
import ProtoScript.Proofs.Lookup

set_option autoImplicit false

/-!
# What inlining puts in the place of calls, and when its numbers run out

Inlining goes through a function with the number of the next temporary, and breaks off when that number does
not fit 32 bits. What it gives if it does not break off is said by relations in which no bound occurs
(`Replays`, `Inlined`, `InlinedBlocks`), and the properties of inlining are proved by induction on them.

When it breaks off is said once: a replay takes one number for each temporary that the leaf defines itself, and
the calls of a function are inlined exactly if the numbers that are left above its temporaries suffice for all
of them (`Function.isSome_inlineCalls?_iff`).

Rounds go on as long as they change something. As a loop without a bound (`Module.Inlines`) they end in what
rounds with a bound above the number of calls give, and they break off in one of them if the numbers run out
(`Module.RunsOut`).
-/

namespace ProtoScript.Ir

/-! ## Leaves -/

/-- What makes a function a leaf. -/
theorem Function.eq_of_leaf? {f : Function} {leaf : Leaf} (h : f.leaf? = some leaf) :
    ∃ block, f.blocks = [block] ∧ leaf.params = f.params.map Param.name ∧
      leaf.instrs = block.instrs ∧ (∀ i ∈ leaf.instrs, i.isLeafInstr leaf.params) ∧
      block.terminator = leaf.result.elim .retVoid .ret := by
  unfold Function.leaf? at h
  split at h
  case h_2 => cases h
  case h_1 block hblocks =>
    simp only at h
    split at h
    case isFalse => cases h
    case isTrue hall =>
      refine ⟨block, hblocks, ?_⟩
      have hinstrs : ∀ i ∈ block.instrs, i.isLeafInstr (f.params.map Param.name) := by
        simpa using hall
      split at h
      case h_1 t ht =>
        obtain rfl := Option.some.inj h
        exact ⟨rfl, rfl, hinstrs, ht⟩
      case h_2 ht =>
        obtain rfl := Option.some.inj h
        exact ⟨rfl, rfl, hinstrs, ht⟩
      case h_3 => cases h

/-- There are only instructions in the leaves that a leaf may hold. -/
def AreLeaves (leaves : List (String × Leaf)) : Prop :=
  ∀ name leaf, leaves.lookup name = some leaf → ∀ i ∈ leaf.instrs, i.isLeafInstr leaf.params

theorem Module.areLeaves (m : Module) : AreLeaves m.leaves := by
  intro name leaf h
  have hmem : (name, leaf) ∈ m.leaves := mem_of_lookup h
  rw [Module.leaves, List.mem_reverse] at hmem
  obtain ⟨f, _, hleaf⟩ := List.mem_filterMap.1 hmem
  obtain ⟨leaf', hleaf', heq⟩ := Option.map_eq_some_iff.1 hleaf
  obtain ⟨_, rfl⟩ := Prod.mk.inj heq
  obtain ⟨_, _, _, _, hinstrs, _⟩ := Function.eq_of_leaf? hleaf'
  exact hinstrs

/-- What is inlined is a call of a leaf with the right number of arguments. -/
theorem Instr.eq_of_leafCall? {leaves : List (String × Leaf)} {i : Instr} {c : LeafCall}
    (h : i.leafCall? leaves = some c) :
    ∃ name, i = .callStatic c.dest name c.args ∧ leaves.lookup name = some c.leaf ∧
      c.leaf.params.length = c.args.length := by
  unfold Instr.leafCall? at h
  split at h
  case h_2 => cases h
  case h_1 dest name args =>
    obtain ⟨leaf, hleaf, h⟩ := Option.bind_eq_some_iff.1 h
    split at h
    case isFalse => cases h
    case isTrue hlen =>
      cases h
      exact ⟨name, rfl, hleaf, hlen⟩

theorem Instr.isStaticCall_mapOperands (g : Temp → Temp) (i : Instr) :
    (i.mapOperands g).isStaticCall = i.isStaticCall := by
  cases i <;> rfl

theorem Instr.isStaticCall_mapDest (g : Temp → Temp) (i : Instr) :
    (i.mapDest g).isStaticCall = i.isStaticCall := by
  cases i <;> rfl

theorem Instr.isStaticCall_of_isLeafInstr {params : List String} {i : Instr}
    (h : i.isLeafInstr params) : i.isStaticCall = false := by
  cases i with
  | callStatic => cases h
  | _ => rfl

/-! ## Replays -/

section

variable {bound : List (String × Temp)} {i : Instr} {is out : List Instr} {names names' : Renaming}
  {d arg : Temp} {next last : Nat}

/-- The instructions of a leaf are replayed as others, which define the temporaries from `next` to before
`last`; the renaming has grown from `names` to `names'`. -/
inductive Replays (bound : List (String × Temp)) :
    List Instr → Renaming → Nat → List Instr → Renaming → Nat → Prop
  | nil {names : Renaming} {next : Nat} : Replays bound [] names next [] names next
  | param {i : Instr} {is out : List Instr} {names names' : Renaming} {d arg : Temp} {next last : Nat} :
      i.loadedParam? bound = some (d, arg) → Replays bound is ((d, arg) :: names) next out names' last →
      Replays bound (i :: is) names next out names' last
  | plain {i : Instr} {is out : List Instr} {names names' : Renaming} {next last : Nat} :
      i.loadedParam? bound = none → i.dest? = none → Replays bound is names next out names' last →
      Replays bound (i :: is) names next (i.mapOperands names.apply :: out) names' last
  | define {i : Instr} {is out : List Instr} {names names' : Renaming} {d : Temp} {next last : Nat} :
      i.loadedParam? bound = none → i.dest? = some d →
      Replays bound is ((d, next) :: names) (next + 1) out names' last →
      Replays bound (i :: is) names next
        ((i.mapOperands names.apply).mapDest (fun _ => next) :: out) names' last

theorem replays_of_replay? (h : replay? bound is names next = some (out, names', last)) :
    Replays bound is names next out names' last := by
  induction is generalizing names next out with
  | nil =>
      cases h
      exact .nil
  | cons i rest ih =>
      unfold replay? at h
      split at h
      case h_1 d arg hparam => exact .param hparam (ih h)
      case h_2 hparam =>
        simp only at h
        split at h
        case h_1 hdest =>
          obtain ⟨⟨body, _, _⟩, hrest, h⟩ := Option.bind_eq_some_iff.1 h
          cases h
          exact .plain hparam hdest (ih hrest)
        case h_2 d hdest =>
          obtain ⟨next', hnext, h⟩ := Option.bind_eq_some_iff.1 h
          obtain ⟨⟨body, _, _⟩, hrest, h⟩ := Option.bind_eq_some_iff.1 h
          cases h
          obtain ⟨-, rfl⟩ := Temp.next?_eq_some_iff.1 hnext
          exact .define hparam hdest (ih hrest)

/-- The instruction defines a temporary of its own in the caller: it is no load of a parameter. -/
def Instr.definesFresh (bound : List (String × Temp)) (i : Instr) : Bool :=
  (i.loadedParam? bound).isNone && i.dest?.isSome

theorem Instr.definesFresh_of_param (h : i.loadedParam? bound = some (d, arg)) :
    ¬ i.definesFresh bound := by
  simp [definesFresh, h]

theorem Instr.definesFresh_of_plain (h : i.dest? = none) : ¬ i.definesFresh bound := by
  simp [definesFresh, h]

theorem Instr.definesFresh_of_define (hparam : i.loadedParam? bound = none) (h : i.dest? = some d) :
    i.definesFresh bound := by
  simp [definesFresh, hparam, h]

/-- A replay takes as many numbers as the leaf defines temporaries. -/
theorem Replays.last_eq (h : Replays bound is names next out names' last) :
    last = next + is.countP (Instr.definesFresh bound) := by
  induction h with
  | nil => rfl
  | param hparam _ ih => rw [ih, List.countP_cons_of_neg (Instr.definesFresh_of_param hparam)]
  | plain _ hdest _ ih => rw [ih, List.countP_cons_of_neg (Instr.definesFresh_of_plain hdest)]
  | define hparam hdest _ ih =>
      rw [ih, List.countP_cons_of_pos (Instr.definesFresh_of_define hparam hdest)]
      omega

/-- A leaf calls nothing, and neither does its replay. -/
theorem Replays.calls (h : Replays bound is names next out names' last) {params : List String}
    (hleaf : ∀ i ∈ is, i.isLeafInstr params) : out.countP Instr.isStaticCall = 0 := by
  induction h with
  | nil => rfl
  | param _ _ ih => exact ih fun j hj => hleaf j (List.mem_cons_of_mem _ hj)
  | plain _ _ _ ih =>
      have hi := Instr.isStaticCall_of_isLeafInstr (hleaf _ List.mem_cons_self)
      rw [List.countP_cons_of_neg (by simp [Instr.isStaticCall_mapOperands, hi])]
      exact ih fun j hj => hleaf j (List.mem_cons_of_mem _ hj)
  | define _ _ _ ih =>
      have hi := Instr.isStaticCall_of_isLeafInstr (hleaf _ List.mem_cons_self)
      rw [List.countP_cons_of_neg (by simp [Instr.isStaticCall_mapDest, Instr.isStaticCall_mapOperands, hi])]
      exact ih fun j hj => hleaf j (List.mem_cons_of_mem _ hj)

theorem Replays.le (h : Replays bound is names next out names' last) : next ≤ last := by
  rw [h.last_eq]
  exact Nat.le_add_right _ _

/-- The numbers of a replay suffice exactly if the one behind the last fits. -/
theorem isSome_replay?_iff (bound : List (String × Temp)) (is : List Instr) (names : Renaming)
    (hnext : next < UInt32.size) :
    (replay? bound is names next).isSome ↔
      next + is.countP (Instr.definesFresh bound) < UInt32.size := by
  induction is generalizing names next with
  | nil => simpa [replay?] using hnext
  | cons i rest ih =>
      unfold replay?
      split
      case h_1 d arg hparam =>
        rw [List.countP_cons_of_neg (Instr.definesFresh_of_param hparam)]
        exact ih _ hnext
      case h_2 hparam =>
        simp only
        split
        case h_1 hdest =>
          rw [List.countP_cons_of_neg (Instr.definesFresh_of_plain hdest), ← ih names hnext]
          cases replay? bound rest names next <;> rfl
        case h_2 d hdest =>
          rw [List.countP_cons_of_pos (Instr.definesFresh_of_define hparam hdest)]
          by_cases hfits : next + 1 < UInt32.size
          · have hrest := ih ((d, next) :: names) hfits
            have hnext? : Temp.next? next = some (next + 1) := Temp.next?_eq_some_iff.2 ⟨hfits, rfl⟩
            rw [← Nat.add_assoc, Nat.add_right_comm, ← hrest, hnext?]
            simp only [Option.bind_eq_bind, Option.bind_some]
            cases replay? bound rest ((d, next) :: names) (next + 1) <;> rfl
          · have hnext? : Temp.next? next = none := Temp.next?_eq_none_iff.2 (Nat.not_lt.1 hfits)
            rw [hnext?]
            simp only [Option.bind_eq_bind, Option.bind_none, Option.isSome_none, Bool.false_eq_true, false_iff]
            omega

end

/-! ## Inlined calls -/

section

variable {leaves : List (String × Leaf)} {is out : List Instr} {next last n : Nat}

/-- The instructions become others when `n` calls of leaves are inlined; the new temporaries are those from `next`
to before `last`. -/
inductive Inlined (leaves : List (String × Leaf)) : List Instr → Nat → List Instr → Nat → Nat → Prop
  | nil {next : Nat} : Inlined leaves [] next [] next 0
  | call {i : Instr} {c : LeafCall} {is body out : List Instr} {names : Renaming} {next mid last n : Nat} :
      i.leafCall? leaves = some c → Replays c.bound c.leaf.instrs [] next body names mid →
      Inlined leaves is mid out last n →
      Inlined leaves (i :: is) next (body ++ c.returned names ++ out) last (n + 1)
  | keep {i : Instr} {is out : List Instr} {next last n : Nat} :
      i.leafCall? leaves = none → Inlined leaves is next out last n →
      Inlined leaves (i :: is) next (i :: out) last n

theorem inlined_of_inlineInstrs? (h : inlineInstrs? leaves is next = some (out, last, n)) :
    Inlined leaves is next out last n := by
  induction is generalizing next out n with
  | nil =>
      cases h
      exact .nil
  | cons i rest ih =>
      unfold inlineInstrs? at h
      split at h
      case h_1 c hcall =>
        obtain ⟨⟨body, mid⟩, hbody, h⟩ := Option.bind_eq_some_iff.1 h
        obtain ⟨⟨behind, _, _⟩, hrest, h⟩ := Option.bind_eq_some_iff.1 h
        obtain ⟨⟨replayed, names, _⟩, hreplay, hbody⟩ := Option.bind_eq_some_iff.1 hbody
        cases h
        cases hbody
        exact .call hcall (replays_of_replay? hreplay) (ih hrest)
      case h_2 hcall =>
        obtain ⟨⟨behind, _, _⟩, hrest, h⟩ := Option.bind_eq_some_iff.1 h
        cases h
        exact .keep hcall (ih hrest)

/-- The temporaries that inlining the instruction takes. -/
def Instr.fresh (leaves : List (String × Leaf)) (i : Instr) : Nat :=
  (i.leafCall? leaves).elim 0 fun c => c.leaf.instrs.countP (definesFresh c.bound)

theorem Inlined.last_eq (h : Inlined leaves is next out last n) :
    last = next + total (is.map (Instr.fresh leaves)) := by
  induction h with
  | nil => rfl
  | call hcall hreplay _ ih =>
      rw [ih, hreplay.last_eq, List.map_cons, total, Instr.fresh, hcall, Option.elim_some, Nat.add_assoc]
  | keep hcall _ ih => rw [ih, List.map_cons, total, Instr.fresh, hcall, Option.elim_none, Nat.zero_add]

theorem LeafCall.calls_returned (c : LeafCall) (names : Renaming) :
    (c.returned names).countP Instr.isStaticCall = 0 := by
  unfold LeafCall.returned
  split <;> rfl

/-- The calls that are inlined are gone, and no others come in their place. -/
theorem Inlined.calls (hleaves : AreLeaves leaves) (h : Inlined leaves is next out last n) :
    out.countP Instr.isStaticCall + n = is.countP Instr.isStaticCall := by
  induction h with
  | nil => rfl
  | @call i c _ _ _ _ _ _ _ n hcall hreplay _ ih =>
      obtain ⟨name, rfl, hleaf, _⟩ := Instr.eq_of_leafCall? hcall
      have hbody := hreplay.calls (hleaves name c.leaf hleaf)
      rw [List.countP_cons_of_pos rfl, List.countP_append, List.countP_append, hbody, c.calls_returned]
      omega
  | keep _ _ ih =>
      simp only [List.countP_cons]
      omega

theorem Inlined.le (h : Inlined leaves is next out last n) : next ≤ last := by
  rw [h.last_eq]
  exact Nat.le_add_right _ _

theorem isSome_inlineInstrs?_iff (leaves : List (String × Leaf)) (is : List Instr) (hnext : next < UInt32.size) :
    (inlineInstrs? leaves is next).isSome ↔
      next + total (is.map (Instr.fresh leaves)) < UInt32.size := by
  induction is generalizing next with
  | nil => simpa [inlineInstrs?, total] using hnext
  | cons i rest ih =>
      rw [List.map_cons, total, inlineInstrs?, Instr.fresh, ← Nat.add_assoc]
      cases hcall : i.leafCall? leaves with
      | none =>
          simp only [Option.elim_none, Nat.add_zero]
          rw [← ih hnext]
          cases inlineInstrs? leaves rest next <;> rfl
      | some c =>
          simp only [Option.elim_some]
          have hsome := isSome_replay?_iff c.bound c.leaf.instrs [] hnext
          cases hreplay : replay? c.bound c.leaf.instrs [] next with
          | none =>
              rw [hreplay] at hsome
              simp only [LeafCall.expand?, hreplay, Option.bind_eq_bind, Option.bind_none, Option.isSome_none,
                Bool.false_eq_true, false_iff] at hsome ⊢
              omega
          | some r =>
              obtain ⟨body, names, mid⟩ := r
              have hmid := (replays_of_replay? hreplay).last_eq
              rw [hreplay] at hsome
              have hfits : mid < UInt32.size := by
                rw [hmid]
                exact hsome.1 rfl
              simp only [LeafCall.expand?, hreplay, Option.bind_eq_bind, Option.bind_some, Option.pure_def]
              rw [← hmid, ← ih hfits]
              cases inlineInstrs? leaves rest mid <;> rfl

end

/-! ## Blocks -/

section

variable {leaves : List (String × Leaf)} {blocks blocks' : List Block} {next n : Nat}

/-- The blocks become others when `n` calls of leaves are inlined. -/
inductive InlinedBlocks (leaves : List (String × Leaf)) : List Block → Nat → List Block → Nat → Prop
  | nil {next : Nat} : InlinedBlocks leaves [] next [] 0
  | cons {b : Block} {rest rest' : List Block} {instrs : List Instr} {next mid n k : Nat} :
      Inlined leaves b.instrs next instrs mid n → InlinedBlocks leaves rest mid rest' k →
      InlinedBlocks leaves (b :: rest) next ({ b with instrs } :: rest') (n + k)

theorem inlinedBlocks_of_inlineBlocks? (h : inlineBlocks? leaves blocks next = some (blocks', n)) :
    InlinedBlocks leaves blocks next blocks' n := by
  induction blocks generalizing next blocks' n with
  | nil =>
      cases h
      exact .nil
  | cons b rest ih =>
      obtain ⟨⟨instrs, mid, k⟩, hinstrs, h⟩ := Option.bind_eq_some_iff.1 h
      obtain ⟨⟨rest', k'⟩, hrest, h⟩ := Option.bind_eq_some_iff.1 h
      cases h
      exact .cons (inlined_of_inlineInstrs? hinstrs) (ih hrest)

theorem InlinedBlocks.calls (hleaves : AreLeaves leaves) (h : InlinedBlocks leaves blocks next blocks' n) :
    (blocks'.flatMap Block.instrs).countP Instr.isStaticCall + n =
      (blocks.flatMap Block.instrs).countP Instr.isStaticCall := by
  induction h with
  | nil => rfl
  | cons hinstrs _ ih =>
      have hfirst := hinstrs.calls hleaves
      simp only [List.flatMap_cons, List.countP_append]
      omega

theorem total_append (ns ms : List Nat) : total (ns ++ ms) = total ns + total ms := by
  induction ns with
  | nil => exact (Nat.zero_add _).symm
  | cons n rest ih => rw [List.cons_append, total, total, ih, Nat.add_assoc]

theorem isSome_inlineBlocks?_iff (leaves : List (String × Leaf)) (blocks : List Block)
    (hnext : next < UInt32.size) :
    (inlineBlocks? leaves blocks next).isSome ↔
      next + total ((blocks.flatMap Block.instrs).map (Instr.fresh leaves)) < UInt32.size := by
  induction blocks generalizing next with
  | nil => simpa [inlineBlocks?, total] using hnext
  | cons b rest ih =>
      rw [List.flatMap_cons, List.map_append, total_append, inlineBlocks?, ← Nat.add_assoc]
      have hsome := isSome_inlineInstrs?_iff leaves b.instrs hnext
      cases hinstrs : inlineInstrs? leaves b.instrs next with
      | none =>
          rw [hinstrs] at hsome
          simp only [Option.bind_eq_bind, Option.bind_none, Option.isSome_none, Bool.false_eq_true,
            false_iff] at hsome ⊢
          omega
      | some r =>
          obtain ⟨instrs, mid, k⟩ := r
          have hmid := (inlined_of_inlineInstrs? hinstrs).last_eq
          rw [hinstrs] at hsome
          have hfits : mid < UInt32.size := by
            rw [hmid]
            exact hsome.1 rfl
          simp only [Option.bind_eq_bind, Option.bind_some]
          rw [← hmid, ← ih hfits]
          cases inlineBlocks? leaves rest mid <;> rfl

end

/-! ## Functions -/

namespace Function

variable {leaves : List (String × Leaf)} {f g : Function} {next n : Nat}

/-- What inlining the calls of a function gives. -/
theorem eq_of_inlineCalls? (h : f.inlineCalls? leaves = some (g, n)) :
    ∃ next blocks, f.nextTemp? = some next ∧ InlinedBlocks leaves f.blocks next blocks n ∧
      g = { f with blocks } := by
  obtain ⟨next, hnext, h⟩ := Option.bind_eq_some_iff.1 h
  obtain ⟨⟨blocks, k⟩, hblocks, h⟩ := Option.bind_eq_some_iff.1 h
  cases h
  exact ⟨next, blocks, hnext, inlinedBlocks_of_inlineBlocks? hblocks, rfl⟩

/-- The temporaries that inlining the calls of the function takes. -/
def fresh (leaves : List (String × Leaf)) (f : Function) : Nat := total (f.instrs.map (Instr.fresh leaves))

/-- The numbers above the temporaries of the function suffice for those of the calls that are inlined, and there
is one left. -/
def HasRoom (leaves : List (String × Leaf)) (f : Function) : Prop :=
  f.fresh leaves < UInt32.size ∧ ∀ t ∈ f.temps, f.fresh leaves + t + 1 < UInt32.size

theorem hasRoom_iff (h : f.nextTemp? = some next) :
    f.HasRoom leaves ↔ next + f.fresh leaves < UInt32.size := by
  obtain ⟨_, hleast⟩ := nextTemp?_eq_some h
  constructor
  · rintro ⟨hfew, hroom⟩
    have hle : next ≤ UInt32.size - f.fresh leaves - 1 := (hleast _).2 fun t ht =>
      Nat.lt_sub_of_add_lt (Nat.lt_sub_of_add_lt (by have hlt := hroom t ht; omega))
    omega
  · intro hfits
    refine ⟨by omega, fun t ht => ?_⟩
    have hlt : t < next := (hleast next).1 (Nat.le_refl next) t ht
    exact Nat.lt_of_le_of_lt (Nat.add_le_add_left (Nat.succ_le_of_lt hlt) _) (by omega)

/-- The calls of a function are inlined exactly if there is room for them. -/
theorem isSome_inlineCalls?_iff : (f.inlineCalls? leaves).isSome ↔ f.HasRoom leaves := by
  unfold inlineCalls?
  cases hnext : f.nextTemp? with
  | none =>
      obtain ⟨t, ht, hlast⟩ := nextTemp?_eq_none_iff.1 hnext
      simp only [Option.bind_eq_bind, Option.bind_none, Option.isSome_none, Bool.false_eq_true, false_iff]
      rintro ⟨_, hroom⟩
      have hlt := hroom t ht
      omega
  | some next =>
      have hblocks := isSome_inlineBlocks?_iff leaves f.blocks (nextTemp?_eq_some hnext).1
      rw [hasRoom_iff hnext, fresh, instrs, ← hblocks]
      simp only [Option.bind_eq_bind, Option.bind_some]
      cases inlineBlocks? leaves f.blocks next <;> rfl

end Function

/-! ## Modules -/

namespace Module

variable {m m' : Module} {n : Nat}

/-- What a round gives: the calls of every function are inlined, with the leaves there were before. -/
theorem eq_of_inlineRound? (h : m.inlineRound? = some (m', n)) :
    ∃ results, List.Forall₂ (fun f r => f.inlineCalls? m.leaves = some r) m.functions results ∧
      m' = { m with functions := results.map Prod.fst } ∧ n = total (results.map Prod.snd) := by
  obtain ⟨results, hresults, h⟩ := Option.bind_eq_some_iff.1 h
  cases h
  exact ⟨results, forall₂_of_mapM hresults, rfl, rfl⟩

/-- A round breaks off exactly if there is no room in some function. -/
theorem inlineRound?_eq_none_iff : m.inlineRound? = none ↔ ∃ f ∈ m.functions, ¬ f.HasRoom m.leaves := by
  have hmapM : m.inlineRound? = none ↔ m.functions.mapM (Function.inlineCalls? m.leaves) = none := by
    rw [inlineRound?]
    cases m.functions.mapM (Function.inlineCalls? m.leaves) <;> simp
  simp only [hmapM, mapM_eq_none_iff, ← Function.isSome_inlineCalls?_iff, Option.not_isSome_iff_eq_none]

/-- How rounds go on after one of them. -/
theorem inlineRounds?_succ {fuel : Nat} (hleaves : m.leaves ≠ []) (h : m.inlineRound? = some (m', n)) :
    inlineRounds? (fuel + 1) m =
      if n = 0 then some (m', 0) else (inlineRounds? fuel m').map fun r => (r.1, n + r.2) := by
  rw [inlineRounds?, if_neg (by simpa using hleaves), h]
  cases n with
  | zero => rfl
  | succ n =>
      simp only [Option.bind_eq_bind, Option.bind_some, Nat.succ_ne_zero, if_false]
      cases inlineRounds? fuel m' <;> rfl

/-- The calls that a round replaces are gone, and no others come in their place. -/
theorem staticCalls_inlineRound? (h : m.inlineRound? = some (m', n)) : m'.staticCalls + n = m.staticCalls := by
  obtain ⟨results, hresults, rfl, rfl⟩ := eq_of_inlineRound? h
  have hsum : ∀ {functions : List Function} {results : List (Function × Nat)},
      List.Forall₂ (fun f r => f.inlineCalls? m.leaves = some r) functions results →
        total ((results.map Prod.fst).map fun f => f.instrs.countP Instr.isStaticCall) +
            total (results.map Prod.snd) =
          total (functions.map fun f => f.instrs.countP Instr.isStaticCall) := by
    intro functions results hresults
    induction hresults with
    | nil => rfl
    | cons hfirst _ ih =>
        obtain ⟨next, blocks, _, hblocks, hg⟩ := Function.eq_of_inlineCalls? hfirst
        have hcalls := hblocks.calls m.areLeaves
        simp only [List.map_cons, total, hg, Function.instrs] at ih hcalls ⊢
        omega
  exact hsum hresults

/-! ### Rounds without a bound -/

/-- Rounds of inlining make the second module of the first one and replace the given number of calls. They go on
until there is no leaf or a round changes nothing. -/
inductive Inlines : Module → Module → Nat → Prop where
  | bare {m : Module} (h : m.leaves = []) : Inlines m m 0
  | settled {m m' : Module} (hleaves : m.leaves ≠ []) (h : m.inlineRound? = some (m', 0)) : Inlines m m' 0
  | round {m m' result : Module} {n k : Nat} (hleaves : m.leaves ≠ []) (h : m.inlineRound? = some (m', n))
    (hn : n ≠ 0) (rest : Inlines m' result k) : Inlines m result (n + k)

/-- The loop ends in what rounds with a bound give, if the bound is above the number of calls. -/
theorem Inlines.inlineRounds? (h : m.Inlines m' n) {fuel : Nat} (hfuel : m.staticCalls < fuel) :
    Module.inlineRounds? fuel m = some (m', n) := by
  induction h generalizing fuel with
  | bare hleaves =>
      obtain ⟨fuel, rfl⟩ := Nat.exists_eq_succ_of_ne_zero (Nat.ne_zero_of_lt hfuel)
      simp [Module.inlineRounds?, hleaves]
  | settled hleaves hround =>
      obtain ⟨fuel, rfl⟩ := Nat.exists_eq_succ_of_ne_zero (Nat.ne_zero_of_lt hfuel)
      rw [inlineRounds?_succ hleaves hround, if_pos rfl]
  | round hleaves hround hn _ ih =>
      obtain ⟨fuel, rfl⟩ := Nat.exists_eq_succ_of_ne_zero (Nat.ne_zero_of_lt hfuel)
      have hcalls := staticCalls_inlineRound? hround
      rw [inlineRounds?_succ hleaves hround, if_neg hn, ih (by omega), Option.map_some]

/-- What rounds with such a bound give, the loop ends in. -/
theorem inlines_of_inlineRounds? {fuel : Nat} (hfuel : m.staticCalls < fuel)
    (h : inlineRounds? fuel m = some (m', n)) : m.Inlines m' n := by
  induction fuel generalizing m n with
  | zero => omega
  | succ fuel ih =>
      by_cases hleaves : m.leaves = []
      · simp only [inlineRounds?, hleaves, List.isEmpty_nil, if_true, Option.some.injEq, Prod.mk.injEq] at h
        obtain ⟨rfl, rfl⟩ := h
        exact .bare hleaves
      · cases hfirst : m.inlineRound? with
        | none => simp [inlineRounds?, hleaves, hfirst] at h
        | some r =>
            rw [inlineRounds?_succ hleaves hfirst] at h
            split at h
            case isTrue hn =>
              cases h
              exact .settled hleaves (by rw [hfirst, ← hn])
            case isFalse hn =>
              obtain ⟨r', hrest, h⟩ := Option.map_eq_some_iff.1 h
              cases h
              have hcalls := staticCalls_inlineRound? hfirst
              exact .round hleaves hfirst hn (ih (by omega) hrest)

/-- The loop ends exactly in what inlining returns. -/
theorem inlines_iff : m.Inlines m' n ↔ m.inline? = some (m', n) :=
  ⟨fun h => h.inlineRounds? (Nat.lt_succ_self _), inlines_of_inlineRounds? (Nat.lt_succ_self _)⟩

/-- What a round keeps, the loop keeps. -/
theorem Inlines.keeps {p : Module → Prop}
    (hround : ∀ {m m' : Module} {n : Nat}, m.inlineRound? = some (m', n) → p m → p m')
    (h : m.Inlines m' n) (hm : p m) : p m' := by
  induction h with
  | bare => exact hm
  | settled _ h => exact hround h hm
  | round _ h _ _ ih => exact ih (hround h hm)

/-! ### Rounds that break off -/

/-- The numbers run out: in one of the rounds there is a function without room for the calls to be inlined. -/
inductive RunsOut : Module → Prop
  | now {m : Module} {f : Function} : m.leaves ≠ [] → f ∈ m.functions → ¬ f.HasRoom m.leaves → RunsOut m
  | later {m m' : Module} {n : Nat} : m.leaves ≠ [] → m.inlineRound? = some (m', n) → n ≠ 0 → RunsOut m' →
      RunsOut m

/-- Rounds break off only if the numbers run out. -/
theorem runsOut_of_inlineRounds? {fuel : Nat} (h : inlineRounds? fuel m = none) : m.RunsOut := by
  induction fuel generalizing m with
  | zero => cases h
  | succ fuel ih =>
      by_cases hleaves : m.leaves = []
      · simp [inlineRounds?, hleaves] at h
      · cases hround : m.inlineRound? with
        | none =>
            obtain ⟨f, hf, hroom⟩ := inlineRound?_eq_none_iff.1 hround
            exact .now hleaves hf hroom
        | some r =>
            rw [inlineRounds?_succ hleaves hround] at h
            split at h
            case isTrue => cases h
            case isFalse hn => exact .later hleaves hround hn (ih (Option.map_eq_none_iff.1 h))

/-- With a round more than there are calls, the rounds break off if the numbers run out. -/
theorem RunsOut.inlineRounds? (h : m.RunsOut) {fuel : Nat} (hfuel : m.staticCalls < fuel) :
    Module.inlineRounds? fuel m = none := by
  induction h generalizing fuel with
  | @now m f hleaves hf hroom =>
      obtain ⟨fuel, rfl⟩ := Nat.exists_eq_succ_of_ne_zero (Nat.ne_zero_of_lt hfuel)
      have hround := inlineRound?_eq_none_iff.2 ⟨f, hf, hroom⟩
      simp [Module.inlineRounds?, hleaves, hround]
  | @later m m' n hleaves hround hn _ ih =>
      obtain ⟨fuel, rfl⟩ := Nat.exists_eq_succ_of_ne_zero (Nat.ne_zero_of_lt hfuel)
      have hcalls := staticCalls_inlineRound? hround
      rw [inlineRounds?_succ hleaves hround, if_neg hn, ih (by omega)]
      rfl

/-- Inlining has no result exactly if the numbers run out. -/
theorem inline?_eq_none_iff : m.inline? = none ↔ m.RunsOut :=
  ⟨runsOut_of_inlineRounds?, fun h => h.inlineRounds? (Nat.lt_succ_self _)⟩

/-- Where the last number is taken there is no room, also for a function that calls nothing. -/
example : inline?
    { name := "m"
      functions :=
        [ ⟨"one", [], .int, [⟨"entry", [.const 0 (.int 1)], .ret 0⟩]⟩,
          ⟨"last", [], .int, [⟨"entry", [.const 4294967295 (.int 2)], .ret 4294967295⟩]⟩ ]
      layouts := [] } = none := by decide

/-- If the numbers do not run out, inlining gives a module. -/
theorem exists_inline? (h : ¬ m.RunsOut) : ∃ m' n, m.inline? = some (m', n) := by
  rw [← inline?_eq_none_iff] at h
  obtain ⟨r, hr⟩ := Option.ne_none_iff_exists'.1 h
  exact ⟨r.1, r.2, hr⟩

end Module

end ProtoScript.Ir
