import ProtoScript.Ir.Validate
import ProtoScript.Proofs.Lookup
import ProtoScript.Proofs.Machine.Follows
import ProtoScript.Proofs.Machine.Heap
import ProtoScript.Proofs.Optimize.Replay

set_option autoImplicit false

/-!
# Inlining keeps the meaning of modules

Every function of a module that ends in an outcome ends in the same one after inlining, with the same
world, on every platform. A run that is stuck or cut off says nothing about the other.

A caller is compared with itself after inlining: the states agree on the temporaries it had before,
and the new ones are all above them (`Agree`). A leaf is compared with its replay in the caller: what
a temporary of the leaf holds, its new name holds (`Mirrors`). The leaf never changes its frame, so
nothing else of it is left when it returns.
-/

namespace ProtoScript.Ir

variable {R S W : Type}

/-! ## The replay of a leaf -/

theorem Renaming.apply_cons (names : Renaming) (d t s : Temp) :
    Renaming.apply ((d, s) :: names) t = if t = d then s else names.apply t := by
  by_cases h : t = d
  · simp [Renaming.apply, h]
  · simp [Renaming.apply, List.lookup_cons, h, beq_eq_false_iff_ne.2 h]

theorem Instr.cases_of_isLeafInstr {params : List String} {i : Instr} (h : i.isLeafInstr params) :
    (∃ d name, i = .loadVar d name ∧ name ∈ params) ∨ i.isBasic := by
  cases i with
  | loadVar d name => exact .inl ⟨d, name, rfl, by simpa [isLeafInstr] using h⟩
  | _ => first | exact .inr rfl | cases h

theorem Instr.isBasic_mapDest_mapOperands {i : Instr} (h : i.isBasic) (r g : Temp → Temp) :
    ((i.mapOperands r).mapDest g).isBasic := by
  cases i with
  | _ => first | rfl | cases h

theorem Instr.mapDest_mapOperands_of_dest?_none {i : Instr} (h : i.isBasic) (hd : i.dest? = none)
    (r g : Temp → Temp) : (i.mapOperands r).mapDest g = i.mapOperands r := by
  cases i with
  | _ => first | rfl | (cases h; done) | cases hd

/-- What is not replayed is the load of a parameter. -/
theorem Instr.eq_of_loadedParam? {bound : List (String × Temp)} {i : Instr} {d arg : Temp}
    (h : i.loadedParam? bound = some (d, arg)) :
    ∃ name, i = .loadVar d name ∧ bound.lookup name = some arg := by
  cases i with
  | loadVar d' name =>
      obtain ⟨arg', hlookup, heq⟩ := Option.map_eq_some_iff.1 h
      cases heq
      exact ⟨name, rfl, hlookup⟩
  | _ => cases h

/-- What the temporaries of a leaf hold, their new names hold in the caller. They are below `next`. -/
structure Mirrors (names : Renaming) (next : Temp) (σ τ : State R (Frame R W)) : Prop where
  world : τ.rest.world = σ.rest.world
  temps : ∀ t v, σ.temps t = some v → τ.temps (names.apply t) = some v ∧ names.apply t < next

/-- The parameters of a leaf have the values of the temporaries they are bound to. -/
def BoundTo (params : List String) (bound : List (String × Temp)) (next : Temp)
    (σ τ : State R (Frame R W)) : Prop :=
  ∀ name ∈ params, ∃ arg v,
    bound.lookup name = some arg ∧ arg < next ∧ τ.temps arg = some v ∧ σ.rest.vars name = some v

namespace Mirrors

variable {names : Renaming} {next : Temp} {σ τ : State R (Frame R W)}

/-- A parameter is loaded in the leaf; in the caller nothing happens. -/
theorem load (h : Mirrors names next σ τ) (d : Temp) {arg : Temp} {v : Value R}
    (harg : τ.temps arg = some v) (hlt : arg < next) :
    Mirrors ((d, arg) :: names) next (σ.write d v) τ := by
  refine ⟨h.world, fun t w ht => ?_⟩
  rw [Renaming.apply_cons]
  by_cases htd : t = d
  · rw [htd, State.write_temps_self] at ht
    rw [if_pos htd, harg, ht]
    exact ⟨rfl, hlt⟩
  · rw [State.write_temps_of_ne v htd] at ht
    rw [if_neg htd]
    exact h.temps t w ht

/-- A temporary of the leaf and the next one of the caller are defined by the same value. -/
theorem write (h : Mirrors names next σ τ) (d : Temp) (v : Value R) :
    Mirrors ((d, next) :: names) (next + 1) (σ.write d v) (τ.write next v) := by
  refine ⟨h.world, fun t w ht => ?_⟩
  rw [Renaming.apply_cons]
  by_cases htd : t = d
  · rw [htd, State.write_temps_self] at ht
    rw [if_pos htd, State.write_temps_self, ht]
    exact ⟨rfl, Nat.lt_succ_self next⟩
  · rw [State.write_temps_of_ne v htd] at ht
    rw [if_neg htd]
    obtain ⟨hw, hlt⟩ := h.temps t w ht
    rw [State.write_temps_of_ne v (Nat.ne_of_lt hlt), hw]
    exact ⟨rfl, Nat.lt_succ_of_lt hlt⟩

end Mirrors

/-- What a replay leaves: the frames are as they were, the new names hold what the temporaries of the
leaf do, and the temporaries that the caller had are untouched. -/
structure Replayed (names : Renaming) (last next : Temp) (σ τ σ' τ' : State R (Frame R W)) :
    Prop where
  rest : σ'.rest = σ.rest
  rest' : τ'.rest = τ.rest
  mirrors : Mirrors names last σ' τ'
  temps : ∀ t < next, τ'.temps t = τ.temps t

namespace Platform

variable {P : Platform R W} {call call' : String → List (Value R) → W → Ending R W}

/-- What is replayed only computes. -/
theorem isBasic_of_loadedParam? {params : List String} {bound : List (String × Temp)} {next : Temp}
    {σ τ : State R (Frame R W)} (hbound : BoundTo params bound next σ τ) {i : Instr}
    (hleaf : i.isLeafInstr params) (h : i.loadedParam? bound = none) : i.isBasic := by
  rcases Instr.cases_of_isLeafInstr hleaf with ⟨d, name, rfl, hname⟩ | hbasic
  · obtain ⟨arg, _, hlookup, _⟩ := hbound name hname
    rw [Instr.loadedParam?, hlookup] at h
    cases h
  · exact hbasic

/-- An instruction that only computes does under other names what it does in the leaf. -/
theorem follows_renamed {i : Instr} (hbasic : i.isBasic) {names : Renaming} {next : Temp}
    {σ τ : State R (Frame R W)} (h : Mirrors names next σ τ) (g : Temp → Temp) :
    Follows (SameWrite i.dest? g σ τ) (fun _ _ => False) (fun s s' => s = σ.rest ∧ s' = τ.rest)
      ((P.machine call).exec i σ) ((P.machine call').exec ((i.mapOperands names.apply).mapDest g) τ) := by
  have htemps : ∀ t ∈ i.operands, ∀ v, σ.temps t = some v → τ.temps (names.apply t) = some v :=
    fun t _ v hv => (h.temps t v hv).1
  rw [exec_of_isBasic (Instr.isBasic_mapDest_mapOperands hbasic names.apply g) τ]
  refine follows_exec_of_isBasic hbasic htemps ?_ ⟨rfl, rfl⟩
  intro c values
  unfold Machine.holds?
  simp only [machine, h.world]

/-- The replay of a leaf in the caller follows the leaf. The induction is on the replay; a load extends the
renaming by an argument, a definition by a fresh temporary. -/
theorem follows_replay {params : List String} {bound : List (String × Temp)} {instrs out : List Instr}
    {names names' : Renaming} {next last : Nat} (hreplay : Replays bound instrs names next out names' last)
    (hleaf : ∀ i ∈ instrs, i.isLeafInstr params) {σ τ : State R (Frame R W)}
    (hbound : BoundTo params bound next σ τ) (h : Mirrors names next σ τ) :
    Follows (Replayed names' last next σ τ) (fun _ _ => False) (fun s s' => s = σ.rest ∧ s' = τ.rest)
      ((P.machine call).execAll instrs σ) ((P.machine call').execAll out τ) := by
  induction hreplay generalizing σ τ with
  | nil => exact follows_ok ⟨rfl, rfl, h, fun _ _ => rfl⟩
  | @param i rest out names names' d arg next last hparam _ ih =>
      obtain ⟨name, rfl, hlookup⟩ := Instr.eq_of_loadedParam? hparam
      have hname : name ∈ params := by simpa [Instr.isLeafInstr] using hleaf _ List.mem_cons_self
      obtain ⟨arg', v, hlookup', hlt, harg, hvar⟩ := hbound name hname
      obtain rfl : arg = arg' := Option.some.inj (hlookup.symm.trans hlookup')
      rw [Machine.execAll_cons, exec_loadVar hvar, ok_bind]
      refine (ih (σ := σ.write d v) (fun j hj => hleaf j (List.mem_cons_of_mem _ hj)) hbound
        (h.load d harg hlt)).mono ?_
      intro σ' τ' hr
      exact ⟨hr.rest, hr.rest', hr.mirrors, hr.temps⟩
  | @plain i rest out names names' next last hparam hd _ ih =>
      have hbasic := isBasic_of_loadedParam? hbound (hleaf i List.mem_cons_self) hparam
      rw [Machine.execAll_cons, Machine.execAll_cons,
        ← Instr.mapDest_mapOperands_of_dest?_none hbasic hd names.apply id]
      refine (follows_renamed hbasic h id).bind ?_
      rintro σ' τ' (⟨_, rfl, rfl⟩ | ⟨t, v, ht, _⟩)
      · exact ih (fun j hj => hleaf j (List.mem_cons_of_mem _ hj)) hbound h
      · rw [hd] at ht
        cases ht
  | @define i rest out names names' d next last hparam hd _ ih =>
      have hbasic := isBasic_of_loadedParam? hbound (hleaf i List.mem_cons_self) hparam
      rw [Machine.execAll_cons, Machine.execAll_cons]
      refine (follows_renamed hbasic h fun _ => next).bind ?_
      rintro σ' τ' (⟨ht, _⟩ | ⟨t, v, ht, rfl, rfl⟩)
      · rw [hd] at ht
        cases ht
      · obtain rfl : d = t := Option.some.inj (hd.symm.trans ht)
        have hbound' : BoundTo params bound (next + 1) (σ.write d v) (τ.write next v) := by
          intro name hname
          obtain ⟨arg, w, hlookup, hlt, harg, hvar⟩ := hbound name hname
          refine ⟨arg, w, hlookup, Nat.lt_succ_of_lt hlt, ?_, hvar⟩
          rw [State.write_temps_of_ne v (Nat.ne_of_lt hlt), harg]
        refine (ih (fun j hj => hleaf j (List.mem_cons_of_mem _ hj)) hbound' (h.write d v)).mono ?_
        intro σ'' τ'' hr
        refine ⟨hr.rest, hr.rest', hr.mirrors, fun t ht => ?_⟩
        rw [hr.temps t (Nat.lt_succ_of_lt ht), State.write_temps_of_ne v (Nat.ne_of_lt ht)]

end Platform

/-! ## Calls of leaves -/

/-- Binding parameters to temporaries and to what these hold comes to the same. -/
theorem lookup_zip_of_readAll {σ : State R S} {params : List String} {args : List Temp}
    {values : List (Value R)} (hlen : params.length = args.length)
    (hread : σ.readAll args = .ok values) {name : String} (hname : name ∈ params) :
    ∃ arg v, (params.zip args).lookup name = some arg ∧ arg ∈ args ∧ σ.temps arg = some v ∧
      (params.zip values).lookup name = some v := by
  induction params generalizing args values with
  | nil => cases hname
  | cons p params ih =>
      cases args with
      | nil => cases hlen
      | cons arg args =>
          obtain ⟨v, hv, hread⟩ := bind_eq_ok.1 hread
          obtain ⟨vs, hvs, hread⟩ := bind_eq_ok.1 hread
          cases hread
          by_cases hp : name = p
          · refine ⟨arg, v, ?_, by simp, State.read_eq_ok.1 hv, ?_⟩
            · rw [List.zip_cons_cons, hp, List.lookup_cons_self]
            · rw [List.zip_cons_cons, hp, List.lookup_cons_self]
          · have hmem : name ∈ params := (List.mem_cons.1 hname).resolve_left hp
            obtain ⟨arg', v', hl, harg, hv', hl'⟩ := ih (Nat.succ.inj hlen) hvs hmem
            refine ⟨arg', v', ?_, by simp [harg], hv', ?_⟩
            · rw [List.zip_cons_cons, List.lookup_cons, beq_eq_false_iff_ne.2 hp]
              exact hl
            · rw [List.zip_cons_cons, List.lookup_cons, beq_eq_false_iff_ne.2 hp]
              exact hl'

/-- A call of a leaf: it is cut off, or it runs the instructions of the leaf and returns. -/
theorem Module.run_of_leaf? {P : Platform R W} {m : Module} {name : String} {f : Function}
    {leaf : Leaf} {values : List (Value R)} {w : W} (hf : m.function? name = some f)
    (hleaf : f.leaf? = some leaf) (hlen : values.length = leaf.params.length) (n : Nat) :
    (m.run P n name values w).outcome = .failed .exhausted ∨
      ∃ call go, m.run P n name values w = P.resume call go leaf.instrs
        (leaf.result.elim .retVoid .ret) (Platform.start f values w) := by
  obtain ⟨block, hblocks, hparams, hinstrs, _, hterm⟩ := Function.eq_of_leaf? hleaf
  have hlen' : values.length = f.params.length := by rw [hlen, hparams, List.length_map]
  have hentry : f.entry? = some block := by simp [Function.entry?, hblocks]
  have hblock : f.block? block.label = some block := by simp [Function.block?, hblocks]
  cases n with
  | zero => exact .inl rfl
  | succ n =>
      simp only [Module.run, hf, Platform.runFunction, hentry, hlen', if_true]
      cases n with
      | zero => exact .inl rfl
      | succ n =>
          refine .inr ⟨m.run P (n + 1), P.enter (m.run P (n + 1)) f n, ?_⟩
          simp only [Platform.enter, hblock, hinstrs, hterm]

namespace Platform

variable {P : Platform R W} {call' : String → List (Value R) → W → Ending R W}

/-- The replay of a leaf starts with the parameters bound and nothing renamed. -/
theorem follows_replay_start (call call' : String → List (Value R) → W → Ending R W) {f : Function}
    {c : LeafCall} {body : List Instr} {names : Renaming} {k next last : Nat}
    (hreplay : Replays c.bound c.leaf.instrs [] next body names last) {values : List (Value R)}
    {σ τ : State R (Frame R W)} (hleaf : f.leaf? = some c.leaf)
    (hlen : c.leaf.params.length = c.args.length) (hargs : ∀ t ∈ c.args, t < k) (hk : k ≤ next)
    (h : Agree k σ τ) (hvalues : σ.readAll c.args = .ok values) :
    Follows (Replayed names last next (start f values σ.rest.world) τ) (fun _ _ => False)
      (fun s s' => s = (start f values σ.rest.world).rest ∧ s' = τ.rest)
      ((P.machine call).execAll c.leaf.instrs (start f values σ.rest.world))
      ((P.machine call').execAll body τ) := by
  obtain ⟨block, _, hparams, _, hinstrs, _⟩ := Function.eq_of_leaf? hleaf
  refine follows_replay hreplay hinstrs ?_ ⟨by rw [h.rest]; rfl, fun t v ht => by cases ht⟩
  intro name hname
  obtain ⟨arg, v, hbound, harg, hv, hparam⟩ := lookup_zip_of_readAll hlen hvalues hname
  refine ⟨arg, v, hbound, Nat.lt_of_lt_of_le (hargs arg harg) hk, ?_, ?_⟩
  · rw [h.temps arg (hargs arg harg), hv]
  · rw [hparams] at hparam
    exact hparam

/-- The instructions that take the place of a call of a leaf do what the call does. -/
theorem follows_expand {m : Module} {n : Nat} {name : String} {f : Function} {c : LeafCall}
    {body : List Instr} {names : Renaming} {k next last : Nat}
    (hreplay : Replays c.bound c.leaf.instrs [] next body names last) {σ τ : State R (Frame R W)}
    (hf : m.function? name = some f) (hleaf : f.leaf? = some c.leaf)
    (hlen : c.leaf.params.length = c.args.length) (hargs : ∀ t ∈ c.args, t < k) (hk : k ≤ next)
    (h : Agree k σ τ) :
    Follows (Agree k) (Agree k) Eq
      ((P.machine (m.run P n)).exec (.callStatic c.dest name c.args) σ)
      ((P.machine call').execAll (body ++ c.returned names) τ) := by
  cases hvalues : σ.readAll c.args with
  | error e =>
      obtain ⟨t, rfl⟩ := State.readAll_eq_error hvalues
      have hexec : (P.machine (m.run P n)).exec (.callStatic c.dest name c.args) σ =
          .error (.undefined t) := by
        change (σ.readAll c.args >>= _) = _
        rw [hvalues, error_bind]
      rw [hexec]
      exact trivial
  | ok values =>
      rw [exec_callStatic hvalues, Machine.execAll_append]
      have hlen' : values.length = c.leaf.params.length := by
        rw [State.length_of_readAll hvalues, hlen]
      rcases Module.run_of_leaf? (P := P) hf hleaf hlen' n with hrun | ⟨call, go, hrun⟩
      · obtain ⟨f, φ, hreturn, rfl | rfl⟩ := Frame.returning_of_not_isFinal (φ := σ.rest)
          (e := m.run P n name values σ.rest.world) (by rw [hrun]; rfl)
        · rw [hreturn]
          exact trivial
        · rw [hreturn]
          exact trivial
      · have hreplayed := follows_replay_start (P := P) call call' hreplay hleaf hlen hargs hk h hvalues
        rw [hrun]
        unfold resume
        cases hx : (P.machine call).execAll c.leaf.instrs (start f values σ.rest.world) with
        | error halt =>
            rw [hx] at hreplayed
            cases halt with
            | undefined t => exact trivial
            | mistyped c => exact trivial
            | thrown x σ' =>
                obtain ⟨_, _, hfalse⟩ := hreplayed
                cases hfalse
            | failed failure φ =>
                cases failure with
                | stuck => exact trivial
                | exhausted => exact trivial
                | stopped fault =>
                    obtain ⟨_, hout, rfl, rfl⟩ := hreplayed
                    rw [hout]
                    exact ⟨τ.rest, rfl, h.rest.symm⟩
        | ok σ' =>
            rw [hx] at hreplayed
            obtain ⟨τ', hout, hr⟩ := hreplayed
            have hagree : Agree k σ τ' := by
              refine ⟨hr.rest'.trans h.rest, fun t ht => ?_⟩
              rw [hr.temps t (Nat.lt_of_lt_of_le ht hk), h.temps t ht]
            have hworld : { σ.rest with world := σ'.rest.world } = σ.rest := by
              rw [hr.rest]
              rfl
            have hreturn : ∀ v, σ.rest.returning ⟨.returned v, σ'.rest.world⟩ = .done v σ.rest := by
              intro v
              simp only [Frame.returning, hworld]
            rw [hout, ok_bind]
            cases hresult : c.leaf.result with
            | none =>
                simp only [Option.elim, leave, hreturn, LeafCall.returned, hresult]
                refine ⟨τ', rfl, ?_⟩
                rw [State.write?_none]
                exact hagree
            | some t =>
                simp only [Option.elim, leave]
                cases ht : σ'.temps t with
                | none => exact trivial
                | some v =>
                    simp only [hreturn]
                    have hv := (hr.mirrors.temps t v ht).1
                    cases hdest : c.dest with
                    | none =>
                        simp only [LeafCall.returned, hresult, hdest]
                        exact ⟨τ', rfl, hagree⟩
                    | some d =>
                        simp only [LeafCall.returned, hresult, hdest]
                        refine ⟨τ'.write d v, ?_, hagree.write d v⟩
                        rw [Machine.execAll_singleton]
                        simp [Machine.exec, State.read_of_some hv]

end Platform

/-! ## Blocks -/

/-- The leaves are those of the functions of the module. -/
def LeavesOf (m : Module) (leaves : List (String × Leaf)) : Prop :=
  ∀ name leaf, leaves.lookup name = some leaf →
    ∃ f, m.function? name = some f ∧ f.leaf? = some leaf

namespace Platform

variable {P : Platform R W} {call call' : String → List (Value R) → W → Ending R W}

/-- The instructions of a block do the same after inlining. The induction is on what inlining does to them. -/
theorem follows_inlined {m : Module} {n : Nat} {leaves : List (String × Leaf)}
    (hleaves : LeavesOf m leaves) (hcall : CallRefines (m.run P n) call') {instrs out : List Instr}
    {k next last count : Nat} (hinlined : Inlined leaves instrs next out last count)
    (hreads : ∀ i ∈ instrs, i.ReadsBelow k) (hk : k ≤ next) {σ τ : State R (Frame R W)} (h : Agree k σ τ) :
    Follows (Agree k) (Agree k) Eq ((P.machine (m.run P n)).execAll instrs σ)
      ((P.machine call').execAll out τ) := by
  induction hinlined generalizing σ τ with
  | nil => exact follows_ok h
  | @call i c rest body out names next mid last count hc hreplay _ ih =>
      obtain ⟨name, rfl, hleaf, hlen⟩ := Instr.eq_of_leafCall? hc
      obtain ⟨f, hf, hfleaf⟩ := hleaves name c.leaf hleaf
      have hargs : ∀ t ∈ c.args, t < k := hreads (.callStatic c.dest name c.args) List.mem_cons_self
      rw [Machine.execAll_cons, Machine.execAll_append]
      refine (follows_expand hreplay hf hfleaf hlen hargs hk h).bind ?_
      intro σ' τ' h'
      exact ih (fun j hj => hreads j (List.mem_cons_of_mem _ hj)) (Nat.le_trans hk hreplay.le) h'
  | @keep i rest out next last count _ _ ih =>
      rw [Machine.execAll_cons, Machine.execAll_cons]
      refine (follows_exec hcall (hreads i List.mem_cons_self) h).bind ?_
      intro σ' τ' h'
      exact ih (fun j hj => hreads j (List.mem_cons_of_mem _ hj)) hk h'

end Platform

/-! ## Functions -/

/-- Inlining keeps the labels: a block has become what inlining makes of it. -/
theorem InlinedBlocks.find? {leaves : List (String × Leaf)} {blocks blocks' : List Block} {next n : Nat}
    (h : InlinedBlocks leaves blocks next blocks' n) (label : String) :
    (blocks.find? (fun b => b.label == label) = none ∧ blocks'.find? (fun b => b.label == label) = none) ∨
      ∃ b instrs mid last k, next ≤ mid ∧ Inlined leaves b.instrs mid instrs last k ∧
        blocks.find? (fun b => b.label == label) = some b ∧
        blocks'.find? (fun b => b.label == label) = some { b with instrs } := by
  induction h with
  | nil => exact .inl ⟨rfl, rfl⟩
  | @cons b rest rest' instrs next mid n k hinstrs _ ih =>
      simp only [List.find?_cons]
      cases b.label == label with
      | true => exact .inr ⟨b, instrs, next, mid, n, Nat.le_refl next, hinstrs, rfl, rfl⟩
      | false =>
          rcases ih with hnone | ⟨b', instrs', mid', last, j, hle, hinlined, hfind⟩
          · exact .inl hnone
          · exact .inr ⟨b', instrs', mid', last, j, Nat.le_trans hinstrs.le hle, hinlined, hfind⟩

theorem InlinedBlocks.head? {leaves : List (String × Leaf)} {blocks blocks' : List Block} {next n : Nat}
    (h : InlinedBlocks leaves blocks next blocks' n) {b : Block} (hb : blocks.head? = some b) :
    ∃ b', blocks'.head? = some b' ∧ b'.label = b.label := by
  cases h with
  | nil => cases hb
  | cons =>
      cases hb
      exact ⟨_, rfl, rfl⟩

theorem Function.readsBelow_nextTemp? {f : Function} {next : Temp} (h : f.nextTemp? = some next) {b : Block}
    (hb : b ∈ f.blocks) : ∀ i ∈ b.instrs, i.ReadsBelow next := by
  intro i hi t ht
  refine f.lt_of_nextTemp? h hb (List.mem_append_left _ (List.mem_flatMap.2 ⟨i, hi, ?_⟩))
  exact List.mem_append_right _ ht

namespace Platform

variable {P : Platform R W} {call' : String → List (Value R) → W → Ending R W}

/-- Every block of a function ends in the same way after inlining. The induction is on the number of
blocks entered. -/
theorem enter_inlined {m : Module} {c : Nat} {leaves : List (String × Leaf)}
    (hleaves : LeavesOf m leaves) (hcall : CallRefines (m.run P c) call') {f : Function} {next count : Nat}
    {blocks : List Block} (hnext : f.nextTemp? = some next)
    (hblocks : InlinedBlocks leaves f.blocks next blocks count) (n : Nat)
    {label : String} {σ τ : State R (Frame R W)} (h : Agree next σ τ)
    (hfinal : (P.enter (m.run P c) f n label σ).outcome.isFinal) :
    P.enter call' { f with blocks } n label τ = P.enter (m.run P c) f n label σ := by
  induction n generalizing label σ τ with
  | zero => cases hfinal
  | succ n ih =>
      simp only [enter, Function.block?] at hfinal ⊢
      rcases hblocks.find? label with ⟨hb, _⟩ | ⟨b, instrs, mid, last, k, hle, hinlined, hb, hb'⟩
      · rw [hb] at hfinal
        cases hfinal
      · rw [hb] at hfinal
        rw [hb, hb']
        have hmem : b ∈ f.blocks := List.mem_of_find?_eq_some hb
        refine resume_follows ih ?_ ?_ hfinal
        · intro t ht
          exact f.lt_of_nextTemp? hnext hmem (List.mem_append_right _ ht)
        · exact follows_inlined hleaves hcall hinlined (f.readsBelow_nextTemp? hnext hmem) hle h

theorem runFunction_inlineCalls {m : Module} {c : Nat} {leaves : List (String × Leaf)}
    (hleaves : LeavesOf m leaves) (hcall : CallRefines (m.run P c) call') {f g : Function} {count : Nat}
    (hinline : f.inlineCalls? leaves = some (g, count)) (n : Nat) {args : List (Value R)} {w : W}
    (hfinal : (P.runFunction (m.run P c) n f args w).outcome.isFinal) :
    P.runFunction call' n g args w = P.runFunction (m.run P c) n f args w := by
  obtain ⟨next, blocks, hnext, hblocks, rfl⟩ := Function.eq_of_inlineCalls? hinline
  unfold runFunction at hfinal ⊢
  cases hentry : f.entry? with
  | none =>
      rw [hentry] at hfinal
      cases hfinal
  | some b =>
      rw [hentry] at hfinal
      obtain ⟨b', hb', hlabel⟩ := hblocks.head? hentry
      have hentry' : Function.entry? { f with blocks } = some b' := hb'
      rw [hentry']
      simp only at hfinal ⊢
      split at hfinal
      case isFalse => cases hfinal
      case isTrue hlen =>
        have hlen' : args.length = (Function.params { f with blocks }).length := hlen
        rw [if_pos hlen', if_pos hlen, hlabel]
        exact enter_inlined hleaves hcall hnext hblocks n (Agree.refl _ _) hfinal

end Platform

/-! ## Modules -/

/-- In a module whose functions have distinct names, a function is found by its name. -/
theorem Module.function?_of_mem {m : Module} (hnames : (m.functions.map Function.name).Nodup)
    {f : Function} (hf : f ∈ m.functions) : m.function? f.name = some f := by
  unfold Module.function?
  generalize m.functions = functions at hnames hf
  induction functions with
  | nil => cases hf
  | cons g rest ih =>
      rw [List.map_cons, List.nodup_cons] at hnames
      rcases List.mem_cons.1 hf with rfl | hf
      · simp
      · have hne : g.name ≠ f.name := by
          intro hg
          exact hnames.1 (hg ▸ List.mem_map_of_mem hf)
        rw [List.find?_cons_of_neg (by simpa using hne)]
        exact ih hnames.2 hf

/-- The leaves that inlining collects are those of the functions of the module. -/
theorem Module.leavesOf_leaves {m : Module} (hnames : (m.functions.map Function.name).Nodup) :
    LeavesOf m m.leaves := by
  intro name leaf h
  have hmem : (name, leaf) ∈ m.leaves := mem_of_lookup h
  rw [Module.leaves, List.mem_reverse] at hmem
  obtain ⟨f, hf, hleaf⟩ := List.mem_filterMap.1 hmem
  obtain ⟨leaf', hleaf', heq⟩ := Option.map_eq_some_iff.1 hleaf
  obtain ⟨rfl, rfl⟩ := Prod.mk.inj heq
  exact ⟨f, Module.function?_of_mem hnames hf, hleaf'⟩

/-- A function keeps its name when its calls are inlined. -/
theorem Function.name_of_inlineCalls? {leaves : List (String × Leaf)} {f g : Function} {n : Nat}
    (h : f.inlineCalls? leaves = some (g, n)) : g.name = f.name := by
  obtain ⟨_, _, _, _, rfl⟩ := Function.eq_of_inlineCalls? h
  rfl

/-- Where a function was found before a round, there is the one that inlining has made of it. -/
theorem Module.function?_inlineRound? {m m' : Module} {n : Nat} (h : m.inlineRound? = some (m', n))
    {name : String} {f : Function} (hf : m.function? name = some f) :
    ∃ g k, m'.function? name = some g ∧ f.inlineCalls? m.leaves = some (g, k) := by
  obtain ⟨results, hresults, rfl, -⟩ := Module.eq_of_inlineRound? h
  clear h
  simp only [Module.function?] at hf ⊢
  generalize m.functions = functions at hresults hf
  induction hresults with
  | nil => cases hf
  | @cons f' r fs rs hfirst _ ih =>
      simp only [List.map_cons, List.find?_cons, Function.name_of_inlineCalls? hfirst] at hf ⊢
      cases hfound : f'.name == name with
      | true =>
          rw [hfound] at hf
          cases hf
          exact ⟨r.1, r.2, rfl, hfirst⟩
      | false =>
          rw [hfound] at hf
          exact ih hf

theorem Module.names_inlineRound? {m m' : Module} {n : Nat} (h : m.inlineRound? = some (m', n)) :
    m'.functions.map Function.name = m.functions.map Function.name := by
  obtain ⟨results, hresults, rfl, -⟩ := Module.eq_of_inlineRound? h
  clear h
  simp only
  generalize m.functions = functions at hresults
  induction hresults with
  | nil => rfl
  | cons hfirst _ ih => rw [List.map_cons, List.map_cons, List.map_cons, ih, Function.name_of_inlineCalls? hfirst]

/-- One round of inlining. The induction is on the number of nested calls. -/
theorem Module.run_inlineRound? (P : Platform R W) {m m' : Module} {k : Nat}
    (h : m.inlineRound? = some (m', k)) (hnames : (m.functions.map Function.name).Nodup) (n : Nat) :
    CallRefines (m.run P n) (m'.run P n) := by
  induction n with
  | zero =>
      intro name args w hfinal
      cases hfinal
  | succ n ih =>
      intro name args w hfinal
      simp only [Module.run] at hfinal ⊢
      cases hf : m.function? name with
      | none =>
          rw [hf] at hfinal
          cases hfinal
      | some f =>
          rw [hf] at hfinal
          obtain ⟨g, _, hg, hinline⟩ := Module.function?_inlineRound? h hf
          rw [hg]
          exact Platform.runFunction_inlineCalls (Module.leavesOf_leaves hnames) ih hinline n hfinal

theorem CallRefines.trans {a b c : String → List (Value R) → W → Ending R W}
    (hab : CallRefines a b) (hbc : CallRefines b c) : CallRefines a c := by
  intro name args w hfinal
  have heq := hab name args w hfinal
  rw [hbc name args w (by rw [heq]; exact hfinal), heq]

/-- No two functions of a well-formed module have the same name. -/
theorem nodup_names_of_functionDefects {functions : List Function} {i : Nat}
    {earlier : List String} (h : functionDefects i earlier functions = []) :
    (functions.map Function.name).Nodup ∧ ∀ f ∈ functions, f.name ∉ earlier := by
  induction functions generalizing i earlier with
  | nil => simp
  | cons f rest ih =>
      simp only [functionDefects, List.append_eq_nil_iff] at h
      obtain ⟨⟨_, htwice⟩, hrest⟩ := h
      obtain ⟨hnodup, hfresh⟩ := ih hrest
      have hf : f.name ∉ earlier := by
        intro hmem
        simp [hmem] at htwice
      refine ⟨?_, ?_⟩
      · rw [List.map_cons, List.nodup_cons]
        refine ⟨?_, hnodup⟩
        intro hmem
        obtain ⟨g, hg, hname⟩ := List.mem_map.1 hmem
        exact hfresh g hg (by simp [hname])
      · intro g hg
        rcases List.mem_cons.1 hg with rfl | hg
        · exact hf
        · intro hmem
          exact hfresh g hg (by simp [hmem])

/-- Inlining keeps the meaning of every well-formed module, on every platform. If the numbers of temporaries do not
run out it gives a module, and a run of a function that ends in an outcome has the same outcome there and leaves the
same world. -/
theorem Module.run_inline (P : Platform R W) {m : Module} (hvalid : m.isValid) (hroom : ¬ m.RunsOut) :
    ∃ m' count, m.inline? = some (m', count) ∧
      ∀ n name args w, (m.run P n name args w).outcome.isFinal →
        m'.run P n name args w = m.run P n name args w := by
  have hdefects : functionDefects 0 [] m.functions = [] := by
    simpa [Module.isValid, Module.defects] using hvalid
  have hnames := (nodup_names_of_functionDefects hdefects).1
  obtain ⟨m', count, hinline⟩ := Module.exists_inline? hroom
  refine ⟨m', count, hinline, fun n => ?_⟩
  -- The rounds go from one module to the next; each refines the one in front of it, so all refine the first.
  have hkeeps := (Module.inlines_iff.2 hinline).keeps
    (p := fun m' => (m'.functions.map Function.name).Nodup ∧ CallRefines (m.run P n) (m'.run P n))
    (fun hround ⟨hnodup, hrefines⟩ => ⟨by rw [Module.names_inlineRound? hround]; exact hnodup,
      hrefines.trans (Module.run_inlineRound? P hround hnodup n)⟩)
    ⟨hnames, fun _ _ _ _ => rfl⟩
  exact hkeeps.2

/-- `add` is a leaf, `twice` becomes one, and `main` prints what `twice` returns. -/
def twiceModule : Module where
  name := "m"
  functions :=
    [ { name := "add", params := [⟨"a", .int⟩, ⟨"b", .int⟩], ret := .int
        blocks := [⟨"entry", [.loadVar 0 "a", .loadVar 1 "b", .check (.overflow .add 0 1 .int),
          .binary 2 .add 0 1], .ret 2⟩] },
      { name := "twice", params := [⟨"a", .int⟩], ret := .int
        blocks := [⟨"entry", [.loadVar 0 "a", .callStatic (some 1) "add" [0, 0]], .ret 1⟩] },
      { name := "main", params := [⟨"x", .int⟩], ret := .void
        blocks := [⟨"entry", [.loadVar 0 "x", .callStatic (some 1) "twice" [0], .print 1],
          .retVoid⟩] } ]
  layouts := []

/-- Two rounds replace both calls, and the same number is printed. -/
theorem run_inline_twiceModule :
    twiceModule.isValid ∧ ¬ twiceModule.RunsOut ∧
      ∃ m', twiceModule.inline? = some (m', 2) ∧
        m'.run Heap.platform 7 "main" [.scalar (.int 21)] .empty =
          ⟨.returned none, ⟨[], [.scalar (.int 42)]⟩⟩ := by
  have hvalid : twiceModule.isValid := by decide +kernel
  have hcount : twiceModule.inline?.map Prod.snd = some 2 := by decide +kernel
  have hroom : ¬ twiceModule.RunsOut := by
    rw [← Module.inline?_eq_none_iff]
    intro hnone
    rw [hnone] at hcount
    cases hcount
  obtain ⟨m', count, hinline, hrun⟩ := Module.run_inline Heap.platform hvalid hroom
  obtain rfl : count = 2 := by
    rw [hinline] at hcount
    exact Option.some.inj hcount
  have hbefore : twiceModule.run Heap.platform 7 "main" [.scalar (.int 21)] .empty =
      ⟨.returned none, ⟨[], [.scalar (.int 42)]⟩⟩ := rfl
  refine ⟨hvalid, hroom, m', hinline, ?_⟩
  rw [hrun _ _ _ _ (by rw [hbefore]; rfl), hbefore]

end ProtoScript.Ir
