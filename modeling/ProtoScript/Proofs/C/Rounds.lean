import ProtoScript.Proofs.C.Inferred

set_option autoImplicit false

/-!
# The rounds of inference

Rounds over the instructions are repeated until one adds nothing. Each round before the last makes a
temporary known that an instruction defines, so the bound on the number of rounds is never met
(`repeats_inferRounds`), and after the last one nothing is left to be said (`Holds`).

What an instruction says does not change when more becomes known, so every round stays below whatever the
instructions hold under: the types that are found are the least of those. An order of the instructions plays
no part in this, and two orders give the same types, or both give none (`inferFunction_least`).
-/

namespace ProtoScript

namespace Ir

/-- The same block with its instructions in another order. -/
structure Block.Reordered (b c : Block) : Prop where
  label : c.label = b.label
  instrs : b.instrs.Perm c.instrs
  terminator : c.terminator = b.terminator

/-- The same function with its blocks, and the instructions in each of them, in another order. -/
structure Function.Reordered (f g : Function) : Prop where
  name : g.name = f.name
  params : g.params = f.params
  ret : g.ret = f.ret
  blocks : ∃ bs, f.blocks.Perm bs ∧ List.Forall₂ Block.Reordered bs g.blocks

theorem instrs_of_reordered {bs cs : List Block} (h : List.Forall₂ Block.Reordered bs cs) :
    (bs.flatMap Block.instrs).Perm (cs.flatMap Block.instrs) := by
  induction h with
  | nil => exact .nil
  | cons hb _ ih => exact hb.instrs.append ih

theorem Function.Reordered.instrs {f g : Function} (h : f.Reordered g) : f.instrs.Perm g.instrs := by
  obtain ⟨bs, hperm, hblocks⟩ := h.blocks
  have hmoved : f.instrs.Perm (bs.flatMap Block.instrs) := hperm.flatMap_right _
  exact hmoved.trans (instrs_of_reordered hblocks)

end Ir

namespace C

open Ir

namespace FunctionTypes

/-- What is known in the first is known in the second, and the variables have the same types. -/
structure Within (T U : FunctionTypes) : Prop where
  temps : ∀ {t ty}, T.temp? t = some ty → U.temp? t = some ty
  iterators : ∀ {t it}, T.iterator? t = some it → U.iterator? t = some it
  vars : ∀ name, T.var? name = U.var? name

/-- The number of temporaries that are known. -/
def size (T : FunctionTypes) : Nat := T.temps.length + T.iterators.length

variable {T U : FunctionTypes}

theorem Within.knows (h : T.Within U) {t : Temp} (ht : T.knows t) : U.knows t := by
  rw [FunctionTypes.knows, Bool.or_eq_true, Option.isSome_iff_exists, Option.isSome_iff_exists] at ht ⊢
  rcases ht with ⟨ty, hty⟩ | ⟨it, hit⟩
  · exact .inl ⟨ty, h.temps hty⟩
  · exact .inr ⟨it, h.iterators hit⟩

theorem Within.antisymm (h : T.Within U) (h' : U.Within T) :
    T.temp? = U.temp? ∧ T.iterator? = U.iterator? ∧ T.var? = U.var? := by
  refine ⟨funext fun t => ?_, funext fun t => ?_, funext h.vars⟩
  · exact Option.ext fun ty => ⟨h.temps, h'.temps⟩
  · exact Option.ext fun it => ⟨h.iterators, h'.iterators⟩

end FunctionTypes

section

variable {m : Module} {function : String} {T U T' : FunctionTypes} {instrs : List Instr} {i : Instr}
  {t : Temp}

/-! ## What an instruction says -/

/-- What an instruction says of the temporary it defines is what is known of it, and nothing else is. -/
def Yields (m : Module) (function : String) (T : FunctionTypes) (i : Instr) (t : Temp) : Prop :=
  match i with
  | .iterBegin _ iterable kind elem =>
    T.temp? t = none ∧
      ∃ ty, T.temp? iterable = some ty ∧ T.iterator? t = some ⟨iterable, ty, kind, elem⟩
  | i => T.iterator? t = none ∧ ∃ ty, resultType? m function T i = .ok (some ty) ∧ T.temp? t = some ty

/-- Whatever the instruction says under the types is among them. -/
structure Holds (m : Module) (function : String) (U : FunctionTypes) (i : Instr) : Prop where
  temp : ∀ {t ty}, i.dest? = some t → resultType? m function U i = .ok (some ty) → U.temp? t = some ty
  iterator : ∀ {t iterable kind elem ty}, i = .iterBegin t iterable kind elem →
    U.temp? iterable = some ty → U.iterator? t = some ⟨iterable, ty, kind, elem⟩

theorem Yields.holds (h : ∀ t, i.dest? = some t → Yields m function U i t) : Holds m function U i where
  temp {t ty} ht hty := by
    have hyields := h t ht
    unfold Yields at hyields
    split at hyields
    · cases hty
    · obtain ⟨_, ty', hty', htemp⟩ := hyields
      rw [hty] at hty'
      cases hty'
      exact htemp
  iterator {t iterable kind elem ty} hi hty := by
    subst hi
    obtain ⟨_, ty', hty', hit⟩ := h t rfl
    rw [hty] at hty'
    cases hty'
    exact hit

/-- Only the variables decide whether an instruction has a meaning. -/
theorem resultType?_error_congr (hvars : ∀ name, T.var? name = U.var? name) {e : Error}
    (he : resultType? m function T i = .error e) : resultType? m function U i = .error e := by
  cases i with
  | loadVar d name =>
      rw [resultType?, ← hvars name]
      exact he
  | binary d op l r =>
      unfold resultType? at he
      dsimp only at he
      split at he <;> cases he
  | copy | unary | select | indexGet | listPop | iterNext => cases he
  | _ => exact he

theorem resultType?_mono_within (h : T.Within U) {ty : Ty}
    (hty : resultType? m function T i = .ok (some ty)) : resultType? m function U i = .ok (some ty) := by
  -- the variables of `U` may be listed in another order than those of `T`
  have hbelow : T.Below { U with vars := T.vars } := ⟨h.temps, h.iterators, rfl⟩
  have hsame := resultType?_mono hbelow hty
  cases i with
  | loadVar d name =>
      rw [resultType?, ← h.vars name]
      exact hty
  | _ => exact hsame

/-! ## A step -/

/-- An instruction that defines a temporary about which nothing is known has nothing to say only if one of
its operands has no type. -/
theorem knows_of_inferInstr_self (h : inferInstr m function T i = .ok T) (ht : i.dest? = some t)
    (hgiven : (∃ ty, resultType? m function T i = .ok (some ty)) ∨
      ∃ d iterable kind elem ty, i = .iterBegin d iterable kind elem ∧ T.temp? iterable = some ty) :
    T.knows t := by
  by_contra hnot
  unfold inferInstr at h
  rw [ht] at h
  dsimp only at h
  rw [if_neg hnot] at h
  split at h
  · rename_i d iterable kind elem
    rcases hgiven with ⟨ty, hty⟩ | ⟨_, _, _, _, ty, heq, hty⟩
    · cases hty
    · cases heq
      rw [hty] at h
      simpa using congrArg (fun T => T.iterators.length) (Except.ok.inj h)
  · rename_i hloop
    rcases hgiven with ⟨ty, hty⟩ | ⟨d, iterable, kind, elem, _, heq, _⟩
    · rw [hty] at h
      simpa using congrArg (fun T => T.temps.length) (Except.ok.inj h)
    · exact hloop d iterable kind elem heq

theorem size_le_of_inferInstr (h : inferInstr m function T i = .ok T') : T.size ≤ T'.size := by
  rcases inferInstr_cases h with rfl | ⟨t, _, _, ⟨ty, _, rfl⟩ | ⟨_, _, _, _, _, _, rfl⟩⟩
  · exact Nat.le_refl _
  all_goals
    simp only [FunctionTypes.size, List.length_append, List.length_singleton]
    omega

theorem eq_of_inferInstr (h : inferInstr m function T i = .ok T') (hsize : T'.size = T.size) : T' = T := by
  rcases inferInstr_cases h with heq | ⟨t, _, _, ⟨ty, _, rfl⟩ | ⟨_, _, _, _, _, _, rfl⟩⟩
  · exact heq
  all_goals
    simp only [FunctionTypes.size, List.length_append, List.length_singleton] at hsize
    omega

/-- What a step says stays below types under which the instruction holds. -/
theorem within_inferInstr (hT : T.Within U) (hi : Holds m function U i)
    (h : inferInstr m function T i = .ok T') : T'.Within U := by
  rcases inferInstr_cases h with rfl | ⟨t, ht, _, ⟨ty, hty, rfl⟩ | ⟨iterable, kind, elem, ty, heq, hty, rfl⟩⟩
  · exact hT
  · refine ⟨fun hu => ?_, hT.iterators, hT.vars⟩
    rcases lookup_append_singleton hu with hu | ⟨rfl, rfl⟩
    · exact hT.temps hu
    · exact hi.temp ht (resultType?_mono_within hT hty)
  · refine ⟨hT.temps, fun hu => ?_, hT.vars⟩
    rcases lookup_append_singleton hu with hu | ⟨rfl, rfl⟩
    · exact hT.iterators hu
    · exact hi.iterator heq (hT.temps hty)

/-! ## Rounds -/

theorem size_le_of_round (h : instrs.foldlM (inferInstr m function) T = .ok T') : T.size ≤ T'.size :=
  foldlM_keeps (P := fun T₁ => T.size ≤ T₁.size)
    (fun _ _ _ _ hle h₁ => Nat.le_trans hle (size_le_of_inferInstr h₁)) (Nat.le_refl _) h

/-- A round that adds nothing leaves the types as they are at every step. -/
theorem settled_of_round (h : instrs.foldlM (inferInstr m function) T = .ok T')
    (hsize : T'.size = T.size) : T' = T ∧ ∀ i ∈ instrs, inferInstr m function T i = .ok T := by
  induction instrs with
  | nil =>
      cases h
      exact ⟨rfl, nofun⟩
  | cons i rest ih =>
      rw [List.foldlM_cons] at h
      obtain ⟨T₁, hfirst, hrest⟩ := bind_eq_ok.1 h
      have hle : T.size ≤ T₁.size := size_le_of_inferInstr hfirst
      have hle' : T₁.size ≤ T'.size := size_le_of_round hrest
      have hsame : T₁ = T := eq_of_inferInstr hfirst (by omega)
      rw [hsame] at hfirst hrest
      obtain ⟨heq, hall⟩ := ih hrest
      exact ⟨heq, List.forall_mem_cons.2 ⟨hfirst, hall⟩⟩

/-- Rounds over the instructions, repeated until one adds nothing or fails, however many there are. -/
inductive Repeats (m : Module) (function : String) (instrs : List Instr) :
    FunctionTypes → Except Error FunctionTypes → Prop
  | fails {T : FunctionTypes} {e : Error} :
      instrs.foldlM (inferInstr m function) T = .error e → Repeats m function instrs T (.error e)
  | last {T T' : FunctionTypes} : instrs.foldlM (inferInstr m function) T = .ok T' →
      T'.size = T.size → Repeats m function instrs T (.ok T')
  | again {T T' : FunctionTypes} {result : Except Error FunctionTypes} :
      instrs.foldlM (inferInstr m function) T = .ok T' → T'.size ≠ T.size →
      Repeats m function instrs T' result → Repeats m function instrs T result

/-- When the rounds end, no instruction has anything to add. -/
theorem Repeats.settled {result : Except Error FunctionTypes} (h : Repeats m function instrs T result)
    (hresult : result = .ok T') : ∀ i ∈ instrs, inferInstr m function T' i = .ok T' := by
  induction h with
  | fails => cases hresult
  | last hround hsize =>
      cases hresult
      obtain ⟨rfl, hall⟩ := settled_of_round hround hsize
      exact hall
  | again _ _ _ ih => exact ih hresult

/-- The definitions about whose temporary nothing is known. -/
def unknown (instrs : List Instr) (T : FunctionTypes) : List Temp :=
  (instrs.filterMap Instr.dest?).filter fun t => !T.knows t

theorem length_unknown_le (instrs : List Instr) (T : FunctionTypes) :
    (unknown instrs T).length ≤ instrs.length :=
  Nat.le_trans (List.length_filter_le _ _) (List.length_filterMap_le _ _)

/-- What is known stays known. -/
theorem knows_of_inferInstr (h : inferInstr m function T i = .ok T') (ht : T.knows t) : T'.knows t := by
  have hbelow : T.Below T' := by
    rcases inferInstr_cases h with rfl | ⟨u, _, _, ⟨ty, _, rfl⟩ | ⟨_, _, _, _, _, _, rfl⟩⟩
    · exact .refl _
    · exact FunctionTypes.below_addTemp _ _
    · exact FunctionTypes.below_addIterator _ _
  have hwithin : T.Within T' := ⟨hbelow.temps, hbelow.iterators, fun name => (hbelow.var? name).symm⟩
  exact hwithin.knows ht

theorem knows_addTemp (t : Temp) (ty : Ty) (T : FunctionTypes) :
    ({ T with temps := T.temps ++ [(t, ty)] } : FunctionTypes).knows t := by
  rw [FunctionTypes.knows, FunctionTypes.temp?, List.lookup_append, List.lookup_cons_self]
  cases T.temps.lookup t <;> rfl

theorem knows_addIterator (t : Temp) (it : Iterator) (T : FunctionTypes) :
    ({ T with iterators := T.iterators ++ [(t, it)] } : FunctionTypes).knows t := by
  rw [FunctionTypes.knows, FunctionTypes.iterator?, List.lookup_append, List.lookup_cons_self]
  cases T.iterators.lookup t <;> simp

/-- A round that adds something makes a temporary known that an instruction defines. -/
theorem length_unknown_lt (h : instrs.foldlM (inferInstr m function) T = .ok T') (hsize : T'.size ≠ T.size) :
    (unknown instrs T').length < (unknown instrs T).length := by
  have hkeeps : ∀ t, T.knows t → T'.knows t := fun t ht =>
    foldlM_keeps (P := fun T => T.knows t) (fun _ _ _ _ hknows h₁ => knows_of_inferInstr h₁ hknows) ht h
  have hnew : ∃ t ∈ instrs.filterMap Instr.dest?, T.knows t = false ∧ T'.knows t := by
    have hcases : T' = T ∨ ∃ t ∈ instrs.filterMap Instr.dest?, T.knows t = false ∧ T'.knows t := by
      refine foldlM_keeps (P := fun T₁ => (∀ t, T.knows t → T₁.knows t) ∧
        (T₁ = T ∨ ∃ t ∈ instrs.filterMap Instr.dest?, T.knows t = false ∧ T₁.knows t)) ?_
        ⟨fun _ => id, .inl rfl⟩ h |>.2
      rintro i hi T₁ T₂ ⟨hmore, hT₁⟩ h₂
      refine ⟨fun t ht => knows_of_inferInstr h₂ (hmore t ht), ?_⟩
      rcases hT₁ with rfl | ⟨t, hmem, hold, hknows⟩
      · rcases inferInstr_cases h₂ with heq | ⟨t, ht, hold, ⟨ty, _, rfl⟩ | ⟨_, _, _, _, _, _, rfl⟩⟩
        · exact .inl heq
        · exact .inr ⟨t, List.mem_filterMap.2 ⟨i, hi, ht⟩, hold, knows_addTemp _ _ _⟩
        · exact .inr ⟨t, List.mem_filterMap.2 ⟨i, hi, ht⟩, hold, knows_addIterator _ _ _⟩
      · exact .inr ⟨t, hmem, hold, knows_of_inferInstr h₂ hknows⟩
    rcases hcases with rfl | hnew
    · exact absurd rfl hsize
    · exact hnew
  obtain ⟨t, hmem, hold, hknown⟩ := hnew
  have hsub : (unknown instrs T').Sublist (unknown instrs T) :=
    List.monotone_filter_right _ fun u hu => by
      cases hk : T.knows u with
      | false => rfl
      | true => simp [hkeeps u hk] at hu
  refine Nat.lt_of_le_of_ne hsub.length_le fun heq => ?_
  have hin : t ∈ unknown instrs T := List.mem_filter.2 ⟨hmem, by simp [hold]⟩
  rw [← hsub.eq_of_length heq] at hin
  simpa [hknown] using (List.mem_filter.1 hin).2

/-- The bound on the number of rounds is not met: with it the rounds end as they do without one. -/
theorem repeats_inferRounds {rounds : Nat} (hrounds : (unknown instrs T).length < rounds) :
    Repeats m function instrs T (inferRounds m function instrs rounds T) := by
  induction rounds generalizing T with
  | zero => omega
  | succ rounds ih =>
      rw [inferRounds]
      cases hround : instrs.foldlM (inferInstr m function) T with
      | error e => exact .fails hround
      | ok T' =>
          rw [ok_bind]
          show Repeats m function instrs T
            (if T'.size = T.size then pure T' else inferRounds m function instrs rounds T')
          by_cases hsize : T'.size = T.size
          · rw [if_pos hsize]
            exact .last hround hsize
          · rw [if_neg hsize]
            have hfewer := length_unknown_lt hround hsize
            exact .again hround hsize (ih (by omega))

/-! ## The types in the end -/

/-- The loops that are known are begun by instructions, over temporaries of the types they have. -/
def LoopsBegun (instrs : List Instr) (T : FunctionTypes) : Prop :=
  ∀ t it, T.iterator? t = some it →
    Instr.iterBegin t it.iterable it.kind it.elem ∈ instrs ∧ T.temp? it.iterable = some it.iterableType

theorem loopsBegun_inferInstr (hi : i ∈ instrs) (hT : LoopsBegun instrs T)
    (h : inferInstr m function T i = .ok T') : LoopsBegun instrs T' := by
  rcases inferInstr_cases h with rfl | ⟨t, _, _, ⟨ty, _, rfl⟩ | ⟨iterable, kind, elem, ty, rfl, hty, rfl⟩⟩
  · exact hT
  · intro u it hu
    obtain ⟨hmem, hiterable⟩ := hT u it hu
    exact ⟨hmem, FunctionTypes.lookup_append_of_some hiterable _⟩
  · intro u it hu
    rcases lookup_append_singleton hu with hu | ⟨rfl, rfl⟩
    · exact hT u it hu
    · exact ⟨hi, hty⟩

/-- Where every temporary is defined once, what is known of it is what its instruction says. -/
theorem yields_of_knows (hdests : (instrs.filterMap Instr.dest?).Nodup)
    (hjustified : Justified m function instrs T) (hloops : LoopsBegun instrs T) (hi : i ∈ instrs)
    (ht : i.dest? = some t) (hknows : T.knows t) : Yields m function T i t := by
  have htemp : ∀ {ty}, T.temp? t = some ty → resultType? m function T i = .ok (some ty) := by
    intro ty hty
    obtain ⟨j, hj, htj, hresult⟩ := hjustified.temps hty
    obtain rfl : i = j := eq_of_dest? hdests hi hj ht htj
    exact hresult
  have hloop : ∀ {it}, T.iterator? t = some it →
      i = .iterBegin t it.iterable it.kind it.elem ∧ T.temp? it.iterable = some it.iterableType := by
    intro it hit
    obtain ⟨hj, hiterable⟩ := hloops t it hit
    exact ⟨eq_of_dest? hdests hi hj ht rfl, hiterable⟩
  by_cases hbegin : ∃ iterable kind elem, i = .iterBegin t iterable kind elem
  · obtain ⟨iterable, kind, elem, rfl⟩ := hbegin
    have hnone : T.temp? t = none := by
      cases hty : T.temp? t with
      | none => rfl
      | some ty => cases htemp hty
    rw [FunctionTypes.knows, hnone, Option.isSome_none, Bool.false_or, Option.isSome_iff_exists] at hknows
    obtain ⟨it, hit⟩ := hknows
    obtain ⟨heq, hiterable⟩ := hloop hit
    cases heq
    exact ⟨hnone, it.iterableType, hiterable, hit⟩
  · have hnone : T.iterator? t = none := by
      cases hit : T.iterator? t with
      | none => rfl
      | some it => exact absurd ⟨_, _, _, (hloop hit).1⟩ hbegin
    rw [FunctionTypes.knows, hnone, Option.isSome_none, Bool.or_false, Option.isSome_iff_exists] at hknows
    obtain ⟨ty, hty⟩ := hknows
    unfold Yields
    split
    · cases ht
      exact absurd ⟨_, _, _, rfl⟩ hbegin
    · exact ⟨hnone, ty, htemp hty, hty⟩

/-- An instruction that has nothing to add holds. -/
theorem holds_of_settled (hdests : (instrs.filterMap Instr.dest?).Nodup)
    (hjustified : Justified m function instrs T) (hloops : LoopsBegun instrs T) (hi : i ∈ instrs)
    (hsettled : inferInstr m function T i = .ok T) : Holds m function T i := by
  have hyields : ∀ {t}, i.dest? = some t → ((∃ ty, resultType? m function T i = .ok (some ty)) ∨
      ∃ d iterable kind elem ty, i = .iterBegin d iterable kind elem ∧ T.temp? iterable = some ty) →
      Holds m function T i := by
    intro t ht hgiven
    have hknows := knows_of_inferInstr_self hsettled ht hgiven
    refine Yields.holds fun u hu => ?_
    obtain rfl : t = u := Option.some.inj (ht.symm.trans hu)
    exact yields_of_knows hdests hjustified hloops hi ht hknows
  refine ⟨fun ht hty => (hyields ht (.inl ⟨_, hty⟩)).temp ht hty, fun {t _ _ _ _} heq hty => ?_⟩
  have ht : i.dest? = some t := by rw [heq]; rfl
  exact (hyields ht (.inr ⟨_, _, _, _, _, heq, hty⟩)).iterator heq hty

variable {f g : Function}

theorem inferFunction_eq_ok_iff : inferFunction m f = .ok T ↔
    inferRounds m f.name f.instrs (f.instrs.length + 1) { vars := declaredVars f } = .ok T ∧
      ∀ t ∈ f.dests, T.knows t := by
  rw [inferFunction]
  constructor
  · intro h
    obtain ⟨U, hU, h⟩ := bind_eq_ok.1 h
    split at h
    · cases h
    · rename_i hnone
      cases h
      exact ⟨hU, fun t ht => by simpa using List.find?_eq_none.1 hnone t ht⟩
  · rintro ⟨hT, hknows⟩
    have hnone : (f.instrs.filterMap Instr.dest?).find? (fun t => !T.knows t) = none :=
      List.find?_eq_none.2 fun t ht => by simp [hknows t ht]
    rw [hT, ok_bind, hnone]
    rfl

/-- The types that the rounds end with come from instructions, and every instruction holds. -/
theorem of_inferRounds (hdests : f.dests.Nodup)
    (h : inferRounds m f.name f.instrs (f.instrs.length + 1) { vars := declaredVars f } = .ok T) :
    Justified m f.name f.instrs T ∧ LoopsBegun f.instrs T ∧ ∀ i ∈ f.instrs, Holds m f.name T i := by
  have hstart : Justified m f.name f.instrs { vars := declaredVars f } := ⟨nofun, nofun⟩
  have hjustified := (justified_inferRounds hstart h).2
  have hloops : LoopsBegun f.instrs T :=
    inferRounds_keeps (fun i hi _ _ hT => loopsBegun_inferInstr hi hT) (fun _ _ hit => by cases hit) h
  have hbound : (unknown f.instrs { vars := declaredVars f }).length < f.instrs.length + 1 :=
    Nat.lt_succ_of_le (length_unknown_le _ _)
  have hrepeats : Repeats m f.name f.instrs { vars := declaredVars f } (.ok T) := h ▸ repeats_inferRounds hbound
  have hsettled := hrepeats.settled rfl
  exact ⟨hjustified, hloops, fun i hi => holds_of_settled hdests hjustified hloops hi (hsettled i hi)⟩

theorem yields_of_inferFunction (hdests : f.dests.Nodup) (h : inferFunction m f = .ok T) (hi : i ∈ f.instrs)
    (ht : i.dest? = some t) : Yields m f.name T i t := by
  obtain ⟨hrounds, hknows⟩ := inferFunction_eq_ok_iff.1 h
  obtain ⟨hjustified, hloops, _⟩ := of_inferRounds hdests hrounds
  exact yields_of_knows hdests hjustified hloops hi ht (hknows t (List.mem_filterMap.2 ⟨i, hi, ht⟩))

/-- Nothing is found but what must be known under any types under which the instructions hold. -/
theorem within_inferRounds {rounds : Nat} {vars : List (String × Ty)}
    (h : inferRounds m function instrs rounds { vars } = .ok T) (hvars : ∀ name, vars.lookup name = U.var? name)
    (hU : ∀ i ∈ instrs, Holds m function U i) : T.Within U := by
  have hstart : ({ vars } : FunctionTypes).Within U :=
    { temps := nofun, iterators := nofun, vars := hvars }
  exact inferRounds_keeps (P := (·.Within U)) (fun i hi _ _ hT => within_inferInstr hT (hU i hi)) hstart h

/-! ## Another order -/

theorem lookup_foldl_addVariable (known vars : List (String × Ty)) (name : String) :
    (vars.foldl addVariable known).lookup name = (known.lookup name).or (vars.lookup name) := by
  induction vars generalizing known with
  | nil => exact (Option.or_none).symm
  | cons v rest ih =>
      rw [List.foldl_cons, ih, addVariable]
      split
      · rename_i hsome
        by_cases hname : name = v.1
        · obtain ⟨ty, hty⟩ := Option.isSome_iff_exists.1 hsome
          rw [hname, hty, Option.some_or, Option.some_or]
        · rw [List.lookup_cons, beq_false_of_ne hname]
      · rw [List.lookup_append, Option.or_assoc, ← List.lookup_append, List.singleton_append]

theorem lookup_of_perm {vars vars' : List (String × Ty)} (hperm : vars.Perm vars')
    (hnodup : (vars.map Prod.fst).Nodup) (name : String) : vars.lookup name = vars'.lookup name := by
  have hnodup' : (vars'.map Prod.fst).Nodup := (hperm.map Prod.fst).nodup_iff.1 hnodup
  refine Option.ext fun ty => ⟨fun hty => ?_, fun hty => ?_⟩
  · exact lookup_of_mem hnodup' (hperm.mem_iff.1 (mem_of_lookup hty))
  · exact lookup_of_mem hnodup (hperm.mem_iff.2 (mem_of_lookup hty))

/-- Where no variable is declared twice, the variables have the same types in any order. -/
theorem lookup_declaredVars_of_reordered (h : f.Reordered g)
    (hnames : (f.instrs.filterMap Instr.declared?).Nodup) (name : String) :
    (declaredVars f).lookup name = (declaredVars g).lookup name := by
  have hperm : (f.instrs.filterMap declaredVar?).Perm (g.instrs.filterMap declaredVar?) :=
    h.instrs.filterMap _
  rw [declaredVars, declaredVars, lookup_foldl_addVariable, lookup_foldl_addVariable, List.lookup_append,
    List.lookup_append, h.params, lookup_of_perm hperm ((map_fst_declaredVar? _).symm ▸ hnames)]

/-- A step fails only if the instruction has no meaning. -/
theorem inferInstr_ok (hvars : ∀ name, T.var? name = U.var? name)
    (hmeans : ∀ t, i.dest? = some t → ∀ e, resultType? m function U i ≠ .error e) :
    ∃ T', inferInstr m function T i = .ok T' ∧ ∀ name, T'.var? name = U.var? name := by
  cases hstep : inferInstr m function T i with
  | ok T' =>
      refine ⟨T', rfl, ?_⟩
      rcases inferInstr_cases hstep with rfl | ⟨_, _, _, ⟨_, _, rfl⟩ | ⟨_, _, _, _, _, _, rfl⟩⟩ <;>
        exact hvars
  | error e =>
      unfold inferInstr at hstep
      split at hstep
      · cases hstep
      rename_i t ht
      split at hstep
      · cases hstep
      split at hstep
      · split at hstep <;> cases hstep
      · cases hresult : resultType? m function T i with
        | error e' => exact absurd (resultType?_error_congr hvars hresult) (hmeans t ht e')
        | ok ty? =>
            rw [hresult, ok_bind] at hstep
            cases ty? <;> cases hstep

theorem round_ok (hvars : ∀ name, T.var? name = U.var? name)
    (hmeans : ∀ i ∈ instrs, ∀ t, i.dest? = some t → ∀ e, resultType? m function U i ≠ .error e) :
    ∃ T', instrs.foldlM (inferInstr m function) T = .ok T' ∧ ∀ name, T'.var? name = U.var? name := by
  induction instrs generalizing T with
  | nil => exact ⟨T, rfl, hvars⟩
  | cons i rest ih =>
      obtain ⟨hi, hrest⟩ := List.forall_mem_cons.1 hmeans
      obtain ⟨T₁, hT₁, hvars₁⟩ := inferInstr_ok hvars hi
      obtain ⟨T', hT', hvars'⟩ := ih hvars₁ hrest
      exact ⟨T', by rw [List.foldlM_cons, hT₁, ok_bind, hT'], hvars'⟩

theorem inferRounds_ok {rounds : Nat} (hvars : ∀ name, T.var? name = U.var? name)
    (hmeans : ∀ i ∈ instrs, ∀ t, i.dest? = some t → ∀ e, resultType? m function U i ≠ .error e) :
    ∃ T', inferRounds m function instrs rounds T = .ok T' := by
  induction rounds generalizing T with
  | zero => exact ⟨T, rfl⟩
  | succ rounds ih =>
      obtain ⟨T₁, hT₁, hvars₁⟩ := round_ok hvars hmeans
      rw [inferRounds, hT₁, ok_bind]
      split
      · exact ⟨T₁, rfl⟩
      · exact ih hvars₁

/-- If types are found in one order, the same ones are found in another. Each of the two is below the other,
since the instructions hold under both. -/
theorem inferFunction_of_reordered (hdests : f.dests.Nodup) (hname : g.name = f.name)
    (hinstrs : f.instrs.Perm g.instrs)
    (hvars : ∀ name, (declaredVars f).lookup name = (declaredVars g).lookup name)
    (h : inferFunction m f = .ok T) : ∃ U, inferFunction m g = .ok U ∧ T.Within U ∧ U.Within T := by
  obtain ⟨hrounds, hknows⟩ := inferFunction_eq_ok_iff.1 h
  have hsame : ∀ name, T.var? name = (declaredVars g).lookup name := by
    intro name
    obtain ⟨heq, _⟩ := justified_of_inferFunction h
    rw [FunctionTypes.var?, heq, hvars]
  have hmeans : ∀ i ∈ g.instrs, ∀ t, i.dest? = some t → ∀ e, resultType? m f.name T i ≠ .error e := by
    intro i hi t ht e he
    have hyields := yields_of_inferFunction hdests h (hinstrs.mem_iff.2 hi) ht
    unfold Yields at hyields
    split at hyields
    · cases he
    · obtain ⟨_, ty, hty, _⟩ := hyields
      cases hty.symm.trans he
  have hstarts : ∀ name, ({ vars := declaredVars g } : FunctionTypes).var? name = T.var? name :=
    fun name => (hsame name).symm
  obtain ⟨U, hU⟩ : ∃ U, inferRounds m f.name g.instrs (g.instrs.length + 1) { vars := declaredVars g } = .ok U :=
    inferRounds_ok hstarts hmeans
  rw [← hname] at hU
  have hdests' : g.dests.Nodup := (hinstrs.filterMap _).nodup_iff.1 hdests
  have hUT : U.Within T := by
    refine within_inferRounds hU (fun name => (hsame name).symm) fun i hi => ?_
    rw [hname]
    exact (of_inferRounds hdests hrounds).2.2 i (hinstrs.mem_iff.2 hi)
  have hTU : T.Within U := by
    refine within_inferRounds hrounds (fun name => ?_) fun i hi => ?_
    · rw [hvars, ← hsame, ← hUT.vars]
    · rw [← hname]
      exact (of_inferRounds hdests' hU).2.2 i (hinstrs.mem_iff.1 hi)
  refine ⟨U, inferFunction_eq_ok_iff.2 ⟨hU, fun t ht => ?_⟩, hTU, hUT⟩
  exact hTU.knows (hknows t ((hinstrs.filterMap _).mem_iff.2 ht))

/-- In a valid function that declares no variable twice, the rounds come to an end by themselves. If types are
found, they give every definition what its instruction yields under them, and they are the least types
under which the instructions hold; no order of the blocks and instructions gives others. -/
theorem inferFunction_least (m : Module) {f : Function} (hvalid : f.validate = .ok ())
    (hnames : (f.instrs.filterMap Instr.declared?).Nodup) :
    Repeats m f.name f.instrs { vars := declaredVars f }
        (inferRounds m f.name f.instrs (f.instrs.length + 1) { vars := declaredVars f }) ∧
      (∀ T, inferFunction m f = .ok T →
        (∀ i ∈ f.instrs, ∀ t, i.dest? = some t → Yields m f.name T i t) ∧
        ∀ U, (∀ name, T.var? name = U.var? name) → (∀ i ∈ f.instrs, Holds m f.name U i) → T.Within U) ∧
      ∀ g, f.Reordered g →
        ((∃ T, inferFunction m f = .ok T) ↔ ∃ U, inferFunction m g = .ok U) ∧
        ∀ T U, inferFunction m f = .ok T → inferFunction m g = .ok U →
          T.temp? = U.temp? ∧ T.iterator? = U.iterator? ∧ T.var? = U.var? := by
  have hdests : f.dests.Nodup := ((Function.validate_eq_ok_iff f).1 hvalid).dests
  refine ⟨repeats_inferRounds (Nat.lt_succ_of_le (length_unknown_le _ _)), fun T hT => ⟨?_, ?_⟩,
    fun g hfg => ?_⟩
  · exact fun i hi t ht => yields_of_inferFunction hdests hT hi ht
  · intro U hvars hU
    obtain ⟨hrounds, _⟩ := inferFunction_eq_ok_iff.1 hT
    obtain ⟨heq, _⟩ := justified_of_inferFunction hT
    refine within_inferRounds hrounds (fun name => ?_) hU
    rw [← hvars, FunctionTypes.var?, heq]
  · have hperm : f.instrs.Perm g.instrs := hfg.instrs
    have hdests' : g.dests.Nodup := (hperm.filterMap _).nodup_iff.1 hdests
    have hvars := lookup_declaredVars_of_reordered hfg hnames
    refine ⟨⟨?_, ?_⟩, fun T U hT hU => ?_⟩
    · rintro ⟨T, hT⟩
      obtain ⟨U, hU, _⟩ := inferFunction_of_reordered hdests hfg.name hperm hvars hT
      exact ⟨U, hU⟩
    · rintro ⟨U, hU⟩
      obtain ⟨T, hT, _⟩ := inferFunction_of_reordered hdests' hfg.name.symm hperm.symm
        (fun name => (hvars name).symm) hU
      exact ⟨T, hT⟩
    · obtain ⟨V, hV, hTV, hVT⟩ := inferFunction_of_reordered hdests hfg.name hperm hvars hT
      obtain rfl : U = V := Except.ok.inj (hU.symm.trans hV)
      exact hTV.antisymm hVT

end

/-- A loop over the values of a list, whose element is taken. -/
def firstElement : Function :=
  { name := "first", params := [], ret := .string, blocks :=
      [⟨"entry", [.const 0 (.str "a"), .makeList 1 .string [0], .iterBegin 2 1 .values .string,
        .iterNext 3 2], .ret 3⟩] }

/-- The same function with its instructions from the last to the first. -/
def firstElementBackwards : Function :=
  { firstElement with blocks :=
      [⟨"entry", [.iterNext 3 2, .iterBegin 2 1 .values .string, .makeList 1 .string [0],
        .const 0 (.str "a")], .ret 3⟩] }

/-- Backwards it takes more rounds and the types are found in another order, but they are the same. -/
theorem inferFunction_least_backwards :
    firstElement.validate = .ok () ∧ (firstElement.instrs.filterMap Instr.declared?).Nodup ∧
      firstElement.Reordered firstElementBackwards ∧
      ∃ T U, inferFunction ⟨"m", [], []⟩ firstElement = .ok T ∧
        inferFunction ⟨"m", [], []⟩ firstElementBackwards = .ok U ∧
        T.temps = [(0, .string), (1, .list .string), (3, .string)] ∧
        U.temps = [(1, .list .string), (0, .string), (3, .string)] ∧
        T.temp? = U.temp? ∧ T.iterator? = U.iterator? ∧ T.var? = U.var? := by
  have hvalid : firstElement.validate = .ok () := by decide
  have hnames : (firstElement.instrs.filterMap Instr.declared?).Nodup := by decide
  have hreversed : firstElement.Reordered firstElementBackwards :=
    ⟨rfl, rfl, rfl, _, .refl _, .cons ⟨rfl, (List.reverse_perm _).symm, rfl⟩ .nil⟩
  obtain ⟨_, _, hall⟩ := inferFunction_least ⟨"m", [], []⟩ hvalid hnames
  exact ⟨hvalid, hnames, hreversed, _, _, rfl, rfl, rfl, rfl, (hall _ hreversed).2 _ _ rfl rfl⟩

end C

end ProtoScript
