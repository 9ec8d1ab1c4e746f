import Mathlib.Data.List.Nodup
import ProtoScript.C.Infer
import ProtoScript.Proofs.Ir.Validate
import ProtoScript.Proofs.Lowering.Site

set_option autoImplicit false

/-!
# What is inferred

The rounds of inference only add types, and a type that an instruction gives to its temporary does not change
when more becomes known (`resultType?_mono`). So at the end, where every temporary is defined once, each has
the type that its instruction gives it under the types found for all (`temp?_of_inferFunction`). This says
nothing about the order of the instructions, in which the rounds find the types.
-/

namespace ProtoScript

namespace Ir

/-- The variable is a parameter of the function or declared in it, with the type. -/
def Function.Declares (f : Function) (name : String) (ty : Ty) : Prop :=
  ⟨name, ty⟩ ∈ f.params ∨ Instr.varDecl name ty ∈ f.instrs

/-- Where all definitions are different, a temporary has one instruction that defines it. -/
theorem eq_of_dest? {instrs : List Instr} (h : (instrs.filterMap Instr.dest?).Nodup) {i j : Instr}
    (hi : i ∈ instrs) (hj : j ∈ instrs) {t : Temp} (hti : i.dest? = some t) (htj : j.dest? = some t) :
    i = j := by
  induction instrs with
  | nil => cases hi
  | cons a rest ih =>
      have hmem : ∀ {k : Instr}, k ∈ rest → k.dest? = some t → t ∈ rest.filterMap Instr.dest? :=
        fun hk htk => List.mem_filterMap.2 ⟨_, hk, htk⟩
      cases ha : a.dest? with
      | none =>
          rw [List.filterMap_cons_none ha] at h
          have hne : ∀ {k : Instr}, k.dest? = some t → k ≠ a := by
            rintro k htk rfl
            cases ha.symm.trans htk
          exact ih h (List.mem_of_ne_of_mem (hne hti) hi) (List.mem_of_ne_of_mem (hne htj) hj)
      | some d =>
          rw [List.filterMap_cons_some ha] at h
          obtain ⟨hd, hrest⟩ := List.nodup_cons.1 h
          rcases List.mem_cons.1 hi with heqi | hi <;> rcases List.mem_cons.1 hj with heqj | hj
          · rw [heqi, heqj]
          · cases (heqi ▸ ha).symm.trans hti
            exact absurd (hmem hj htj) hd
          · cases (heqj ▸ ha).symm.trans htj
            exact absurd (hmem hi hti) hd
          · exact ih hrest hi hj

end Ir

namespace C

open Ir

/-! ## More becomes known -/

namespace FunctionTypes

/-- What is known in the first is known in the second. -/
structure Below (T T' : FunctionTypes) : Prop where
  temps : ∀ {t ty}, T.temp? t = some ty → T'.temp? t = some ty
  iterators : ∀ {t it}, T.iterator? t = some it → T'.iterator? t = some it
  vars : T'.vars = T.vars

variable {T T' T'' : FunctionTypes}

theorem Below.refl (T : FunctionTypes) : T.Below T := ⟨id, id, rfl⟩

theorem Below.trans (h : T.Below T') (h' : T'.Below T'') : T.Below T'' :=
  ⟨fun ht => h'.temps (h.temps ht), fun hi => h'.iterators (h.iterators hi), h'.vars.trans h.vars⟩

theorem Below.var? (h : T.Below T') (name : String) : T'.var? name = T.var? name := by
  rw [FunctionTypes.var?, h.vars]
  rfl

theorem lookup_append_of_some {α β : Type} [BEq α] {l : List (α × β)} {a : α} {b : β}
    (h : l.lookup a = some b) (l' : List (α × β)) : (l ++ l').lookup a = some b := by
  rw [List.lookup_append, h]
  rfl

theorem below_addTemp (t : Temp) (ty : Ty) : T.Below { T with temps := T.temps ++ [(t, ty)] } :=
  ⟨fun h => lookup_append_of_some h _, id, rfl⟩

theorem below_addIterator (t : Temp) (it : Iterator) :
    T.Below { T with iterators := T.iterators ++ [(t, it)] } :=
  ⟨id, fun h => lookup_append_of_some h _, rfl⟩

end FunctionTypes

section

variable {m : Module} {function : String} {T T' : FunctionTypes}

/-- An instruction that gives its temporary a type gives it the same one when more is known. -/
theorem resultType?_mono (h : T.Below T') {i : Instr} {ty : Ty}
    (hty : resultType? m function T i = .ok (some ty)) :
    resultType? m function T' i = .ok (some ty) := by
  have htemp : ∀ t, T.temp? t = some ty → T'.temp? t = some ty := fun _ => h.temps
  cases i with
  | copy d src => exact congrArg _ (htemp _ (Except.ok.inj hty))
  | unary d op t => exact congrArg _ (htemp _ (Except.ok.inj hty))
  | select d c x y => exact congrArg _ (htemp _ (Except.ok.inj hty))
  | loadVar d name =>
      rw [resultType?, h.var?]
      exact hty
  | binary d op l r =>
      unfold resultType? at hty ⊢
      dsimp only at hty ⊢
      split at hty
      case isTrue hop => rw [if_pos hop, hty]
      case isFalse hop => rw [if_neg hop, htemp l (Except.ok.inj hty)]
  | indexGet d object _ =>
      obtain ⟨τ, hτ, helem⟩ := Option.bind_eq_some_iff.1 (Except.ok.inj hty)
      exact congrArg _ (Option.bind_eq_some_iff.2 ⟨τ, h.temps hτ, helem⟩)
  | listPop d object =>
      obtain ⟨τ, hτ, helem⟩ := Option.bind_eq_some_iff.1 (Except.ok.inj hty)
      exact congrArg _ (Option.bind_eq_some_iff.2 ⟨τ, h.temps hτ, helem⟩)
  | iterNext d iter =>
      obtain ⟨it, hit, helem⟩ := Option.map_eq_some_iff.1 (Except.ok.inj hty)
      exact congrArg _ (Option.map_eq_some_iff.2 ⟨it, h.iterators hit, helem⟩)
  | _ => exact hty

/-- Every type and every loop that is known comes from an instruction. -/
structure Justified (m : Module) (function : String) (instrs : List Instr) (T : FunctionTypes) :
    Prop where
  temps : ∀ {t ty}, T.temp? t = some ty →
    ∃ i ∈ instrs, i.dest? = some t ∧ resultType? m function T i = .ok (some ty)
  iterators : ∀ {t it}, T.iterator? t = some it →
    ∃ iterable kind elem, Instr.iterBegin t iterable kind elem ∈ instrs

variable {instrs : List Instr}

theorem lookup_append_singleton {α β : Type} [BEq α] [LawfulBEq α] {l : List (α × β)} {a a' : α}
    {b b' : β} (h : (l ++ [(a', b')]).lookup a = some b) :
    l.lookup a = some b ∨ a' = a ∧ b' = b := by
  rw [List.lookup_append] at h
  cases hl : l.lookup a with
  | some c =>
      rw [hl] at h
      exact .inl h
  | none =>
      rw [hl, Option.none_or, List.lookup_cons] at h
      split at h
      · exact .inr ⟨(eq_of_beq ‹_›).symm, Option.some.inj h⟩
      · cases h

/-- The type of an instruction is taken in. -/
theorem Justified.addTemp (h : Justified m function instrs T) {i : Instr} (hi : i ∈ instrs) {t : Temp}
    {ty : Ty} (ht : i.dest? = some t) (hty : resultType? m function T i = .ok (some ty)) :
    Justified m function instrs { T with temps := T.temps ++ [(t, ty)] } where
  temps {u τ} hu := by
    rcases lookup_append_singleton hu with hu | ⟨rfl, rfl⟩
    · obtain ⟨j, hj, hdest, hτ⟩ := h.temps hu
      exact ⟨j, hj, hdest, resultType?_mono (FunctionTypes.below_addTemp t ty) hτ⟩
    · exact ⟨i, hi, ht, resultType?_mono (FunctionTypes.below_addTemp t ty) hty⟩
  iterators hit := h.iterators hit

/-- The loop that an instruction begins is taken in. -/
theorem Justified.addIterator (h : Justified m function instrs T) {t iterable : Temp}
    {kind : IterKind} {elem : Ty} (hi : Instr.iterBegin t iterable kind elem ∈ instrs) (it : Iterator) :
    Justified m function instrs { T with iterators := T.iterators ++ [(t, it)] } where
  temps hu := by
    obtain ⟨j, hj, hdest, hτ⟩ := h.temps hu
    exact ⟨j, hj, hdest, resultType?_mono (FunctionTypes.below_addIterator t it) hτ⟩
  iterators hit := by
    rcases lookup_append_singleton hit with hit | ⟨rfl, _⟩
    · exact h.iterators hit
    · exact ⟨_, _, _, hi⟩

/-! ## Rounds -/

/-- What a step adds. -/
theorem inferInstr_cases {i : Instr} (h : inferInstr m function T i = .ok T') :
    T' = T ∨ ∃ t, i.dest? = some t ∧ T.knows t = false ∧
      ((∃ ty, resultType? m function T i = .ok (some ty) ∧
          T' = { T with temps := T.temps ++ [(t, ty)] }) ∨
        ∃ iterable kind elem ty, i = .iterBegin t iterable kind elem ∧ T.temp? iterable = some ty ∧
          T' = { T with iterators := T.iterators ++ [(t, ⟨iterable, ty, kind, elem⟩)] }) := by
  unfold inferInstr at h
  split at h
  · cases h
    exact .inl rfl
  rename_i t ht
  split at h
  · cases h
    exact .inl rfl
  have hnew : T.knows t = false := Bool.eq_false_iff.2 ‹_›
  split at h
  · rename_i d iterable kind elem
    cases ht
    split at h
    · rename_i ty hty
      cases h
      exact .inr ⟨_, rfl, hnew, .inr ⟨iterable, kind, elem, ty, rfl, hty, rfl⟩⟩
    · cases h
      exact .inl rfl
  · obtain ⟨ty?, hty, h⟩ := bind_eq_ok.1 h
    cases ty? with
    | none =>
        cases h
        exact .inl rfl
    | some ty =>
        cases h
        exact .inr ⟨t, ht, hnew, .inl ⟨ty, hty, rfl⟩⟩

/-- What every step keeps holds behind them all. -/
theorem foldlM_keeps {ε σ ι : Type} {step : σ → ι → Except ε σ} {P : σ → Prop} {rest : List ι} {s s' : σ}
    (hstep : ∀ i ∈ rest, ∀ s s', P s → step s i = .ok s' → P s') (hs : P s)
    (h : rest.foldlM step s = .ok s') : P s' := by
  induction rest generalizing s with
  | nil =>
      cases h
      exact hs
  | cons i rest ih =>
      rw [List.foldlM_cons] at h
      obtain ⟨s₁, hfirst, hrest⟩ := bind_eq_ok.1 h
      have hs₁ : P s₁ := hstep i List.mem_cons_self s s₁ hs hfirst
      exact ih (fun j hj => hstep j (List.mem_cons_of_mem i hj)) hs₁ hrest

/-- What every step keeps holds of the types in the end. -/
theorem inferRounds_keeps {P : FunctionTypes → Prop} {rounds : Nat}
    (hstep : ∀ i ∈ instrs, ∀ T T', P T → inferInstr m function T i = .ok T' → P T') (hT : P T)
    (h : inferRounds m function instrs rounds T = .ok T') : P T' := by
  induction rounds generalizing T with
  | zero =>
      cases h
      exact hT
  | succ rounds ih =>
      obtain ⟨T₁, hround, h⟩ := bind_eq_ok.1 h
      have hT₁ : P T₁ := foldlM_keeps hstep hT hround
      split at h
      · cases h
        exact hT₁
      · exact ih hT₁ h

/-- Taking in an instruction only adds to what is known, and what it adds comes from it. -/
theorem justified_inferInstr {i : Instr} (hi : i ∈ instrs) (h : Justified m function instrs T)
    (hT : inferInstr m function T i = .ok T') : T.Below T' ∧ Justified m function instrs T' := by
  rcases inferInstr_cases hT with rfl | ⟨t, ht, _, ⟨ty, hty, rfl⟩ | ⟨_, _, _, _, rfl, _, rfl⟩⟩
  · exact ⟨.refl _, h⟩
  · exact ⟨FunctionTypes.below_addTemp t ty, h.addTemp hi ht hty⟩
  · exact ⟨FunctionTypes.below_addIterator _ _, h.addIterator hi _⟩

theorem justified_inferRounds {rounds : Nat} (h : Justified m function instrs T)
    (hT : inferRounds m function instrs rounds T = .ok T') :
    T.Below T' ∧ Justified m function instrs T' := by
  refine inferRounds_keeps (P := fun T₁ => T.Below T₁ ∧ Justified m function instrs T₁) ?_ ⟨.refl _, h⟩ hT
  rintro i hi T₁ T₂ ⟨hbelow, h₁⟩ h₂
  obtain ⟨hbelow', hjustified⟩ := justified_inferInstr hi h₁ h₂
  exact ⟨hbelow.trans hbelow', hjustified⟩

/-! ## The result -/

variable {F : Function}

theorem justified_of_inferFunction (h : inferFunction m F = .ok T) :
    T.vars = declaredVars F ∧ Justified m F.name F.instrs T ∧
      ∀ t ∈ F.dests, T.knows t := by
  obtain ⟨T', hT', h⟩ := bind_eq_ok.1 h
  have hstart : Justified m F.name F.instrs { vars := declaredVars F } := ⟨nofun, nofun⟩
  obtain ⟨hbelow, hjustified⟩ := justified_inferRounds hstart hT'
  split at h
  · cases h
  · rename_i hnone
    cases h
    refine ⟨hbelow.vars, hjustified, fun t ht => ?_⟩
    simpa using List.find?_eq_none.1 hnone t ht

/-- Where every temporary is defined once, each has the type that its instruction gives it under the types
of all; those that stand for loops have none. -/
theorem temp?_of_inferFunction (hdests : F.dests.Nodup) (h : inferFunction m F = .ok T) {i : Instr}
    (hi : i ∈ F.instrs) {t : Temp} (ht : i.dest? = some t)
    (hloop : ∀ iterable kind elem, i ≠ .iterBegin t iterable kind elem) :
    ∃ ty, T.temp? t = some ty ∧ resultType? m F.name T i = .ok (some ty) := by
  obtain ⟨_, hjustified, hknows⟩ := justified_of_inferFunction h
  have hknown := hknows t (List.mem_filterMap.2 ⟨i, hi, ht⟩)
  cases htemp : T.temp? t with
  | some ty =>
      obtain ⟨j, hj, htj, hty⟩ := hjustified.temps htemp
      obtain rfl := eq_of_dest? hdests hi hj ht htj
      exact ⟨ty, rfl, hty⟩
  | none =>
      cases hit : T.iterator? t with
      | none => simp [FunctionTypes.knows, htemp, hit] at hknown
      | some it =>
          obtain ⟨iterable, kind, elem, hj⟩ := hjustified.iterators hit
          exact absurd (eq_of_dest? hdests hi hj ht rfl) (hloop iterable kind elem)

/-! ## Variables -/

/-- Variables of different names are all kept. -/
theorem foldl_addVariable (known rest : List (String × Ty))
    (h : ((known ++ rest).map Prod.fst).Nodup) : rest.foldl addVariable known = known ++ rest := by
  induction rest generalizing known with
  | nil => exact (List.append_nil known).symm
  | cons v rest ih =>
      have hsplit : known ++ v :: rest = (known ++ [v]) ++ rest := List.append_cons known v rest
      have hnone : known.lookup v.1 = none := by
        refine lookup_eq_none_iff.2 fun hmem => ?_
        rw [List.map_append] at h
        exact List.disjoint_of_nodup_append h hmem (List.mem_map_of_mem List.mem_cons_self)
      rw [List.foldl_cons, addVariable, hnone, hsplit]
      exact ih _ (hsplit ▸ h)

theorem map_fst_declaredVar? (instrs : List Instr) :
    (instrs.filterMap declaredVar?).map Prod.fst = instrs.filterMap Instr.declared? := by
  rw [List.map_filterMap]
  refine congrArg (List.filterMap · instrs) (funext fun i => ?_)
  cases i <;> rfl

/-- Where the names of parameters and variables are all different, each has the type it is declared with. -/
theorem var?_of_inferFunction (h : inferFunction m F = .ok T) (hparams : (F.params.map Ir.Param.name).Nodup)
    (hnames : (F.instrs.filterMap Instr.declared?).Nodup)
    (hapart : ∀ p ∈ F.params, p.name ∉ F.instrs.filterMap Instr.declared?) {name : String} {ty : Ty}
    (hdeclares : F.Declares name ty) : T.var? name = some ty := by
  obtain ⟨hvars, _⟩ := justified_of_inferFunction h
  have hfst := map_fst_declaredVar? F.instrs
  have hmap : (F.params.reverse.map fun p => (p.name, p.ty)).map Prod.fst =
      (F.params.map Ir.Param.name).reverse := by
    rw [List.map_map, ← List.map_reverse]
    rfl
  generalize hall : (F.params.reverse.map fun p => (p.name, p.ty)) ++
    F.instrs.filterMap declaredVar? = all at *
  have hnodup : (all.map Prod.fst).Nodup := by
    rw [← hall, List.map_append, hmap, hfst]
    refine List.nodup_append.2 ⟨List.nodup_reverse.2 hparams, hnames, ?_⟩
    rintro a ha b hb rfl
    obtain ⟨p, hp, rfl⟩ := List.mem_map.1 (List.mem_reverse.1 ha)
    exact hapart p hp hb
  have hdeclared : declaredVars F = all := by
    rw [declaredVars, hall, foldl_addVariable [] all hnodup, List.nil_append]
  rw [FunctionTypes.var?, hvars, hdeclared]
  refine lookup_of_mem hnodup ?_
  rw [← hall]
  rcases hdeclares with hparam | hdecl
  · exact List.mem_append_left _ (List.mem_map.2 ⟨_, List.mem_reverse.2 hparam, rfl⟩)
  · exact List.mem_append_right _ (List.mem_filterMap.2 ⟨_, hdecl, rfl⟩)

end

end C

end ProtoScript
