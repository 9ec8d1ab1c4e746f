import Mathlib.Data.List.Nodup
import ProtoScript.Ir.Reach
import ProtoScript.Ir.Validate
import ProtoScript.Proofs.Lookup

set_option autoImplicit false

/-!
# What validation accepts

Validation goes through a function once and stops at the first defect. What it accepts can be said
without an order: a function is accepted exactly if it has a block, its labels are distinct, every target
of a block is a label, and no temporary is defined twice (`Function.validate_eq_ok_iff`). A module is
accepted exactly if its functions are and their names are distinct (`Module.isValid_iff`).
-/

namespace ProtoScript.Ir

namespace Function

/-- The labels of a function, in order. -/
def labels (f : Function) : List String := f.blocks.map Block.label

/-- The temporaries that a function defines, in order. -/
def dests (f : Function) : List Temp := f.instrs.filterMap Instr.dest?

/-- Control cannot leave the function other than by its end, and every temporary has one definition. -/
structure WellFormed (f : Function) : Prop where
  nonempty : f.blocks ≠ []
  labels : f.labels.Nodup
  targets : ∀ b ∈ f.blocks, ∀ l ∈ b.targets, l ∈ f.labels
  dests : f.dests.Nodup

end Function

/-! ## Definitions -/

theorem mem_dests_cons {i : Instr} {rest : List Instr} {t : Temp} :
    t ∈ (i :: rest).filterMap Instr.dest? ↔ i.dest? = some t ∨ t ∈ rest.filterMap Instr.dest? := by
  cases h : i.dest? with
  | none => simp [List.filterMap_cons_none h]
  | some d => simp [List.filterMap_cons_some h, eq_comm]

theorem nodup_dests_tail {i : Instr} {rest : List Instr}
    (h : ((i :: rest).filterMap Instr.dest?).Nodup) : (rest.filterMap Instr.dest?).Nodup :=
  h.sublist ((List.sublist_cons_self i rest).filterMap _)

/-- Where each temporary is defined once, the one just defined is not defined again. -/
theorem not_mem_dests_of_nodup {i : Instr} {rest : List Instr} {t : Temp}
    (h : ((i :: rest).filterMap Instr.dest?).Nodup) (hi : i.dest? = some t) :
    t ∉ rest.filterMap Instr.dest? := by
  rw [List.filterMap_cons_some hi] at h
  exact (List.nodup_cons.1 h).1

/-- The temporaries that a block defines are among those its function defines. -/
theorem Function.dests_sublist {f : Function} {b : Block} (hb : b ∈ f.blocks) :
    (b.instrs.filterMap Instr.dest?).Sublist (f.instrs.filterMap Instr.dest?) := by
  rw [Function.instrs, List.flatMap_def]
  exact (List.sublist_flatten_of_mem (List.mem_map_of_mem hb)).filterMap _

/-! ## Labels -/

theorem firstRepeated?_eq_none_iff {seen labels : List String} :
    firstRepeated? seen labels = none ↔ labels.Nodup ∧ ∀ l ∈ labels, l ∉ seen := by
  induction labels generalizing seen with
  | nil => simp [firstRepeated?]
  | cons x xs ih =>
      unfold firstRepeated?
      by_cases hx : x ∈ seen
      · simp [hx]
      · rw [if_neg (by simp [hx]), ih, List.nodup_cons]
        constructor
        · rintro ⟨hnodup, hfresh⟩
          refine ⟨⟨fun hmem => hfresh x hmem (by simp), hnodup⟩, fun l hl => ?_⟩
          rcases List.mem_cons.1 hl with rfl | hl
          · exact hx
          · exact fun hmem => hfresh l hl (by simp [hmem])
        · rintro ⟨⟨hnew, hnodup⟩, hfresh⟩
          refine ⟨hnodup, fun l hl hmem => ?_⟩
          rcases List.mem_cons.1 hmem with rfl | hmem
          · exact hnew hl
          · exact hfresh l (by simp [hl]) hmem

/-! ## Definitions -/

theorem Instr.dest?_of_handler? {i : Instr} {h : String} (hi : i.handler? = some h) :
    i.dest? = none := by
  cases i with
  | setupTry _ => rfl
  | _ => cases hi

/-- What the instructions of a block add to the definitions, the last one first. -/
def definitionsOf (label : String) (instrs : List Instr) : Definitions :=
  ((instrs.filterMap Instr.dest?).map (·, label)).reverse

theorem map_fst_definitionsOf (label : String) (instrs : List Instr) :
    (definitionsOf label instrs).map Prod.fst = (instrs.filterMap Instr.dest?).reverse := by
  simp [definitionsOf, Function.comp_def]

/-- A block is accepted if its handlers are labels, and it defines no temporary that is defined already,
here or before. -/
theorem scanInstrs_eq_ok_iff {labels : List String} {label : String} {instrs : List Instr}
    {defined defined' : Definitions} :
    scanInstrs labels label instrs defined = .ok defined' ↔
      (∀ h ∈ instrs.filterMap Instr.handler?, h ∈ labels) ∧
      ((definitionsOf label instrs).map Prod.fst).Nodup ∧
      (∀ t ∈ (definitionsOf label instrs).map Prod.fst, t ∉ defined.map Prod.fst) ∧
      defined' = definitionsOf label instrs ++ defined := by
  simp only [map_fst_definitionsOf, List.nodup_reverse, List.mem_reverse]
  induction instrs generalizing defined with
  | nil => simp [scanInstrs, definitionsOf, eq_comm]
  | cons i rest ih =>
      unfold scanInstrs
      cases hh : i.handler? with
      | some h =>
          have hd := Instr.dest?_of_handler? hh
          simp only [List.filterMap_cons_some hh, List.filterMap_cons_none hd, definitionsOf]
          by_cases hmem : h ∈ labels
          · simp only [List.contains_iff_mem, hmem, if_true, ih, List.forall_mem_cons, true_and]
            rfl
          · simp [hmem]
      | none =>
          rw [List.filterMap_cons_none hh]
          cases hd : i.dest? with
          | none =>
              simp only [List.filterMap_cons_none hd, ih, definitionsOf]
          | some t =>
              simp only [List.filterMap_cons_some hd, definitionsOf, List.map_cons,
                List.reverse_cons, List.append_assoc, List.singleton_append]
              cases hl : defined.lookup t with
              | some first =>
                  have hold : t ∈ defined.map Prod.fst := by
                    by_contra hnot
                    rw [lookup_eq_none_iff.2 hnot] at hl
                    cases hl
                  constructor
                  · intro hok
                    cases hok
                  · rintro ⟨_, _, hfresh, _⟩
                    exact absurd hold (hfresh t (by simp))
              | none =>
                  have hnew := lookup_eq_none_iff.1 hl
                  simp only [ih, List.map_cons, List.mem_cons, List.nodup_cons, not_or]
                  constructor
                  · rintro ⟨hhandlers, hnodup, hfresh, rfl⟩
                    refine ⟨hhandlers, ⟨fun hmem => (hfresh t hmem).1 rfl, hnodup⟩, ?_, rfl⟩
                    rintro u (rfl | hu)
                    · exact hnew
                    · exact (hfresh u hu).2
                  · rintro ⟨hhandlers, ⟨hfirst, hnodup⟩, hfresh, rfl⟩
                    refine ⟨hhandlers, hnodup, fun u hu => ⟨?_, hfresh u (.inr hu)⟩, rfl⟩
                    rintro rfl
                    exact hfirst hu

/-- The blocks from some point on are accepted if their targets are labels, and they define no temporary
that is defined already, among them or before. -/
theorem scanBlocks_eq_ok_iff {labels : List String} {blocks : List Block} {defined : Definitions} :
    scanBlocks labels blocks defined = .ok () ↔
      (∀ b ∈ blocks, ∀ l ∈ b.targets, l ∈ labels) ∧
      ((blocks.flatMap Block.instrs).filterMap Instr.dest?).Nodup ∧
      ∀ t ∈ (blocks.flatMap Block.instrs).filterMap Instr.dest?, t ∉ defined.map Prod.fst := by
  induction blocks generalizing defined with
  | nil => simp [scanBlocks]
  | cons b rest ih =>
      have htargets : (∀ l ∈ b.targets, l ∈ labels) ↔
          (∀ l ∈ b.successors, l ∈ labels) ∧ ∀ l ∈ b.instrs.filterMap Instr.handler?, l ∈ labels := by
        simp only [Block.targets, Block.handlers, List.mem_append, or_imp, forall_and]
      unfold scanBlocks
      cases hfind : b.successors.find? fun s => !labels.contains s with
      | some target =>
          have hmissing : target ∉ labels := by simpa using List.find?_some hfind
          constructor
          · intro hok
            cases hok
          · rintro ⟨hall, _⟩
            have hmem := List.mem_of_find?_eq_some hfind
            exact absurd ((htargets.1 (hall b (by simp))).1 target hmem) hmissing
      | none =>
          have hsucc : ∀ l ∈ b.successors, l ∈ labels := by
            intro l hl
            simpa using List.find?_eq_none.1 hfind l hl
          simp only [List.forall_mem_cons, htargets, List.flatMap_cons, List.filterMap_append,
            List.nodup_append', List.disjoint_left, List.mem_append]
          cases hscan : scanInstrs labels b.label b.instrs defined with
          | error d =>
              constructor
              · intro hok
                cases hok
              · rintro ⟨⟨⟨_, hhandlers⟩, _⟩, ⟨hnodup, _, _⟩, hfresh⟩
                have hok : scanInstrs labels b.label b.instrs defined = .ok _ :=
                  scanInstrs_eq_ok_iff.2 ⟨hhandlers, by simpa [map_fst_definitionsOf] using hnodup,
                    fun t ht => hfresh t (.inl (by simpa [map_fst_definitionsOf] using ht)), rfl⟩
                rw [hok] at hscan
                cases hscan
          | ok defined' =>
              obtain ⟨hhandlers, hnodup, hfresh, rfl⟩ := scanInstrs_eq_ok_iff.1 hscan
              simp only [map_fst_definitionsOf, List.nodup_reverse, List.mem_reverse] at hnodup hfresh
              simp only [ih, List.map_append, map_fst_definitionsOf, List.mem_append,
                List.mem_reverse, not_or]
              constructor
              · rintro ⟨hrest, hnodup', hfresh'⟩
                refine ⟨⟨⟨hsucc, hhandlers⟩, hrest⟩, ⟨hnodup, hnodup', ?_⟩, ?_⟩
                · exact fun t ht ht' => (hfresh' t ht').1 ht
                · rintro t (ht | ht)
                  · exact hfresh t ht
                  · exact (hfresh' t ht).2
              · rintro ⟨⟨_, hrest⟩, ⟨_, hnodup', hdisjoint⟩, hfresh'⟩
                refine ⟨hrest, hnodup', fun t ht => ⟨?_, hfresh' t (.inr ht)⟩⟩
                exact fun ht' => hdisjoint ht' ht

/-! ## Functions and modules -/

/-- Validation accepts the well-formed functions and no others. -/
theorem Function.validate_eq_ok_iff (f : Function) : f.validate = .ok () ↔ f.WellFormed := by
  unfold Function.validate
  by_cases hblocks : f.blocks = []
  · simp only [hblocks, List.isEmpty_nil, if_true]
    constructor
    · intro hok
      cases hok
    · intro h
      exact absurd hblocks h.nonempty
  · have hempty : f.blocks.isEmpty = false := by simpa using hblocks
    simp only [hempty, Bool.false_eq_true, if_false]
    cases hrepeated : firstRepeated? [] (f.blocks.map Block.label) with
    | some l =>
        constructor
        · intro hok
          cases hok
        · intro h
          have hnone : firstRepeated? [] (f.blocks.map Block.label) = none :=
            firstRepeated?_eq_none_iff.2 ⟨h.labels, by simp⟩
          rw [hnone] at hrepeated
          cases hrepeated
    | none =>
        have hlabels := (firstRepeated?_eq_none_iff.1 hrepeated).1
        simp only [scanBlocks_eq_ok_iff, List.map_nil, List.not_mem_nil, not_false_eq_true,
          implies_true, and_true]
        constructor
        · rintro ⟨htargets, hdests⟩
          exact ⟨hblocks, hlabels, htargets, hdests⟩
        · intro h
          exact ⟨h.targets, h.dests⟩

theorem functionDefects_eq_nil_iff {i : Nat} {earlier : List String} {functions : List Function} :
    functionDefects i earlier functions = [] ↔
      (∀ f ∈ functions, f.WellFormed) ∧ (functions.map Function.name).Nodup ∧
      ∀ f ∈ functions, f.name ∉ earlier := by
  induction functions generalizing i earlier with
  | nil => simp [functionDefects]
  | cons f rest ih =>
      have htwice : (if earlier.contains f.name then [ModuleDefect.definedTwice f.name] else []) = [] ↔
          f.name ∉ earlier := by
        by_cases hmem : f.name ∈ earlier <;> simp [hmem]
      simp only [List.forall_mem_cons, List.map_cons, List.nodup_cons]
      unfold functionDefects
      cases hvalid : f.validate with
      | error d =>
          have hnot : ¬ f.WellFormed := by
            rw [← f.validate_eq_ok_iff, hvalid]
            intro hok
            cases hok
          simp [hnot]
      | ok u =>
          have hf : f.WellFormed := f.validate_eq_ok_iff.1 hvalid
          simp only [List.nil_append, List.append_eq_nil_iff, htwice, ih, List.mem_cons, not_or]
          constructor
          · rintro ⟨hearlier, hrest, hnodup, hfresh⟩
            refine ⟨⟨hf, hrest⟩, ⟨?_, hnodup⟩, hearlier, fun g hg => (hfresh g hg).2⟩
            intro hmem
            obtain ⟨g, hg, hname⟩ := List.mem_map.1 hmem
            exact (hfresh g hg).1 hname
          · rintro ⟨⟨_, hrest⟩, ⟨hnew, hnodup⟩, hearlier, hfresh⟩
            refine ⟨hearlier, hrest, hnodup, fun g hg => ⟨?_, hfresh g hg⟩⟩
            intro hname
            exact hnew (hname ▸ List.mem_map_of_mem hg)

/-- Validation accepts the modules of well-formed functions with distinct names. -/
theorem Module.isValid_iff (m : Module) :
    m.isValid ↔ (∀ f ∈ m.functions, f.WellFormed) ∧ (m.functions.map Function.name).Nodup := by
  unfold Module.isValid Module.defects
  rw [List.isEmpty_iff, functionDefects_eq_nil_iff]
  simp

end ProtoScript.Ir
