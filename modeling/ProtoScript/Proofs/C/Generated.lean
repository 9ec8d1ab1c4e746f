import ProtoScript.Proofs.C.Emitted
import ProtoScript.Proofs.Hierarchy.Declared

set_option autoImplicit false

/-!
# What generated C reads and declares

If C is generated, then the temporaries that are read in it are defined, but for those that are only printed, and
the functions outside the program are declared once for each name.
-/

namespace ProtoScript

/-!
## What is read in C

A module is accepted although it reads temporaries that no instruction defines. An operand whose type is looked
up must have one, and only what is defined does; so if C is generated, the operands that are not defined are
among those that are only printed (`defined_of_generate`).
-/

namespace C

open Ir

/-- The temporaries that a terminator reads and that are looked up. -/
def typedReads : Terminator → List Temp
  | .ret value => [value]
  | .branchIter iter _ _ => [iter]
  | _ => []

/-- The operands of an instruction that are written down without a look at what they are. -/
def printedOperands (m : Module) : Instr → List Temp
  | .binary _ _ _ right => [right]
  | .select _ cond _ _ => [cond]
  | .callStatic _ callee args =>
    match function? m callee with
    | some f => args.drop f.params.length
    | none => args
  | .callMethod _ receiver proto method args =>
    match methodBody? m proto method with
    | some body => args.drop body.params.tail.length
    | none => receiver :: args
  | .cloneObject _ src _ => [src]
  | .fieldGet _ object _ _ | .fieldSet object _ _ _ | .instanceOf _ object _ => [object]
  | .indexGet _ _ index | .indexSet _ index _ => [index]
  | .makeView _ _ start stop _ | .makeSlice _ _ start stop _ => [start, stop]
  | .listClear list => [list]
  | .mapHas _ _ key | .mapRemove _ key => [key]
  | .throw value => [value]
  | .check (.indexBounds _ index) => [index]
  | .check (.mapKey _ key) => [key]
  | .check condition => condition.operands
  | _ => []

/-- The temporaries that a terminator reads and that are written down without a look at what they are. -/
def printedReads : Terminator → List Temp
  | .branch cond _ _ => [cond]
  | _ => []

/-- The type of an operand is looked up or the operand is only printed. -/
theorem operands_perm (m : Module) (i : Instr) :
    i.operands.Perm (typedOperands m i ++ printedOperands m i) := by
  cases i with
  | select dest cond thenValue elseValue =>
      exact (List.perm_append_comm : ([cond] ++ [thenValue, elseValue]).Perm _)
  | callStatic dest callee args =>
      rw [typedOperands, printedOperands]
      cases function? m callee with
      | none => exact .refl _
      | some f =>
          dsimp only
          rw [List.take_append_drop]
          exact .refl _
  | callMethod dest receiver proto method args =>
      rw [typedOperands, printedOperands]
      cases methodBody? m proto method with
      | none => exact .refl _
      | some body =>
          dsimp only
          rw [List.cons_append, List.take_append_drop]
          exact .refl _
  | callForeign dest module function args ret => exact .of_eq (List.append_nil args).symm
  | makeList dest elem items => exact .of_eq (List.append_nil items).symm
  | makeMap dest key value entries => exact .of_eq (List.append_nil _).symm
  | fieldSet object proto field value => exact .swap _ _ _
  | indexSet object index value => exact .cons _ (.swap _ _ _)
  | check condition => cases condition <;> exact .refl _
  | _ => exact .refl _

theorem reads_perm (t : Terminator) : t.operands.Perm (typedReads t ++ printedReads t) := by
  cases t <;> exact .refl _

theorem temps_lookups (m : Module) (i : Instr) : (lookups m i).map Lookup.temp = typedOperands m i := by
  unfold lookups
  split
  · rfl
  · exact List.map_map.trans (List.map_id _)

theorem temps_endLookups (t : Terminator) : (endLookups t).map Lookup.temp = typedReads t := by
  cases t <;> rfl

/-- What is found is defined. -/
theorem mem_dests_of_found {m : Module} {f : Function} {T : FunctionTypes} (h : inferFunction m f = .ok T)
    {l : Lookup} (hl : l.Found T) : l.temp ∈ f.dests := by
  obtain ⟨_, hjustified, _⟩ := justified_of_inferFunction h
  cases l with
  | type t =>
      obtain ⟨ty, hty⟩ := Option.isSome_iff_exists.1 hl
      obtain ⟨i, hi, hdest, _⟩ := hjustified.temps hty
      exact List.mem_filterMap.2 ⟨i, hi, hdest⟩
  | loop t =>
      obtain ⟨it, hit⟩ := Option.isSome_iff_exists.1 hl
      obtain ⟨_, _, _, hi⟩ := hjustified.iterators hit
      exact List.mem_filterMap.2 ⟨_, hi, rfl⟩

/-- If C is generated for a module, then every operand whose type is looked up is defined in its function; what
an instruction or a terminator reads and nothing defines is only printed. -/
theorem defined_of_generate {m : Module} {withPrelude : Bool} {text : String}
    (h : generate m withPrelude = .ok text) : ∀ f ∈ m.functions, ∀ b ∈ f.blocks,
      (∀ i ∈ b.instrs, (∀ t ∈ typedOperands m i, t ∈ f.dests) ∧
        ∀ t ∈ i.operands, t ∉ f.dests → t ∈ printedOperands m i) ∧
      (∀ t ∈ typedReads b.terminator, t ∈ f.dests) ∧
        ∀ t ∈ b.terminator.operands, t ∉ f.dests → t ∈ printedReads b.terminator := by
  intro f hf b hb
  obtain ⟨hknown, _⟩ := of_generate h
  obtain ⟨T, hT, hreads⟩ := hknown f hf
  have hdefined : ∀ l ∈ blockLookups m b, l.temp ∈ f.dests := fun l hl =>
    mem_dests_of_found hT (hreads l (List.mem_flatMap.2 ⟨b, hb, hl⟩))
  have hinstr : ∀ i ∈ b.instrs, ∀ t ∈ typedOperands m i, t ∈ f.dests := by
    intro i hi t ht
    rw [← temps_lookups] at ht
    obtain ⟨l, hl, rfl⟩ := List.mem_map.1 ht
    exact hdefined l (List.mem_append_left _ (List.mem_flatMap.2 ⟨i, hi, hl⟩))
  have hend : ∀ t ∈ typedReads b.terminator, t ∈ f.dests := by
    intro t ht
    rw [← temps_endLookups] at ht
    obtain ⟨l, hl, rfl⟩ := List.mem_map.1 ht
    exact hdefined l (List.mem_append_right _ hl)
  refine ⟨fun i hi => ⟨hinstr i hi, fun t ht hnot => ?_⟩, hend, fun t ht hnot => ?_⟩
  · rcases List.mem_append.1 ((operands_perm m i).mem_iff.1 ht) with htyped | hprinted
    · exact absurd (hinstr i hi t htyped) hnot
    · exact hprinted
  · rcases List.mem_append.1 ((reads_perm _).mem_iff.1 ht) with htyped | hprinted
    · exact absurd (hend t htyped) hnot
    · exact hprinted

/-- A sum whose right operand nothing defines. -/
def danglingSum : Function :=
  { name := "f", params := [], ret := .int, blocks :=
      [⟨"entry", [.const 0 (.int 1), .binary 1 .add 0 7], .ret 1⟩] }

/-- C is generated for the sum. -/
theorem defined_of_generate_danglingSum :
    ∃ text, generate ⟨"m", [danglingSum], []⟩ false = .ok text ∧
      7 ∈ danglingSum.instrs.flatMap Instr.operands ∧ 7 ∉ danglingSum.dests ∧
      7 ∈ printedOperands ⟨"m", [danglingSum], []⟩ (.binary 1 .add 0 7) := by
  have hT : inferFunction ⟨"m", [danglingSum], []⟩ danglingSum =
      .ok { temps := [(0, .int), (1, .int)] } := rfl
  have haccepted : ∃ text, generate ⟨"m", [danglingSum], []⟩ false = .ok text := by
    rw [generate, moduleLines, emitFunctions, emitFunction_eq hT (sortTemps_pair _ _) sortTemps_nil localVariables_nil]
    exact ⟨_, rfl⟩
  obtain ⟨text, htext⟩ := haccepted
  have hnot : 7 ∉ danglingSum.dests := by decide
  obtain ⟨hinstrs, _⟩ := defined_of_generate htext danglingSum List.mem_cons_self _ List.mem_cons_self
  obtain ⟨_, hprinted⟩ := hinstrs (.binary 1 .add 0 7) (List.mem_of_getElem? (show _[1]? = some _ from rfl))
  exact ⟨text, htext, by decide, hnot, hprinted 7 (List.mem_of_getElem? (show _[1]? = some _ from rfl)) hnot⟩

end C

/-!
## Functions outside the program

A function outside the program is declared for its first call, with the types of the arguments there. There is
one declaration for each C name in the whole file, and every call finds that of the first call of its name
(`externs_of_generate`). Nothing converts the arguments of a later call to the types of the first, so all calls
fit their declarations only if calls of one C name have the same C types.
-/

namespace C

open Ir

/-- The calls out of the program in a module, in order, with the types that are inferred. -/
def foreignSites (m : Module) : List ForeignSite := m.functions.flatMap (sitesOf m)

/-- The calls for which functions outside the program are declared: the first of each name. -/
def externs (m : Module) : List ForeignSite := (firstOfEachName ForeignSite.name [] (foreignSites m)).1

/-- A call has the C types of another: of the result and, one by one, of the arguments. -/
structure ForeignSite.Fits (s e : ForeignSite) : Prop where
  ret : spell s.ret = spell e.ret
  args : s.args.map spell = e.args.map spell

/-- What is declared in the end, behind what was declared before. -/
theorem foldl_declare (known : List (String × String)) (sites : List ForeignSite) :
    sites.foldl declare known = known ++
      (firstOfEachName ForeignSite.name (known.map Prod.fst) sites).1.map fun s => (s.name, s.declaration) := by
  induction sites generalizing known with
  | nil => exact (List.append_nil _).symm
  | cons s rest ih =>
      rw [List.foldl_cons, ih, declare]
      by_cases hs : s.name ∈ known.map Prod.fst
      · rw [if_pos (isSome_lookup_iff.2 hs), firstOfEachName_cons_of_mem hs]
      · rw [if_neg (mt isSome_lookup_iff.1 hs), firstOfEachName_cons_of_not_mem hs, List.map_cons,
          List.append_assoc, List.singleton_append]
        have htaken : ∀ x, x ∈ (known ++ [(s.name, s.declaration)]).map Prod.fst ↔
            x ∈ s.name :: known.map Prod.fst := by
          simp [or_comm]
        rw [firstOfEachName_congr htaken]

theorem map_declarations (m : Module) : ((foreignSites m).foldl declare []).map (·.2) =
    (externs m).map ForeignSite.declaration := by
  rw [foldl_declare, List.nil_append, List.map_map]
  rfl

/-- Where all are known, the types that are looked up are all there. -/
theorem map_temp?_of_isSome {T : FunctionTypes} {ts : List Temp} (h : ∀ t ∈ ts, (T.temp? t).isSome) :
    ts.map T.temp? = (ts.filterMap T.temp?).map some := by
  induction ts with
  | nil => rfl
  | cons t rest ih =>
      obtain ⟨ht, hrest⟩ := List.forall_mem_cons.1 h
      obtain ⟨ty, hty⟩ := Option.isSome_iff_exists.1 ht
      rw [List.map_cons, List.filterMap_cons_some hty, List.map_cons, hty, ih hrest]

/-- The first call of a name is what declares it, and nothing else of that name is declared. -/
theorem find?_externs {m : Module} {name : String} {e : ForeignSite}
    (h : (foreignSites m).find? (·.name == name) = some e) :
    e ∈ externs m ∧ e.name = name ∧ ∀ e' ∈ externs m, e'.name = name → e' = e := by
  have hfind : (externs m).find? (·.name == name) = some e := (find?_firstOfEachName List.not_mem_nil).trans h
  have hmem : e ∈ externs m := List.mem_of_find?_eq_some hfind
  have hname : e.name = name := by simpa using List.find?_some hfind
  have hnodup : ((externs m).map ForeignSite.name).Nodup := nodup_firstOfEachName
  exact ⟨hmem, hname, fun e' he' hname' => List.inj_on_of_nodup_map hnodup he' hmem (hname'.trans hname.symm)⟩

theorem declaresForeign_declaration (s : ForeignSite) : declaresForeign s.declaration := by
  have hdeclaration : s.declaration =
      "extern " ++ (spell s.ret ++ " " ++ s.name ++ "(" ++ paramList (s.args.map spell) ++ ");") := by
    simp only [ForeignSite.declaration, String.append_assoc]
  rw [declaresForeign, List.isPrefixOf_iff_prefix, hdeclaration, String.toList_append]
  exact List.prefix_append _ _

/-- Of the lines of a file those that declare something outside the program are what is left of plain lines. -/
theorem filter_declaresForeign {before behind : Lines} {sites : List ForeignSite} (hbefore : AllPlain before)
    (hbehind : AllPlain behind) :
    (before ++ sites.map ForeignSite.declaration ++ behind).filter declaresForeign =
      sites.map ForeignSite.declaration := by
  have hplain : ∀ lines, AllPlain lines → lines.filter declaresForeign = [] := fun lines hlines =>
    List.filter_eq_nil_iff.2 fun line hline => by rw [hlines line hline]; exact Bool.false_ne_true
  rw [List.filter_append, List.filter_append, hplain before hbefore, hplain behind hbehind, List.nil_append,
    List.append_nil]
  exact List.filter_eq_self.2 (List.forall_mem_map.2 fun s _ => declaresForeign_declaration s)

/-- What is said of the calls and declarations of a module for which C is generated. The lines of the file that
declare functions outside the program are those of `externs`. Every call has the name and the inferred types of
an instruction; the declaration of its name is that of the first such call, and there is no other. So all calls
fit their declarations exactly if any two calls of one name fit each other. -/
theorem externs_of_generate {m : Module} {withPrelude : Bool} {text : String}
    (h : generate m withPrelude = .ok text) :
    (∃ lines, text = Lines.text lines ∧
        lines.filter declaresForeign = (externs m).map ForeignSite.declaration) ∧
      (∀ f ∈ m.functions, ∃ T, inferFunction m f = .ok T ∧
        ∀ dest module function args ret, .callForeign dest module function args ret ∈ f.instrs →
          ∃ s ∈ foreignSites m, s.name = foreignName module function ∧ s.ret = ret ∧
            args.map T.temp? = s.args.map some) ∧
      ((externs m).map ForeignSite.name).Nodup ∧
      (∀ s ∈ foreignSites m, ∃ e ∈ externs m, e.name = s.name ∧
        (∀ e' ∈ externs m, e'.name = s.name → e' = e) ∧
        (foreignSites m).find? (·.name == s.name) = some e) ∧
      ((∀ s ∈ foreignSites m, ∀ e ∈ externs m, e.name = s.name → s.Fits e) ↔
        ∀ s ∈ foreignSites m, ∀ s' ∈ foreignSites m, s.name = s'.name → s.Fits s') := by
  obtain ⟨hknown, before, behind, hbefore, hbehind, htext⟩ := of_generate h
  have hdeclared : ∀ s ∈ foreignSites m, ∃ e ∈ externs m, e.name = s.name ∧
      (∀ e' ∈ externs m, e'.name = s.name → e' = e) ∧
      (foreignSites m).find? (·.name == s.name) = some e := by
    intro s hs
    have hsome : ((foreignSites m).find? (·.name == s.name)).isSome :=
      List.find?_isSome.2 ⟨s, hs, beq_self_eq_true _⟩
    obtain ⟨e, he⟩ := Option.isSome_iff_exists.1 hsome
    obtain ⟨hmem, hname, hunique⟩ := find?_externs he
    exact ⟨e, hmem, hname, hunique, he⟩
  refine ⟨⟨_, ?_, filter_declaresForeign hbefore hbehind⟩, fun f hf => ?_, nodup_firstOfEachName, hdeclared, fun hfits s hs s' hs' hname => ?_,
    fun hfits s hs e he hname => ?_⟩
  · rw [htext, ← map_declarations]
    rfl
  · obtain ⟨T, hT, hreads⟩ := hknown f hf
    refine ⟨T, hT, fun dest module function args ret hi => ?_⟩
    have hsite : ⟨foreignName module function, ret, args.filterMap T.temp?⟩ ∈ sitesOf m f := by
      rw [sitesOf, hT]
      exact List.mem_filterMap.2 ⟨_, hi, rfl⟩
    refine ⟨_, List.mem_flatMap.2 ⟨f, hf, hsite⟩, rfl, rfl, map_temp?_of_isSome fun t ht => ?_⟩
    obtain ⟨b, hb, hi⟩ := List.mem_flatMap.1 hi
    have hlookup : .type t ∈ lookups m (.callForeign dest module function args ret) := List.mem_map_of_mem ht
    exact hreads (.type t) (List.mem_flatMap.2 ⟨b, hb,
      List.mem_append_left _ (List.mem_flatMap.2 ⟨_, hi, hlookup⟩)⟩)
  · obtain ⟨e, he, hename, _⟩ := hdeclared s hs
    have hse : s.Fits e := hfits s hs e he hename
    have hse' : s'.Fits e := hfits s' hs' e he (hename.trans hname)
    exact ⟨hse.ret.trans hse'.ret.symm, hse.args.trans hse'.args.symm⟩
  · exact hfits s hs e (mem_of_firstOfEachName he).1 hname.symm

/-- Shows an object of one prototype and then one of another. -/
def showBoth : Function :=
  { name := "f", params := [], ret := .void, blocks :=
      [⟨"entry", [.newObject 0 "A", .callForeign none "m" "show" [0] .void, .newObject 1 "B",
        .callForeign none "m" "show" [1] .void], .retVoid⟩] }

/-- The module of the function, with the two prototypes. -/
def showModule : Module := ⟨"main", [showBoth], [⟨"A", 0, none, []⟩, ⟨"B", 1, none, []⟩]⟩

/-- The call that shows an object of a prototype. -/
def shown (proto : String) : ForeignSite := ⟨"psx_m_show", .void, [.named proto]⟩

/-- C is generated, and the second object is passed where the first one is declared. -/
theorem externs_of_generate_showModule : ∃ text, generate showModule false = .ok text ∧
    externs showModule = [shown "A"] ∧ foreignSites showModule = [shown "A", shown "B"] ∧
    ¬ ∀ s ∈ foreignSites showModule, ∀ e ∈ externs showModule, e.name = s.name → s.Fits e := by
  have hT : inferFunction showModule showBoth =
      .ok { temps := [(0, .named "A"), (1, .named "B")] } := rfl
  have haccepted : ∃ text, generate showModule false = .ok text := by
    rw [generate, moduleLines, showModule, emitFunctions, ← showModule,
      emitFunction_eq hT (sortTemps_pair _ _) sortTemps_nil localVariables_nil]
    exact ⟨_, rfl⟩
  obtain ⟨text, htext⟩ := haccepted
  have hsites : foreignSites showModule = [shown "A", shown "B"] := rfl
  refine ⟨text, htext, rfl, hsites, fun hall => ?_⟩
  obtain ⟨_, _, _, _, hfits⟩ := externs_of_generate htext
  have hsame : (shown "A").Fits (shown "B") := by
    refine hfits.1 hall _ ?_ _ ?_ rfl
    · simp [hsites]
    · simp [hsites]
  exact absurd hsame.args (by decide)

end C

end ProtoScript
