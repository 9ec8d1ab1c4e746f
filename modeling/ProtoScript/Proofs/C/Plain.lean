import ProtoScript.C.Module
import ProtoScript.Proofs.Machine.Basic

set_option autoImplicit false

/-!
# Lines that declare nothing outside the program

Of the lines of a generated file only the declarations of functions outside the program begin with `extern`.
The others are empty, are indented or begin with a fixed text that is another one (`Starts`). Here this is shown
for the lines that are there whatever the functions of the module are.
-/

namespace ProtoScript

namespace C

open Ir

/-- The line declares a function outside the program. -/
def declaresForeign (line : String) : Bool := "extern ".toList.isPrefixOf line.toList

/-- The line does not declare a function outside the program. -/
def Plain (line : String) : Prop := declaresForeign line = false

/-- No line declares a function outside the program. -/
def AllPlain (lines : Lines) : Prop := ∀ line ∈ lines, Plain line

/-- The text begins with a character that does not begin `extern`. -/
def Starts (text : String) : Prop := ∃ ch ≠ 'e', text.toList.head? = some ch

section

variable {head : String} {lines lines' : Lines}

theorem starts_text {ch : Char} {rest : List Char} (h : ch ≠ 'e') : Starts (String.ofList (ch :: rest)) :=
  ⟨ch, h, by rw [String.toList_ofList, List.head?_cons]⟩

theorem Starts.append (h : Starts head) (rest : String) : Starts (head ++ rest) := by
  obtain ⟨ch, hch, hhead⟩ := h
  exact ⟨ch, hch, by rw [String.toList_append, List.head?_append, hhead, Option.some_or]⟩

theorem Starts.plain (h : Starts head) : Plain head := by
  obtain ⟨ch, hch, hhead⟩ := h
  obtain ⟨rest, hrest⟩ : ∃ rest, head.toList = ch :: rest := List.head?_eq_some_iff.1 hhead
  have hextern : "extern ".toList = 'e' :: "xtern ".toList := by decide
  show "extern ".toList.isPrefixOf head.toList = false
  rw [hrest, hextern, List.isPrefixOf_cons_cons, beq_false_of_ne hch.symm, Bool.false_and]

@[simp] theorem plain_empty : Plain "" := rfl

@[simp] theorem plain_brace : Plain "\x7d" := (starts_text (by decide)).plain

@[simp] theorem plain_indent (text : String) : Plain (indent text) := ((starts_text (by decide)).append _).plain

@[simp] theorem plain_closing (behind : String) : Plain ("\x7d" ++ behind) :=
  ((starts_text (by decide)).append _).plain

@[simp] theorem allPlain_nil : AllPlain [] := nofun

@[simp] theorem allPlain_cons {line : String} : AllPlain (line :: lines) ↔ Plain line ∧ AllPlain lines :=
  List.forall_mem_cons

@[simp] theorem allPlain_append : AllPlain (lines ++ lines') ↔ AllPlain lines ∧ AllPlain lines' :=
  List.forall_mem_append

@[simp] theorem allPlain_indent (body : Lines) : AllPlain (body.map indent) := by
  intro line hline
  obtain ⟨text, _, rfl⟩ := List.mem_map.1 hline
  exact plain_indent text

/-- Of a block only the head is not indented. -/
theorem allPlain_blockThen (h : Starts head) (body : Lines) (behind : String) :
    AllPlain (blockThen head body behind) := by
  simp [blockThen, (h.append _).plain]

theorem allPlain_block (h : Starts head) (body : Lines) : AllPlain (block head body) := by
  simp [block, (h.append _).plain]

/-! ## Run-time support -/

theorem allPlain_intercalate {parts : List Lines} (h : ∀ part ∈ parts, AllPlain part) :
    AllPlain ([""].intercalate parts) := by
  induction parts with
  | nil => exact allPlain_nil
  | cons part rest ih =>
      obtain ⟨hpart, hrest⟩ := List.forall_mem_cons.1 h
      cases rest with
      | nil =>
          rw [List.intercalate_singleton]
          exact hpart
      | cons next rest =>
          rw [List.intercalate_cons_cons]
          have hgap : AllPlain [""] := List.forall_mem_singleton.2 plain_empty
          exact allPlain_append.2 ⟨allPlain_append.2 ⟨hpart, hgap⟩, ih hrest⟩

theorem allPlain_checkFunction (name params condition code message : String) :
    AllPlain (checkFunction name params condition code message) := by
  have hstatic : Starts "static void " := starts_text (by decide)
  exact allPlain_block (by simp [hstatic, Starts.append, String.append_assoc]) _

theorem allPlain_conversion (ret name param condition message : String) :
    AllPlain (conversion ret name param condition message) := by
  have hstatic : Starts "static " := starts_text (by decide)
  exact allPlain_block (by simp [hstatic, Starts.append, String.append_assoc]) _

theorem plain_shortFunction (h : Starts head) (body : String) : Plain (shortFunction head body) :=
  ((h.append _).append _).plain

theorem allPlain_preludeText : AllPlain preludeText := by
  refine allPlain_intercalate ?_
  simp only [preludeTypes, preludeMemory, preludeChecks, preludeNumbers, preludeStrings, preludePrinting,
    List.forall_mem_append, List.forall_mem_cons, List.map_cons, List.map_nil, allPlain_cons, allPlain_nil,
    allPlain_checkFunction, allPlain_conversion, List.not_mem_nil, false_imp_iff, implies_true, true_and, and_true]
  repeat' apply And.intro
  all_goals with_reducible first
    | exact allPlain_block (starts_text (by decide)) _
    | exact allPlain_blockThen (starts_text (by decide)) _ _
    | exact plain_shortFunction (starts_text (by decide)) _
    | exact (starts_text (by decide)).plain
    | exact (((starts_text (by decide)).append _).append _).plain

/-! ## Types -/

theorem plain_structType (name fields : String) : Plain (structType name fields) := by
  unfold structType
  have htypedef : Starts "typedef struct " := starts_text (by decide)
  simp [htypedef, Starts.append, Starts.plain, String.append_assoc]

theorem allPlain_listText (n e : String) : AllPlain (listText n e) := by
  have hstatic : Starts "static " := starts_text (by decide)
  have hvoid : Starts "static void " := starts_text (by decide)
  refine allPlain_cons.2 ⟨plain_structType _ _, ?_⟩
  simp [hstatic, hvoid, allPlain_block, Starts.append, String.append_assoc]

theorem allPlain_windowText (n e : String) : AllPlain (windowText n e) :=
  allPlain_cons.2 ⟨plain_structType _ _, List.forall_mem_singleton.2 plain_empty⟩

theorem allPlain_mapText (n k v eq : String) : AllPlain (mapText n k v eq) := by
  have hstatic : Starts "static " := starts_text (by decide)
  have hvoid : Starts "static void " := starts_text (by decide)
  have hint : Starts "static int64_t " := starts_text (by decide)
  have hbool : Starts "static bool " := starts_text (by decide)
  refine allPlain_cons.2 ⟨plain_structType _ _, ?_⟩
  simp [hstatic, hvoid, hint, hbool, allPlain_block, Starts.append, Starts.plain, String.append_assoc]

theorem allPlain_containerText (t : Ty) : AllPlain (containerText t) := by
  cases t with
  | prim p => exact allPlain_nil
  | named name => exact allPlain_nil
  | list e => exact allPlain_listText _ _
  | view e => exact allPlain_windowText _ _
  | slice e => exact allPlain_windowText _ _
  | map k v => exact allPlain_mapText _ _ _ _

theorem allPlain_containers (known : Containers) : AllPlain known.text := by
  intro line hline
  obtain ⟨t, _, hline⟩ := List.mem_flatMap.1 hline
  exact allPlain_containerText t line hline

theorem plain_table (ty name : String) (entries : List String) : Plain (table ty name entries) := by
  unfold table
  have hstatic : Starts "static const " := starts_text (by decide)
  simp [hstatic, Starts.append, Starts.plain, String.append_assoc]

theorem allPlain_tableLines {m : Module} (h : tableLines m = .ok lines) : AllPlain lines := by
  obtain ⟨parents, _, h⟩ := bind_eq_ok.1 h
  cases h
  have hname : Starts "static const char* ps_proto_name(int32_t id)" := starts_text (by decide)
  have hinstance : Starts "static bool ps_instance_of(void* object, int32_t proto_id)" := starts_text (by decide)
  simp [plain_table, allPlain_block, hname, hinstance]

theorem allPlain_defaultLines (m : Module) : AllPlain (defaultLines m) := by
  unfold defaultLines
  refine allPlain_append.2 ⟨allPlain_append.2 ⟨allPlain_append.2 ⟨?_, ?_⟩, ?_⟩, ?_⟩
  · split
    · exact allPlain_append.2 ⟨allPlain_block (starts_text (by decide)) _, allPlain_block (starts_text (by decide)) _⟩
    · exact allPlain_nil
  · split
    · exact allPlain_block (starts_text (by decide)) _
    · exact allPlain_nil
  · exact allPlain_block (starts_text (by decide)) _
  · exact List.forall_mem_singleton.2 plain_empty

theorem allPlain_mainLines (m : Module) : AllPlain (mainLines m) := by
  unfold mainLines
  split
  · exact allPlain_nil
  · split
    · exact allPlain_nil
    · exact allPlain_block (starts_text (by decide)) _

end

end C

end ProtoScript
