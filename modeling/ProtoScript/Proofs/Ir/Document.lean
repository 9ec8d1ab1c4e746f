import ProtoScript.Proofs.Ir.Decoded
import ProtoScript.Proofs.Json.Finite
import ProtoScript.Proofs.Json.RoundTrip

set_option autoImplicit false

/-!
# Documents

The document of a well-formed module is decoded as the module, and its text is read as the document if
the text of every float of the module is read as that float. Whatever is read is a well-formed module
whose floats are finite, so it can be written and read again.
-/

namespace ProtoScript.Ir

/-! ## The value of a document -/

theorem Instr.opcode_mem (i : Instr) : i.opcode ∈ instrOpcodes := by
  cases i with
  | check c => cases c <;> simp [Instr.opcode, Check.opcode, instrOpcodes]
  | _ => simp [Instr.opcode, instrOpcodes]

theorem Terminator.opcode_mem (t : Terminator) : t.opcode ∈ terminatorOpcodes := by
  cases t <;> simp [Terminator.opcode, terminatorOpcodes]

/-- The opcode that is looked at first is the one that is decoded. -/
theorem textAt_of_tagged {entries : Json.Fields} {rest : Json} {tag op : String}
    (h : (Json.obj entries).tagged? tag = some (op, rest)) : textAt (.obj entries) tag "" = op := by
  obtain ⟨kind, hkind, hrest⟩ := Option.bind_eq_some_iff.1 h
  cases hrest
  rw [textAt, Json.get?, hkind]
  rfl

theorem textAt_op_instr (i : Instr) : textAt i.toJson "op" "" = i.opcode :=
  textAt_of_tagged (tagged?_toJson i)

theorem textAt_op_terminator (t : Terminator) : textAt t.toJson "op" "" = t.opcode :=
  textAt_of_tagged (tagged?_terminator t)

/-- The opcodes of a written block are known. -/
theorem unknownInBlock?_toJson (b : Block) : unknownInBlock? b.toJson = none := by
  have hitems : itemsAt b.toJson "instructions" = b.instrs.map Instr.toJson := by
    simp [itemsAt, Block.toJson, Json.get?, Json.lastUnder?, Json.arr?]
  have hlast : b.toJson.get? "terminator" = some b.terminator.toJson := by
    simp [Block.toJson, Json.get?, Json.lastUnder?]
  have hops : ((b.instrs.map Instr.toJson).map fun i => textAt i "op" "") =
      b.instrs.map Instr.opcode := by
    simp [textAt_op_instr]
  have hknown : (b.instrs.map Instr.opcode).find? (fun op => !instrOpcodes.contains op) = none := by
    simp [List.find?_eq_none, Instr.opcode_mem]
  simp only [unknownInBlock?, hitems, hops, hknown, hlast]
  simp [textAt_op_terminator, Terminator.opcode_mem]

theorem unknownOpcode?_toDocument (m : Module) : unknownOpcode? m.toDocument = none := by
  have hfunctions : itemsAt ((m.toDocument.get? "module").getD .null) "functions" =
      m.functions.map Function.toJson := by
    simp [Module.toDocument, Module.toJson, itemsAt, Json.get?, Json.lastUnder?, Json.arr?]
  have hblocks : ∀ f : Function, itemsAt f.toJson "blocks" = f.blocks.map Block.toJson := by
    intro f
    simp [Function.toJson, itemsAt, Json.get?, Json.lastUnder?, Json.arr?]
  simp only [unknownOpcode?, hfunctions, List.findSome?_eq_none_iff, List.mem_map]
  rintro _ ⟨f, -, rfl⟩
  rw [hblocks]
  simp only [List.mem_map]
  rintro _ ⟨b, -, rfl⟩
  rw [unknownInBlock?_toJson]
  rfl

/-- The document of a well-formed module is decoded. -/
theorem Module.ofDocument_toDocument {m : Module} (h : m.isValid = true)
    (hn : ∀ n ∈ m.numbers, IsWord n) (ht : ∀ t ∈ m.tys, Ty.parse t.render = .ok t) :
    Module.ofDocument m.toDocument = .ok m := by
  have hformat : textAt m.toDocument "format" "" = formatName := by
    simp [Module.toDocument, textAt, Json.get?, Json.lastUnder?, Json.str?]
  have hversion : ((m.toDocument.get? "ir_version").bind (Json.natBelow? UInt64.size)).getD 0 =
      formatVersion := by
    have hget : m.toDocument.get? "ir_version" = some (.ofNat formatVersion) := by
      simp [Module.toDocument, Json.get?, Json.lastUnder?]
    rw [hget, Option.bind_some, Json.natBelow?_ofNat (by decide)]
    rfl
  have hmodule : (m.toDocument.get? "module").bind Module.ofJson? = some m := by
    have hget : m.toDocument.get? "module" = some m.toJson := by
      simp [Module.toDocument, Json.get?, Json.lastUnder?]
    rw [hget, Option.bind_some, m.ofJson?_toJson hn ht]
  rw [Module.ofDocument, hformat, hversion, unknownOpcode?_toDocument, hmodule]
  simp only [ne_eq, not_true_eq_false, if_false, h, if_true]
  rfl

/-! ## The text of a document -/

section Exact

variable {depth : Nat}

theorem exact_ofNat {n : Nat} (h : IsWord n) : Json.Within Json.Exact depth (.ofNat n) := by
  have hn : n < 2 ^ 32 := h
  have hexact : Json.Exact (.int n) := ⟨by omega, by omega⟩
  simpa [Json.ofNat, Json.Within] using hexact

theorem exact_str (s : String) : Json.Within Json.Exact depth (.str s) := by
  simp [Json.Within, Json.Exact]

theorem exact_tempJson {t : Temp} (h : IsWord t) : Json.Within Json.Exact depth (tempJson t) :=
  exact_ofNat h

theorem exact_tyJson (t : Ty) : Json.Within Json.Exact depth (tyJson t) := exact_str t.render

theorem exact_tempsJson {ts : List Temp} (h : ∀ t ∈ ts, IsWord t) :
    Json.Within Json.Exact (depth + 1) (tempsJson ts) := by
  rw [tempsJson, Json.within_arr]
  intro j hj
  obtain ⟨t, ht, rfl⟩ := List.mem_map.1 hj
  exact exact_tempJson (h t ht)

theorem exact_destJson {dest? : Option Temp} (h : ∀ t ∈ dest?.toList, IsWord t) :
    Json.Within Json.Exact depth (.ofOption tempJson dest?) := by
  cases dest? with
  | none => simp [Json.ofOption, Json.Within, Json.Exact]
  | some t => exact exact_tempJson (h t (by simp))

theorem exact_pairsJson {es : List (Temp × Temp)} (h : ∀ e ∈ es, IsWord e.1 ∧ IsWord e.2) :
    Json.Within Json.Exact (depth + 2)
      (.arr (es.map fun e => .arr [tempJson e.1, tempJson e.2])) := by
  rw [Json.within_arr]
  intro j hj
  obtain ⟨e, he, rfl⟩ := List.mem_map.1 hj
  simp [exact_tempJson (h e he).1, exact_tempJson (h e he).2]

theorem exact_constantJson {c : Constant} (h : ∀ x, c = .float x → Json.ReadsBack x) :
    Json.Within Json.Exact (depth + 1) (constantJson c) := by
  cases c with
  | byte v =>
      have hv : IsWord v.toNat := Nat.lt_trans v.toNat_lt (by decide)
      simp [constantJson, exact_ofNat hv]
  | int v =>
      have hexact : Json.Exact (.int v.toInt) := ⟨v.le_toInt, Int.lt_trans v.toInt_lt (by decide)⟩
      simpa [constantJson, Json.Within] using hexact
  | float x =>
      have hexact : Json.Exact (.float x) := h x rfl
      simpa [constantJson, Json.Within] using hexact
  | _ => simp [constantJson, Json.Within, Json.Exact]

theorem exact_check {c : Check} (hn : ∀ n ∈ (Instr.check c).numbers, IsWord n) :
    ∀ e ∈ c.fields, Json.Within Json.Exact depth e.2 := by
  cases c <;> simp only [Instr.numbers, Instr.dest?, Instr.operands, Check.operands, Instr.widths,
    Check.widths, Option.toList_none, List.forall_mem_cons, List.cons_append, List.nil_append] at hn
  all_goals simp [Check.fields, exact_tempJson, exact_tyJson, exact_str, exact_ofNat, hn]

theorem exact_fields {i : Instr} (hn : ∀ n ∈ i.numbers, IsWord n)
    (hx : ∀ x ∈ i.floats, Json.ReadsBack x) :
    ∀ e ∈ i.fields, Json.Within Json.Exact (depth + 2) e.2 := by
  cases i
  case check c => exact exact_check hn
  all_goals
    simp only [Instr.numbers, Instr.dest?, Instr.operands, Instr.widths, Option.toList_some,
      Option.toList_none, List.forall_mem_cons, List.forall_mem_append, List.cons_append,
      List.nil_append, List.append_nil] at hn
  case const dest value =>
    have hvalue : ∀ x, value = .float x → Json.ReadsBack x := by
      rintro x rfl
      exact hx x (by simp [Instr.floats])
    simp [Instr.fields, exact_tempJson hn.1, exact_constantJson hvalue]
  case callStatic =>
    simp [Instr.fields, exact_str, exact_destJson hn.1, exact_tempsJson hn.2]
  case callMethod =>
    simp [Instr.fields, exact_str, exact_tempJson hn.2.1, exact_destJson hn.1,
      exact_tempsJson hn.2.2]
  case callForeign =>
    simp [Instr.fields, exact_str, exact_tyJson, exact_destJson hn.1, exact_tempsJson hn.2]
  case makeList => simp [Instr.fields, exact_tempJson hn.1, exact_tyJson, exact_tempsJson hn.2]
  case makeMap dest key value entries =>
    have hentries : ∀ e ∈ entries, IsWord e.1 ∧ IsWord e.2 := fun e he =>
      ⟨hn.2 e.1 (List.mem_flatMap.2 ⟨e, he, by simp⟩),
        hn.2 e.2 (List.mem_flatMap.2 ⟨e, he, by simp⟩)⟩
    have hpairs := @exact_pairsJson depth _ hentries
    simpa [Instr.fields, exact_tempJson hn.1, exact_tyJson] using hpairs
  all_goals simp [Instr.fields, exact_tempJson, exact_tyJson, exact_str, hn]

theorem exact_instr {i : Instr} (hn : ∀ n ∈ i.numbers, IsWord n)
    (hx : ∀ x ∈ i.floats, Json.ReadsBack x) :
    Json.Within Json.Exact (depth + 3) i.toJson := by
  rw [Instr.toJson, Json.within_obj]
  exact List.forall_mem_cons.2 ⟨exact_str _, exact_fields hn hx⟩

theorem exact_terminator {t : Terminator} (hn : ∀ n ∈ t.operands, IsWord n) :
    Json.Within Json.Exact (depth + 1) t.toJson := by
  rw [Terminator.toJson, Json.within_obj]
  refine List.forall_mem_cons.2 ⟨exact_str _, ?_⟩
  cases t <;> simp only [Terminator.operands, List.forall_mem_cons] at hn <;>
    simp [Terminator.fields, exact_tempJson, exact_str, hn]

theorem exact_block {b : Block} (hn : ∀ n ∈ b.numbers, IsWord n)
    (hx : ∀ x ∈ b.floats, Json.ReadsBack x) :
    Json.Within Json.Exact (depth + 5) b.toJson := by
  have hinstrs : ∀ i ∈ b.instrs, Json.Within Json.Exact (depth + 3) i.toJson :=
    fun i hi => exact_instr
      (fun n h => hn n (List.mem_append_left _ (List.mem_flatMap.2 ⟨i, hi, h⟩)))
      (fun x h => hx x (List.mem_flatMap.2 ⟨i, hi, h⟩))
  have hterminator : Json.Within Json.Exact (depth + 4) b.terminator.toJson :=
    exact_terminator fun n h => hn n (List.mem_append_right _ h)
  simpa [Block.toJson, exact_str] using ⟨hinstrs, hterminator⟩

theorem exact_typed (name : String) (t : Ty) :
    Json.Within Json.Exact (depth + 1) (typedJson name t) := by
  simp [typedJson, exact_str, exact_tyJson]

theorem exact_function {f : Function} (hn : ∀ n ∈ f.numbers, IsWord n)
    (hx : ∀ x ∈ f.floats, Json.ReadsBack x) :
    Json.Within Json.Exact (depth + 7) f.toJson := by
  have hparams : ∀ p ∈ f.params, Json.Within Json.Exact (depth + 5) (typedJson p.name p.ty) :=
    fun p _ => exact_typed p.name p.ty
  have hblocks : ∀ b ∈ f.blocks, Json.Within Json.Exact (depth + 5) b.toJson :=
    fun b hb => exact_block (fun n h => hn n (List.mem_flatMap.2 ⟨b, hb, h⟩))
      (fun x h => hx x (List.mem_flatMap.2 ⟨b, hb, h⟩))
  simpa [Function.toJson, exact_str, exact_tyJson] using ⟨hparams, hblocks⟩

theorem exact_layout {l : Layout} (hn : IsWord l.id) :
    Json.Within Json.Exact (depth + 3) l.toJson := by
  have hfields : ∀ f ∈ l.fields, Json.Within Json.Exact (depth + 1) (typedJson f.name f.ty) :=
    fun f _ => exact_typed f.name f.ty
  have hparent : Json.Within Json.Exact (depth + 2) (.ofOption .str l.parent) := by
    cases l.parent <;> simp [Json.ofOption, Json.Within, Json.Exact]
  simpa [Layout.toJson, exact_str, exact_ofNat hn] using ⟨hparent, hfields⟩

/-- Every scalar of the document of a module is read back if every float of the module is. -/
theorem exact_toDocument {m : Module} (hn : ∀ n ∈ m.numbers, IsWord n)
    (hx : ∀ x ∈ m.floats, Json.ReadsBack x) :
    Json.Within Json.Exact (depth + 10) m.toDocument := by
  have hfunctions : ∀ f ∈ m.functions, Json.Within Json.Exact (depth + 7) f.toJson :=
    fun f hf => exact_function
      (fun n h => hn n (List.mem_append_left _ (List.mem_flatMap.2 ⟨f, hf, h⟩)))
      (fun x h => hx x (List.mem_flatMap.2 ⟨f, hf, h⟩))
  have hlayouts : ∀ l ∈ m.layouts, Json.Within Json.Exact (depth + 7) l.toJson :=
    fun l hl => exact_layout (hn l.id (List.mem_append_right _ (List.mem_map.2 ⟨l, hl, rfl⟩)))
  have hmodule : Json.Within Json.Exact (depth + 9) m.toJson := by
    simpa [Module.toJson, exact_str] using ⟨hfunctions, hlayouts⟩
  have hversion : Json.Within Json.Exact (depth + 9) (.ofNat formatVersion) :=
    exact_ofNat (show 1 < UInt32.size by decide)
  simpa [Module.toDocument, exact_str] using ⟨hversion, hmodule⟩

end Exact

/-! ## Writing and reading -/

theorem isWritten_iff {t : Ty} : IsWritten t ↔ Ty.parse t.render = .ok t := by
  constructor
  · rintro ⟨text, h⟩
    exact Ty.parse_render h
  · exact fun h => ⟨t.render, h⟩

/-- A module that fits a document is read from its text. -/
theorem Module.read_pretty {m : Module} (h : m.isValid = true) (hn : ∀ n ∈ m.numbers, IsWord n)
    (ht : ∀ t ∈ m.tys, IsWritten t) (hx : ∀ x ∈ m.floats, Json.ReadsBack x) :
    Module.read m.toDocument.pretty = .ok m := by
  have hexact : Json.Within Json.Exact Json.documentDepth m.toDocument :=
    @exact_toDocument 117 m hn hx
  rw [Module.read, Json.read?_pretty hexact]
  exact m.ofDocument_toDocument h hn fun t htm => isWritten_iff.1 (ht t htm)

theorem Module.ofDocument_ok {doc : Json} {m : Module} (h : Module.ofDocument doc = .ok m) :
    (doc.get? "module").bind Module.ofJson? = some m ∧ m.isValid = true := by
  unfold Module.ofDocument at h
  dsimp only [bind, Except.bind, pure, Except.pure, throw, throwThe, MonadExceptOf.throw] at h
  split at h
  · cases h
  split at h
  · cases h
  split at h
  · cases h
  split at h
  · cases h
  next found hfound =>
  split at h
  · next hvalid =>
    cases h
    exact ⟨hfound, hvalid⟩
  · cases h

/-- Whatever is read is well formed, and everything in it fits a document. -/
theorem Module.valid_of_read {text : String} {m : Module} (h : Module.read text = .ok m) :
    m.isValid = true ∧ m.Storable := by
  rw [Module.read] at h
  split at h
  · cases h
  next doc hdoc =>
  obtain ⟨hmodule, hvalid⟩ := Module.ofDocument_ok h
  obtain ⟨j, hj, hm⟩ := Option.bind_eq_some_iff.1 hmodule
  exact ⟨hvalid, yields_module (Json.allFinite_get? ⟨_, Json.finite_read? hdoc⟩ hj) hm⟩

/-- A well-formed module whose numbers and types documents can hold is written, and its document is read
as the module exactly if the module has finite floats only. Whatever is read is well formed and is
written, and read again as it was. Of the text of floats it is used that each finite float of the module
is read from its own text. -/
theorem Module.read_write (m : Module)
    (readBack : ∀ x ∈ m.floats, x.isFinite = true → Json.ReadsBack x) :
    (m.isValid = true → (∀ n ∈ m.numbers, IsWord n) → (∀ t ∈ m.tys, IsWritten t) →
      ∃ text, m.write = .ok text ∧
        (Module.read text = .ok m ↔ ∀ x ∈ m.floats, x.isFinite = true)) ∧
      ∀ source, Module.read source = .ok m →
        m.isValid = true ∧ ∃ text, m.write = .ok text ∧ Module.read text = .ok m := by
  have hwrite (h : m.isValid = true) : m.write = .ok m.toDocument.pretty := if_pos h
  constructor
  · intro h hn ht
    refine ⟨_, hwrite h, fun hread => (Module.valid_of_read hread).2.floats, fun hx => ?_⟩
    exact Module.read_pretty h hn ht fun x hxm => readBack x hxm (hx x hxm)
  · intro source hsource
    obtain ⟨h, hstorable⟩ := Module.valid_of_read hsource
    refine ⟨h, _, hwrite h, ?_⟩
    exact Module.read_pretty h hstorable.numbers hstorable.tys fun x hxm =>
      readBack x hxm (hstorable.floats x hxm)

/-- A module whose only function appends a constant to a list. -/
def scaleModule (factor : Float) : Module where
  name := "scale"
  functions := [{
    name := "extend"
    params := [⟨"factors", .list .float⟩]
    ret := .list .float
    blocks := [{
      label := "entry"
      instrs := [.const 0 (.float factor), .loadVar 1 "factors", .listPush 1 0]
      terminator := .ret 1 }] }]
  layouts := [{ name := "Scale", id := 0, parent := none, fields := [⟨"factor", .float⟩] }]

/-- A module with the constant 1.5 is written and read; one with a constant that is no number is written
but not read. -/
theorem Module.read_write_scaleModule :
    (∃ text, (scaleModule 1.5).write = .ok text ∧ Module.read text = .ok (scaleModule 1.5)) ∧
      ∃ text, (scaleModule (0 / 0)).write = .ok text ∧
        Module.read text ≠ .ok (scaleModule (0 / 0)) := by
  have hnumbers : ∀ x, ∀ n ∈ (scaleModule x).numbers, IsWord n := by
    intro x
    change ∀ n ∈ [0, 1, 1, 0, 1, 0], n < UInt32.size
    decide
  have htys : ∀ x, ∀ t ∈ (scaleModule x).tys, IsWritten t := by
    intro x
    change ∀ t ∈ [Ty.list .float, Ty.list .float, Ty.float], IsWritten t
    have hlist : IsWritten (.list .float) := ⟨"list<float>", by rfl⟩
    have hfloat : IsWritten .float := ⟨"float", by rfl⟩
    simp [hlist, hfloat]
  have hhalf : Json.ReadsBack 1.5 := by
    have htext : FloatStyle.json.render 1.5 = "1.5" := by decide +kernel
    rw [Json.ReadsBack, htext]
    rfl
  have hnan : (0 / 0 : Float).isFinite = false := by decide +kernel
  have hfloats : ∀ x, ∀ y ∈ (scaleModule x).floats, y = x := by
    intro x y hy
    exact List.mem_singleton.1 hy
  constructor
  · obtain ⟨text, hwrite, hread⟩ := (Module.read_write (scaleModule 1.5)
      (fun y hy _ => hfloats _ y hy ▸ hhalf)).1 (by decide +kernel) (hnumbers _) (htys _)
    exact ⟨text, hwrite, hread.2 fun y hy => hfloats _ y hy ▸ by decide +kernel⟩
  · obtain ⟨text, hwrite, hread⟩ := (Module.read_write (scaleModule (0 / 0))
      (fun y hy hfinite => by rw [hfloats _ y hy, hnan] at hfinite; cases hfinite)).1
      (by decide +kernel) (hnumbers _) (htys _)
    refine ⟨text, hwrite, fun hm => ?_⟩
    have := hread.1 hm (0 / 0) (List.mem_singleton.2 rfl)
    rw [hnan] at this
    cases this

end ProtoScript.Ir
