import ProtoScript.Ir.Basic
import ProtoScript.Ir.Written
import ProtoScript.Proofs.Json.Record
import ProtoScript.Ty.Parser

set_option autoImplicit false

/-!
# What is written is decoded

The value tree of a module is decoded as that module if its numbers fit 32 bits and its types are read
back. Each instruction names its opcode and its fields, so that a field is found under its name and
the families of instructions do not get into each other's way.
-/

namespace ProtoScript.Ir

/-!
## The numbers, types and floats of a module

A document can hold only numbers of 32 bits, types that have a written form and finite floats. What is
said about documents is said about everything of these kinds that stands in a module.
-/

namespace Check

/-- The bit width a check names. -/
def widths : Check → List Nat
  | shiftRange _ w => [w]
  | _ => []

/-- The type a check names. -/
def tys : Check → List Ty
  | overflow _ _ _ t | negOverflow _ t => [t]
  | _ => []

end Check

namespace Instr

/-- The bit width an instruction names. -/
def widths : Instr → List Nat
  | check c => c.widths
  | _ => []

/-- Every temporary and bit width of an instruction. -/
def numbers (i : Instr) : List Nat := i.dest?.toList ++ (i.operands ++ i.widths)

/-- The types an instruction names. -/
def tys : Instr → List Ty
  | varDecl _ t | cast _ _ t | callForeign _ _ _ _ t | makeList _ t _ | makeView _ _ _ _ t
  | makeSlice _ _ _ _ t | iterBegin _ _ _ t => [t]
  | makeMap _ k v _ => [k, v]
  | check c => c.tys
  | _ => []

/-- The float constant of an instruction. -/
def floats : Instr → List Float
  | const _ (.float x) => [x]
  | _ => []

end Instr

namespace Block

def numbers (b : Block) : List Nat := b.instrs.flatMap Instr.numbers ++ b.terminator.operands

def tys (b : Block) : List Ty := b.instrs.flatMap Instr.tys

def floats (b : Block) : List Float := b.instrs.flatMap Instr.floats

end Block

namespace Function

def numbers (f : Function) : List Nat := f.blocks.flatMap Block.numbers

def tys (f : Function) : List Ty := f.params.map Param.ty ++ f.ret :: f.blocks.flatMap Block.tys

def floats (f : Function) : List Float := f.blocks.flatMap Block.floats

end Function

/-- The types of the fields of a prototype. -/
def Layout.tys (l : Layout) : List Ty := l.fields.map Field.ty

namespace Module

/-- Every temporary, bit width and prototype number of a module. -/
def numbers (m : Module) : List Nat :=
  m.functions.flatMap Function.numbers ++ m.layouts.map Layout.id

/-- Every type of a module. -/
def tys (m : Module) : List Ty := m.functions.flatMap Function.tys ++ m.layouts.flatMap Layout.tys

/-- The float constants of a module. -/
def floats (m : Module) : List Float := m.functions.flatMap Function.floats

end Module

/-! ### What fits a document -/

/-- The number fits 32 bits. -/
def IsWord (n : Nat) : Prop := n < UInt32.size

/-- The type has a written form. -/
def IsWritten (t : Ty) : Prop := ∃ text, Ty.parse text = .ok t

/-- Numbers, types and floats that a document can hold. -/
structure Storable (numbers : List Nat) (tys : List Ty) (floats : List Float) : Prop where
  numbers : ∀ n ∈ numbers, IsWord n
  tys : ∀ t ∈ tys, IsWritten t
  floats : ∀ x ∈ floats, x.isFinite = true

theorem storable_iff {numbers : List Nat} {tys : List Ty} {floats : List Float} :
    Storable numbers tys floats ↔ (∀ n ∈ numbers, IsWord n) ∧ (∀ t ∈ tys, IsWritten t) ∧
      ∀ x ∈ floats, x.isFinite = true :=
  ⟨fun h => ⟨h.1, h.2, h.3⟩, fun h => ⟨h.1, h.2.1, h.2.2⟩⟩

theorem Storable.append {ns ms : List Nat} {ts us : List Ty} {xs ys : List Float} (h : Storable ns ts xs)
    (h' : Storable ms us ys) : Storable (ns ++ ms) (ts ++ us) (xs ++ ys) where
  numbers := List.forall_mem_append.2 ⟨h.1, h'.1⟩
  tys := List.forall_mem_append.2 ⟨h.2, h'.2⟩
  floats := List.forall_mem_append.2 ⟨h.3, h'.3⟩

theorem Storable.flatMap {α : Type} {numbers : α → List Nat} {tys : α → List Ty}
    {floats : α → List Float} {as : List α}
    (h : ∀ a ∈ as, Storable (numbers a) (tys a) (floats a)) :
    Storable (as.flatMap numbers) (as.flatMap tys) (as.flatMap floats) where
  numbers n hn := by
    obtain ⟨a, ha, hna⟩ := List.mem_flatMap.1 hn
    exact (h a ha).1 n hna
  tys t ht := by
    obtain ⟨a, ha, hta⟩ := List.mem_flatMap.1 ht
    exact (h a ha).2 t hta
  floats x hx := by
    obtain ⟨a, ha, hxa⟩ := List.mem_flatMap.1 hx
    exact (h a ha).3 x hxa

/-! ## Parts of instructions -/

theorem word32?_ofNat {n : Nat} (h : IsWord n) : word32? (.ofNat n) = some n :=
  Json.natBelow?_ofNat h

theorem tempOf?_tempJson {t : Temp} (h : IsWord t) : tempOf? (tempJson t) = some t :=
  word32?_ofNat h

/-- The destination of a call. -/
theorem destOf?_destJson {dest? : Option Temp} {rest : Json.Fields}
    (h : ∀ t ∈ dest?.toList, IsWord t) (hrest : ∀ e ∈ rest, e.1 ≠ "dest") :
    Json.Fields.opt (("dest", .ofOption tempJson dest?) :: rest) "dest" tempOf? = some dest? := by
  refine Json.opt_cons_self hrest (fun t ht => tempOf?_tempJson (h t (Option.mem_toList.2 ht))) ?_
  intro t ht
  cases ht

theorem tempsOf?_tempsJson {ts : List Temp} (h : ∀ t ∈ ts, IsWord t) :
    tempsOf? (tempsJson ts) = some ts :=
  Json.list?_arr fun t ht => tempOf?_tempJson (h t ht)

theorem pairsOf?_pairsJson {es : List (Temp × Temp)} (h : ∀ e ∈ es, IsWord e.1 ∧ IsWord e.2) :
    Json.list? (Json.pair? tempOf? tempOf?)
      (.arr (es.map fun e => .arr [tempJson e.1, tempJson e.2])) = some es := by
  refine Json.list?_arr fun e he => ?_
  rw [Json.pair?, tempOf?_tempJson (h e he).1, tempOf?_tempJson (h e he).2]
  rfl

theorem ty?_tyJson {t : Ty} (h : Ty.parse t.render = .ok t) : Json.ty? (tyJson t) = some t := by
  simp [Json.ty?, tyJson, Json.str?, h, Except.toOption]

theorem wordOf?_binary (op : BinaryOp) : wordOf? BinaryOp.ofWord? (.str op.word) = some op := by
  cases op <;> rfl

theorem wordOf?_unary (op : UnaryOp) : wordOf? UnaryOp.ofWord? (.str op.word) = some op := by
  cases op <;> rfl

theorem wordOf?_kind (k : IterKind) : wordOf? IterKind.ofWord? (.str k.word) = some k := by
  cases k <;> rfl

theorem fitInt?_toInt (v : Int64) : Constant.fitInt? v.toInt = some v := by
  have hlow : Int64.minValue.toInt ≤ v.toInt := v.minValue_le_toInt
  have hhigh : v.toInt ≤ Int64.maxValue.toInt := v.toInt_le
  rw [Constant.fitInt?, if_pos ⟨hlow, hhigh⟩, Int64.ofInt_toInt]

theorem constantOf?_constantJson (c : Constant) : constantOf? (constantJson c) = some c := by
  cases c with
  | byte v =>
      have hv := Json.natBelow?_ofNat v.toNat_lt
      simp [constantOf?, constantJson, constantUnder?, hv]
  | int v => simp [constantOf?, constantJson, constantUnder?, Json.int?, fitInt?_toInt]
  | glyph c => simp [constantOf?, constantJson, constantUnder?, Json.char?, Json.str?, Char.toString]
  | _ => rfl

/-! ## Instructions -/

theorem ne_op_of_names {fields : Json.Fields} (h : (fields.map Prod.fst).contains "op" = false) :
    ∀ e ∈ fields, e.1 ≠ "op" := by
  rintro e he heq
  have hmem : "op" ∈ fields.map Prod.fst := heq ▸ List.mem_map_of_mem he
  rw [List.contains_iff_mem.2 hmem] at h
  cases h

theorem tagged?_toJson (i : Instr) : Json.tagged? "op" i.toJson = some (i.opcode, .obj i.fields) := by
  refine Json.tagged?_obj (ne_op_of_names ?_)
  cases i with
  | check c => cases c <;> rfl
  | _ => rfl

section Families

variable {op : String} (rest : Json)

theorem readValue?_eq_none (h : op ∉ ["const", "copy", "var_decl", "load_var", "store_var", "bin_op",
    "unary_op", "select", "cast"]) : Instr.readValue? op rest = none := by
  unfold Instr.readValue?
  split <;> simp_all

theorem readCall?_eq_none (h : op ∉ ["call_static", "call_method", "call_extern"]) :
    Instr.readCall? op rest = none := by
  unfold Instr.readCall?
  split <;> simp_all

theorem readObject?_eq_none (h : op ∉ ["new_object", "clone_object", "field_get", "field_set",
    "instance_of"]) : Instr.readObject? op rest = none := by
  unfold Instr.readObject?
  split <;> simp_all

theorem readContainer?_eq_none (h : op ∉ ["index_get", "index_set", "make_list", "make_map",
    "make_view", "make_slice", "list_push", "list_pop", "list_clear", "map_has", "map_remove",
    "length", "iter_begin", "iter_next"]) : Instr.readContainer? op rest = none := by
  unfold Instr.readContainer?
  split <;> simp_all

theorem readEffect?_eq_none (h : op ∉ ["print", "throw", "setup_try", "end_try", "catch_value"]) :
    Instr.readEffect? op rest = none := by
  unfold Instr.readEffect?
  split <;> simp_all

end Families

section Tagged

variable {j rest : Json} {op : String} {i : Instr}

theorem ofJson?_of_tagged (h : j.tagged? "op" = some (op, rest)) :
    Instr.ofJson? j = (Instr.readValue? op rest <|> Instr.readCall? op rest <|>
      Instr.readObject? op rest <|> Instr.readContainer? op rest <|> Instr.readEffect? op rest <|>
      (Check.read? op rest).map .check) := by
  rw [Instr.ofJson?, h]
  rfl

/-- What one family decodes is decoded, if the families before it do not know the opcode. -/
theorem ofJson?_of_readValue (h : j.tagged? "op" = some (op, rest))
    (hread : Instr.readValue? op rest = some i) : Instr.ofJson? j = some i := by
  rw [ofJson?_of_tagged h, hread]
  rfl

theorem ofJson?_of_readCall (h : j.tagged? "op" = some (op, rest))
    (hvalue : Instr.readValue? op rest = none) (hread : Instr.readCall? op rest = some i) :
    Instr.ofJson? j = some i := by
  rw [ofJson?_of_tagged h, hvalue, hread]
  rfl

theorem ofJson?_of_readObject (h : j.tagged? "op" = some (op, rest))
    (hvalue : Instr.readValue? op rest = none) (hcall : Instr.readCall? op rest = none)
    (hread : Instr.readObject? op rest = some i) : Instr.ofJson? j = some i := by
  rw [ofJson?_of_tagged h, hvalue, hcall, hread]
  rfl

theorem ofJson?_of_readContainer (h : j.tagged? "op" = some (op, rest))
    (hvalue : Instr.readValue? op rest = none) (hcall : Instr.readCall? op rest = none)
    (hobject : Instr.readObject? op rest = none)
    (hread : Instr.readContainer? op rest = some i) : Instr.ofJson? j = some i := by
  rw [ofJson?_of_tagged h, hvalue, hcall, hobject, hread]
  rfl

theorem ofJson?_of_readEffect (h : j.tagged? "op" = some (op, rest))
    (hvalue : Instr.readValue? op rest = none) (hcall : Instr.readCall? op rest = none)
    (hobject : Instr.readObject? op rest = none) (hcontainer : Instr.readContainer? op rest = none)
    (hread : Instr.readEffect? op rest = some i) : Instr.ofJson? j = some i := by
  rw [ofJson?_of_tagged h, hvalue, hcall, hobject, hcontainer, hread]
  rfl

theorem ofJson?_of_readCheck {c : Check} (h : j.tagged? "op" = some (op, rest))
    (hvalue : Instr.readValue? op rest = none) (hcall : Instr.readCall? op rest = none)
    (hobject : Instr.readObject? op rest = none) (hcontainer : Instr.readContainer? op rest = none)
    (heffect : Instr.readEffect? op rest = none) (hread : Check.read? op rest = some c) :
    Instr.ofJson? j = some (.check c) := by
  rw [ofJson?_of_tagged h, hvalue, hcall, hobject, hcontainer, heffect, hread]
  rfl

end Tagged

/-- A check is decoded from its fields. -/
theorem Check.read?_fields (c : Check) (hn : ∀ n ∈ (Instr.check c).numbers, IsWord n)
    (ht : ∀ t ∈ (Instr.check c).tys, Ty.parse t.render = .ok t) :
    Check.read? c.opcode (.obj c.fields) = some c := by
  cases c <;> simp only [Instr.numbers, Instr.dest?, Instr.operands, Check.operands, Instr.widths,
    Check.widths, Instr.tys, Check.tys, List.forall_mem_cons, List.cons_append, List.nil_append,
    Option.toList_none] at hn ht
  all_goals
    simp [-Option.bind_some, Option.bind_eq_some_iff, Check.opcode, Check.fields, Check.read?,
      Json.record?_obj, Json.need_cons_self, Json.need_cons_ne, tempOf?_tempJson, word32?_ofNat,
      ty?_tyJson, wordOf?_binary, hn, ht]

/-- An instruction is decoded. -/
theorem Instr.ofJson?_toJson (i : Instr) (hn : ∀ n ∈ i.numbers, IsWord n)
    (ht : ∀ t ∈ i.tys, Ty.parse t.render = .ok t) : Instr.ofJson? i.toJson = some i := by
  have htagged := tagged?_toJson i
  cases i
  case check c =>
    refine ofJson?_of_readCheck htagged (readValue?_eq_none _ ?_) (readCall?_eq_none _ ?_)
      (readObject?_eq_none _ ?_) (readContainer?_eq_none _ ?_) (readEffect?_eq_none _ ?_)
      (c.read?_fields hn ht)
    all_goals cases c <;> simp [Instr.opcode, Check.opcode]
  all_goals
    simp only [Instr.numbers, Instr.dest?, Instr.operands, Instr.widths, Instr.tys,
      Option.toList_some, Option.toList_none, List.forall_mem_cons, List.forall_mem_append,
      List.cons_append, List.nil_append, List.append_nil] at hn ht
    simp only [Instr.opcode, Instr.fields] at htagged
  case const | copy | varDecl | loadVar | storeVar | binary | unary | select | cast =>
    refine ofJson?_of_readValue htagged ?_
    simp [-Option.bind_some, Option.bind_eq_some_iff, Instr.readValue?, Json.record?_obj,
      Json.need_cons_self, Json.need_cons_ne, tempOf?_tempJson, ty?_tyJson, Json.str?_str,
      constantOf?_constantJson, wordOf?_binary, wordOf?_unary, hn, ht]
  case callStatic dest callee args =>
    refine ofJson?_of_readCall htagged (readValue?_eq_none _ (by decide)) ?_
    simp [-Option.bind_some, Option.bind_eq_some_iff, Instr.readCall?, Json.record?_obj,
      Json.need_cons_self, Json.need_cons_ne, Json.str?_str, destOf?_destJson hn.1,
      tempsOf?_tempsJson hn.2]
  case callMethod dest receiver proto method args =>
    refine ofJson?_of_readCall htagged (readValue?_eq_none _ (by decide)) ?_
    simp [-Option.bind_some, Option.bind_eq_some_iff, Instr.readCall?, Json.record?_obj,
      Json.need_cons_self, Json.need_cons_ne, Json.str?_str, destOf?_destJson hn.1,
      tempOf?_tempJson hn.2.1, tempsOf?_tempsJson hn.2.2]
  case callForeign dest module function args ret =>
    refine ofJson?_of_readCall htagged (readValue?_eq_none _ (by decide)) ?_
    simp [-Option.bind_some, Option.bind_eq_some_iff, Instr.readCall?, Json.record?_obj,
      Json.need_cons_self, Json.need_cons_ne, Json.str?_str, destOf?_destJson hn.1,
      tempsOf?_tempsJson hn.2, ty?_tyJson ht.1]
  case newObject | cloneObject | fieldGet | fieldSet | instanceOf =>
    refine ofJson?_of_readObject htagged (readValue?_eq_none _ (by decide))
      (readCall?_eq_none _ (by decide)) ?_
    simp [-Option.bind_some, Option.bind_eq_some_iff, Instr.readObject?, Json.record?_obj,
      Json.need_cons_self, Json.need_cons_ne, tempOf?_tempJson, Json.str?_str, hn]
  case print | throw | setupTry | endTry | catchValue =>
    refine ofJson?_of_readEffect htagged (readValue?_eq_none _ (by decide))
      (readCall?_eq_none _ (by decide)) (readObject?_eq_none _ (by decide))
      (readContainer?_eq_none _ (by decide)) ?_
    simp [-Option.bind_some, Option.bind_eq_some_iff, Instr.readEffect?, Json.noFields?,
      Json.record?_obj, Json.need_cons_self, tempOf?_tempJson, Json.str?_str, hn]
  all_goals
    refine ofJson?_of_readContainer htagged (readValue?_eq_none _ (by decide))
      (readCall?_eq_none _ (by decide)) (readObject?_eq_none _ (by decide)) ?_
  case makeList dest elem items =>
    simp [-Option.bind_some, Option.bind_eq_some_iff, Instr.readContainer?, Json.record?_obj,
      Json.need_cons_self, Json.need_cons_ne, tempOf?_tempJson hn.1, tempsOf?_tempsJson hn.2,
      ty?_tyJson ht.1]
  case makeMap dest key value entries =>
    have hentries : ∀ e ∈ entries, IsWord e.1 ∧ IsWord e.2 := fun e he =>
      ⟨hn.2 e.1 (List.mem_flatMap.2 ⟨e, he, by simp⟩),
        hn.2 e.2 (List.mem_flatMap.2 ⟨e, he, by simp⟩)⟩
    simp [-Option.bind_some, Option.bind_eq_some_iff, Instr.readContainer?, Json.record?_obj,
      Json.need_cons_self, Json.need_cons_ne, tempOf?_tempJson hn.1, pairsOf?_pairsJson hentries,
      ty?_tyJson ht.1, ty?_tyJson ht.2.1]
  all_goals
    simp [-Option.bind_some, Option.bind_eq_some_iff, Instr.readContainer?, windowOf?,
      Json.record?_obj, Json.need_cons_self, Json.need_cons_ne, tempOf?_tempJson, ty?_tyJson,
      wordOf?_kind, hn, ht]

/-! ## Modules -/

theorem tagged?_terminator (t : Terminator) :
    Json.tagged? "op" t.toJson = some (t.opcode, .obj t.fields) := by
  refine Json.tagged?_obj (ne_op_of_names ?_)
  cases t <;> rfl

theorem Terminator.ofJson?_toJson (t : Terminator) (h : ∀ n ∈ t.operands, IsWord n) :
    Terminator.ofJson? t.toJson = some t := by
  have htagged := tagged?_terminator t
  rw [Terminator.ofJson?, htagged]
  cases t <;> simp only [Terminator.operands, List.forall_mem_cons] at h <;>
    simp [-Option.bind_some, Option.bind_eq_some_iff, Terminator.opcode, Terminator.fields,
      Json.noFields?, Json.record?_obj, Json.need_cons_self, Json.need_cons_ne, tempOf?_tempJson,
      Json.str?_str, h]

theorem Block.ofJson?_toJson (b : Block) (hn : ∀ n ∈ b.numbers, IsWord n)
    (ht : ∀ t ∈ b.tys, Ty.parse t.render = .ok t) : Block.ofJson? b.toJson = some b := by
  have hinstrs : Json.list? Instr.ofJson? (.arr (b.instrs.map Instr.toJson)) = some b.instrs :=
    Json.list?_arr fun i hi => i.ofJson?_toJson
      (fun n h => hn n (List.mem_append_left _ (List.mem_flatMap.2 ⟨i, hi, h⟩)))
      (fun t h => ht t (List.mem_flatMap.2 ⟨i, hi, h⟩))
  have hterminator := b.terminator.ofJson?_toJson fun n h => hn n (List.mem_append_right _ h)
  simp [-Option.bind_some, Option.bind_eq_some_iff, Block.ofJson?, Block.toJson, Json.record?_obj,
    Json.need_cons_self, Json.need_cons_ne, Json.str?_str, hinstrs, hterminator]

theorem typedOf?_typedJson (name : String) {t : Ty} (h : Ty.parse t.render = .ok t) :
    typedOf? (typedJson name t) = some (name, t) := by
  simp [-Option.bind_some, Option.bind_eq_some_iff, typedOf?, typedJson, Json.record?_obj,
    Json.need_cons_self, Json.need_cons_ne, Json.str?_str, ty?_tyJson h]

/-- A list of names with their types is decoded, whatever record each of them is. -/
theorem typedsOf?_arr {α : Type} {name : α → String} {ty : α → Ty} (xs : List α)
    (h : ∀ x ∈ xs, Ty.parse (ty x).render = .ok (ty x)) :
    Json.list? typedOf? (.arr (xs.map fun x => typedJson (name x) (ty x))) =
      some (xs.map fun x => (name x, ty x)) := by
  have hpairs : xs.map (fun x => typedJson (name x) (ty x)) =
      (xs.map fun x => (name x, ty x)).map fun p => typedJson p.1 p.2 := by simp
  rw [hpairs]
  refine Json.list?_arr fun p hp => ?_
  obtain ⟨x, hx, rfl⟩ := List.mem_map.1 hp
  exact typedOf?_typedJson (name x) (h x hx)

theorem Function.ofJson?_toJson (f : Function) (hn : ∀ n ∈ f.numbers, IsWord n)
    (ht : ∀ t ∈ f.tys, Ty.parse t.render = .ok t) : Function.ofJson? f.toJson = some f := by
  have hparams := @typedsOf?_arr _ Param.name Param.ty f.params fun p hp =>
    ht p.ty (List.mem_append_left _ (List.mem_map.2 ⟨p, hp, rfl⟩))
  have hblocks : Json.list? Block.ofJson? (.arr (f.blocks.map Block.toJson)) = some f.blocks :=
    Json.list?_arr fun b hb => b.ofJson?_toJson
      (fun n h => hn n (List.mem_flatMap.2 ⟨b, hb, h⟩))
      (fun t h => ht t (List.mem_append_right _ (List.mem_cons_of_mem _
        (List.mem_flatMap.2 ⟨b, hb, h⟩))))
  have hret := ty?_tyJson (ht f.ret (List.mem_append_right _ List.mem_cons_self))
  simp [-Option.bind_some, Option.bind_eq_some_iff, Function.ofJson?, Function.toJson,
    Json.record?_obj, Json.need_cons_self, Json.need_cons_ne, Json.str?_str, hparams, hblocks, hret,
    Function.comp_def]

theorem Layout.ofJson?_toJson (l : Layout) (hn : IsWord l.id)
    (ht : ∀ t ∈ l.tys, Ty.parse t.render = .ok t) : Layout.ofJson? l.toJson = some l := by
  have hfields := @typedsOf?_arr _ Field.name Field.ty l.fields fun p hp =>
    ht p.ty (List.mem_map.2 ⟨p, hp, rfl⟩)
  have hparent : ∀ rest : Json.Fields, (∀ e ∈ rest, e.1 ≠ "parent") →
      Json.Fields.opt (("parent", .ofOption .str l.parent) :: rest) "parent" Json.str? =
        some l.parent := fun rest hrest =>
    Json.opt_cons_self hrest (fun s _ => Json.str?_str s) (fun s hs => by cases hs)
  simp [-Option.bind_some, Option.bind_eq_some_iff, Layout.ofJson?, Layout.toJson,
    Json.record?_obj, Json.need_cons_self, Json.need_cons_ne, Json.opt_cons_ne, Json.str?_str,
    word32?_ofNat hn, hfields, hparent, Function.comp_def]

theorem Module.ofJson?_toJson (m : Module) (hn : ∀ n ∈ m.numbers, IsWord n)
    (ht : ∀ t ∈ m.tys, Ty.parse t.render = .ok t) : Module.ofJson? m.toJson = some m := by
  have hfunctions : Json.list? Function.ofJson? (.arr (m.functions.map Function.toJson)) =
      some m.functions :=
    Json.list?_arr fun f hf => f.ofJson?_toJson
      (fun n h => hn n (List.mem_append_left _ (List.mem_flatMap.2 ⟨f, hf, h⟩)))
      (fun t h => ht t (List.mem_append_left _ (List.mem_flatMap.2 ⟨f, hf, h⟩)))
  have hlayouts : Json.list? Layout.ofJson? (.arr (m.layouts.map Layout.toJson)) =
      some m.layouts :=
    Json.list?_arr fun l hl => l.ofJson?_toJson
      (hn l.id (List.mem_append_right _ (List.mem_map.2 ⟨l, hl, rfl⟩)))
      (fun t h => ht t (List.mem_append_right _ (List.mem_flatMap.2 ⟨l, hl, h⟩)))
  simp [-Option.bind_some, Option.bind_eq_some_iff, Module.ofJson?, Module.toJson,
    Json.record?_obj, Json.need_cons_self, Json.need_cons_ne, Json.str?_str, hfunctions, hlayouts]

end ProtoScript.Ir
