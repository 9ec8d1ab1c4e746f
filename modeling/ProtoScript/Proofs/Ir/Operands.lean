import ProtoScript.Ir.Basic

set_option autoImplicit false

/-!
# What instructions define and read

An instruction is made of its opcode, its fields that are no temporaries, the temporary it defines and the
temporaries it reads, and nothing else (`Instr.Parts`, `Instr.eq_of_parts`). Renaming what it reads maps
the last of these and keeps the others, and renaming what it defines maps the third; the laws of renaming
follow from that.

The next temporary of a function is above all that its instructions and terminators mention. The numbers have
32 bits, so there is none exactly where the last of them is taken (`traversals_agree`).
-/

namespace ProtoScript.Ir

/-! ## The parts of an instruction -/

/-- A field of an instruction that is no temporary. -/
inductive Datum where
  | constant (c : Constant)
  | name (s : String)
  | ty (t : Ty)
  | binaryOp (op : BinaryOp)
  | unaryOp (op : UnaryOp)
  | iterKind (k : IterKind)
  | width (n : Nat)

/-- The fields of a check that are no temporaries, in order. -/
def Check.data : Check → List Datum
  | overflow op _ _ ty => [.binaryOp op, .ty ty]
  | negOverflow _ ty => [.ty ty]
  | shiftRange _ w => [.width w]
  | divZero _ | indexBounds _ _ | mapKey _ _ => []

namespace Instr

/-- The fields of an instruction that are no temporaries, in order. -/
def data : Instr → List Datum
  | const _ v => [.constant v]
  | varDecl n t => [.name n, .ty t]
  | loadVar _ n | storeVar n _ => [.name n]
  | binary _ op _ _ => [.binaryOp op]
  | unary _ op _ => [.unaryOp op]
  | cast _ _ t => [.ty t]
  | callStatic _ g _ => [.name g]
  | callMethod _ _ p m _ => [.name p, .name m]
  | callForeign _ m g _ t => [.name m, .name g, .ty t]
  | newObject _ p | cloneObject _ _ p | instanceOf _ _ p => [.name p]
  | fieldGet _ _ p n | fieldSet _ p n _ => [.name p, .name n]
  | makeList _ t _ | makeView _ _ _ _ t | makeSlice _ _ _ _ t => [.ty t]
  | makeMap _ k v _ => [.ty k, .ty v]
  | iterBegin _ _ k t => [.iterKind k, .ty t]
  | setupTry h => [.name h]
  | check c => c.data
  | copy _ _ | select _ _ _ _ | indexGet _ _ _ | indexSet _ _ _ | listPush _ _ | listPop _ _
  | listClear _ | mapHas _ _ _ | mapRemove _ _ | length _ _ | iterNext _ _ | print _ | throw _
  | endTry | catchValue _ => []

/-- An instruction taken apart. -/
structure Parts where
  opcode : String
  data : List Datum
  dest? : Option Temp
  operands : List Temp

def parts (i : Instr) : Parts := ⟨i.opcode, i.data, i.dest?, i.operands⟩

end Instr

/-- A check is known by its word, its fields that are no temporaries and what it reads. -/
theorem Check.eq_of_parts {c d : Check} (hopcode : c.opcode = d.opcode) (hdata : c.data = d.data)
    (hreads : c.operands = d.operands) : c = d := by
  cases c <;> cases d <;> simp_all [opcode, data, operands]

namespace Instr

/-- No other instruction has the word of a check. -/
theorem opcode_ne_of_not_isCheck {i : Instr} (h : i.isCheck = false) (c : Check) :
    i.opcode ≠ c.opcode := by
  cases i with
  | check => cases h
  | _ => cases c <;> simp [opcode, Check.opcode]

/-- The temporaries of the entries of a map, in order, determine the entries. -/
theorem entries_inj {es es' : List (Temp × Temp)}
    (h : (es.flatMap fun e => [e.1, e.2]) = es'.flatMap fun e => [e.1, e.2]) : es = es' := by
  induction es generalizing es' with
  | nil =>
      cases es' with
      | nil => rfl
      | cons e es' => cases h
  | cons e es ih =>
      cases es' with
      | nil => cases h
      | cons e' es' =>
          obtain ⟨hkey, hvalue, hrest⟩ : e.1 = e'.1 ∧ e.2 = e'.2 ∧ _ := by simpa using h
          rw [Prod.ext hkey hvalue, ih hrest]

/-- An instruction is determined by its parts. -/
theorem eq_of_parts {i j : Instr} (h : i.parts = j.parts) : i = j := by
  rw [parts, parts, Parts.mk.injEq] at h
  obtain ⟨hopcode, hdata, hdest, hreads⟩ := h
  cases i with
  | check c =>
      cases j with
      | check d => exact congrArg check (Check.eq_of_parts hopcode hdata hreads)
      | _ => exact absurd hopcode.symm (opcode_ne_of_not_isCheck rfl c)
  | makeMap d k v es =>
      cases j with
      | makeMap d' k' v' es' =>
          have hentries : es = es' := entries_inj hreads
          simp_all [data, dest?]
      | check c => exact absurd hopcode (opcode_ne_of_not_isCheck rfl c)
      | _ => exact absurd hopcode (by simp [opcode])
  | _ =>
      cases j with
      | check c => exact absurd hopcode (opcode_ne_of_not_isCheck rfl c)
      -- two kinds have two opcodes; only those of one kind are compared field by field
      | _ => first
        | (simp [opcode] at hopcode; done)
        | simp_all [data, dest?, operands]

end Instr

/-! ## Renaming -/

namespace Check

theorem operands_mapOperands (f : Temp → Temp) (c : Check) :
    (c.mapOperands f).operands = c.operands.map f := by
  cases c <;> rfl

theorem opcode_mapOperands (f : Temp → Temp) (c : Check) : (c.mapOperands f).opcode = c.opcode := by
  cases c <;> rfl

theorem data_mapOperands (f : Temp → Temp) (c : Check) : (c.mapOperands f).data = c.data := by
  cases c <;> rfl

end Check

namespace Instr

variable (f g : Temp → Temp) (i : Instr)

/-- Renaming what an instruction reads maps its operands, one by one, and keeps its other parts. -/
theorem parts_mapOperands : (i.mapOperands f).parts = { i.parts with operands := i.operands.map f } := by
  cases i with
  | makeMap d k v es =>
      simp [parts, mapOperands, opcode, data, dest?, operands, List.flatMap_map, List.map_flatMap]
  | check c =>
      simp [parts, mapOperands, opcode, data, dest?, operands, c.operands_mapOperands,
        c.opcode_mapOperands, c.data_mapOperands]
  | _ => rfl

/-- Renaming what an instruction defines maps that and keeps its other parts. -/
theorem parts_mapDest : (i.mapDest f).parts = { i.parts with dest? := i.dest?.map f } := by
  cases i <;> rfl

theorem operands_mapOperands : (i.mapOperands f).operands = i.operands.map f :=
  congrArg Parts.operands (i.parts_mapOperands f)

theorem dest?_mapOperands : (i.mapOperands f).dest? = i.dest? :=
  congrArg Parts.dest? (i.parts_mapOperands f)

theorem dest?_mapDest : (i.mapDest f).dest? = i.dest?.map f :=
  congrArg Parts.dest? (i.parts_mapDest f)

theorem mapOperands_id : i.mapOperands id = i := by
  refine eq_of_parts ?_
  rw [parts_mapOperands, List.map_id]
  rfl

theorem mapDest_id : i.mapDest id = i := by
  refine eq_of_parts ?_
  rw [parts_mapDest, Option.map_id]
  rfl

theorem mapOperands_mapOperands : (i.mapOperands f).mapOperands g = i.mapOperands (g ∘ f) := by
  refine eq_of_parts ?_
  rw [parts_mapOperands, parts_mapOperands, parts_mapOperands, operands_mapOperands, List.map_map]

end Instr

/-! ## The next temporary -/

theorem Temp.next?_eq_some_iff {t u : Temp} : t.next? = some u ↔ t + 1 < UInt32.size ∧ u = t + 1 := by
  unfold Temp.next?
  split
  case isTrue h => simp [h, eq_comm]
  case isFalse h => simp [h]

theorem Temp.next?_eq_none_iff {t : Temp} : t.next? = none ↔ UInt32.size ≤ t + 1 := by
  unfold Temp.next?
  split
  case isTrue h => simp [Nat.not_le.2 h]
  case isFalse h => simp [Nat.not_lt.1 h]

namespace Function

variable {f : Function} {t : Temp}

/-- The temporary occurs in the function: an instruction defines it or reads it, or a terminator reads it. -/
def Mentions (f : Function) (t : Temp) : Prop :=
  ∃ b ∈ f.blocks, (∃ i ∈ b.instrs, i.dest? = some t ∨ t ∈ i.operands) ∨ t ∈ b.terminator.operands

theorem mem_temps : t ∈ f.temps ↔ f.Mentions t := by
  simp [temps, Block.temps, Mentions]

/-- The next temporary is the least number above all that the function mentions, and it has 32 bits. -/
theorem nextTemp?_eq_some {n : Temp} (h : f.nextTemp? = some n) :
    n < UInt32.size ∧ ∀ k, n ≤ k ↔ ∀ t ∈ f.temps, t < k := by
  unfold nextTemp? at h
  split at h
  case h_1 hmax =>
    cases h
    rw [List.max?_eq_none_iff.1 hmax]
    exact ⟨by decide, by simp⟩
  case h_2 t hmax =>
    obtain ⟨hmem, hle⟩ := List.max?_eq_some_iff.1 hmax
    obtain ⟨hsize, rfl⟩ := Temp.next?_eq_some_iff.1 h
    refine ⟨hsize, fun k => ⟨fun hk u hu => ?_, fun hk => hk t hmem⟩⟩
    exact Nat.lt_of_lt_of_le (Nat.lt_succ_of_le (hle u hu)) hk

/-- There is no next temporary exactly if a temporary of the function has the last number. -/
theorem nextTemp?_eq_none_iff : f.nextTemp? = none ↔ ∃ t ∈ f.temps, UInt32.size ≤ t + 1 := by
  unfold nextTemp?
  split
  case h_1 hmax =>
    rw [List.max?_eq_none_iff.1 hmax]
    simp
  case h_2 t hmax =>
    obtain ⟨hmem, hle⟩ := List.max?_eq_some_iff.1 hmax
    rw [Temp.next?_eq_none_iff]
    exact ⟨fun h => ⟨t, hmem, h⟩, fun ⟨u, hu, h⟩ => Nat.le_trans h (Nat.succ_le_succ (hle u hu))⟩

/-- Every temporary of a function is below its next one. -/
theorem lt_of_nextTemp? {n : Temp} (h : f.nextTemp? = some n) {b : Block} (hb : b ∈ f.blocks)
    (ht : t ∈ b.temps) : t < n :=
  ((nextTemp?_eq_some h).2 n).1 (Nat.le_refl n) t (List.mem_flatMap.2 ⟨b, hb, ht⟩)

/-- Where the last number is taken, there is no next one. -/
example : nextTemp? ⟨"f", [], .void, [⟨"entry", [.const 4294967295 (.int 1)], .retVoid⟩]⟩ = none := by decide

end Function

/-- The traversals of instructions agree. An instruction is determined by its parts; renaming what it reads maps
its operands in order and keeps its other parts, does nothing for the identity and goes along with
composition; a new name for what it defines changes nothing else. The next temporary is above all temporaries of
a function; there is none exactly if one of them has the last number of 32 bits. -/
theorem traversals_agree (i j : Instr) (r s : Temp → Temp) (t : Temp) (f : Function) :
    (i.parts = j.parts ↔ i = j) ∧
    ((i.mapOperands r).operands = i.operands.map r ∧ (i.mapOperands r).dest? = i.dest? ∧
      (i.mapOperands r).opcode = i.opcode ∧ (i.mapOperands r).data = i.data) ∧
    i.mapOperands id = i ∧
    (i.mapOperands r).mapOperands s = i.mapOperands (s ∘ r) ∧
    ((i.mapDest fun _ => t).dest? = i.dest?.map (fun _ => t) ∧
      (i.mapDest fun _ => t).operands = i.operands ∧ (i.mapDest fun _ => t).opcode = i.opcode ∧
      (i.mapDest fun _ => t).data = i.data) ∧
    (∀ n, f.nextTemp? = some n → ∀ u, f.Mentions u → u < n) ∧
    (f.nextTemp? = none ↔ ∃ u, f.Mentions u ∧ UInt32.size ≤ u + 1) := by
  have hrenamed := i.parts_mapOperands r
  have hset := i.parts_mapDest fun _ => t
  refine ⟨⟨Instr.eq_of_parts, congrArg Instr.parts⟩, ⟨i.operands_mapOperands r, i.dest?_mapOperands r, ?_, ?_⟩,
    i.mapOperands_id, i.mapOperands_mapOperands r s, ⟨i.dest?_mapDest _, ?_, ?_, ?_⟩, fun n hn u hu => ?_, ?_⟩
  · exact congrArg Instr.Parts.opcode hrenamed
  · exact congrArg Instr.Parts.data hrenamed
  · exact congrArg Instr.Parts.operands hset
  · exact congrArg Instr.Parts.opcode hset
  · exact congrArg Instr.Parts.data hset
  · exact ((Function.nextTemp?_eq_some hn).2 n).1 (Nat.le_refl n) u (Function.mem_temps.2 hu)
  · simp only [Function.nextTemp?_eq_none_iff, Function.mem_temps]

/-- Doubles its parameter. -/
def doubling : Function where
  name := "double"
  params := [⟨"n", .int⟩]
  ret := .int
  blocks := [⟨"entry", [.loadVar 0 "n", .const 1 (.int 2), .binary 2 .mul 0 1], .ret 2⟩]

theorem traversals_agree_doubling :
    ((Instr.binary 2 .mul 0 1).mapOperands (· + 10)).operands = [10, 11] ∧
      ((Instr.binary 2 .mul 0 1).mapOperands (· + 10)).dest? = some 2 ∧
      doubling.nextTemp? = some 3 ∧ ∀ t, doubling.Mentions t → t < 3 := by
  have hnext : doubling.nextTemp? = some 3 := by decide
  obtain ⟨-, ⟨hoperands, hdest, -⟩, -, -, -, hbelow, -⟩ :=
    traversals_agree (.binary 2 .mul 0 1) (.binary 2 .mul 0 1) (· + 10) id 0 doubling
  exact ⟨hoperands, hdest, hnext, hbelow 3 hnext⟩

end ProtoScript.Ir
