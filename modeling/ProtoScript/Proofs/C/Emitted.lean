import ProtoScript.Proofs.C.Plain
import ProtoScript.Proofs.C.Rounds

set_option autoImplicit false

/-!
# What is asked and declared

Each step of writing C may ask for the types of temporaries and may declare functions outside the program;
apart from that it only reads the module and appends plain lines. `Emits` says of a step which temporaries are
known whenever it succeeds, and which calls out of the program it has seen. The lemmas follow the definitions,
one for each, up to a whole module (`emits_emitInstr`, `emits_emitBlocks`, `of_emitFunctions`, `of_generate`).

An operand whose type is not asked for is only printed (`typedOperands`).
-/

namespace ProtoScript

namespace C

open Ir

/-! ## Operands and calls -/

/-- The operands of an instruction whose types are looked up: when it is written, or for the start of a loop
when types are inferred. The arguments of a call count as far as the callee has parameters. -/
def typedOperands (m : Module) : Instr → List Temp
  | .copy _ src | .storeVar _ src | .cast _ src _ => [src]
  | .binary _ _ left _ => [left]
  | .unary _ _ operand => [operand]
  | .select _ _ thenValue elseValue => [thenValue, elseValue]
  | .callStatic _ callee args =>
    match function? m callee with
    | some f => args.take f.params.length
    | none => []
  | .callMethod _ receiver proto method args =>
    match methodBody? m proto method with
    | some body => receiver :: args.take body.params.tail.length
    | none => []
  | .callForeign _ _ _ args _ => args
  | .fieldSet _ _ _ value => [value]
  | .indexGet _ object _ => [object]
  | .indexSet object _ value => [object, value]
  | .makeList _ _ items => items
  | .makeMap _ _ _ entries => entries.flatMap fun e => [e.1, e.2]
  | .makeView _ source _ _ _ | .makeSlice _ source _ _ _ => [source]
  | .listPush list value => [list, value]
  | .listPop _ list => [list]
  | .mapHas _ map _ | .mapRemove map _ => [map]
  | .length _ object => [object]
  | .iterBegin _ iterable _ _ => [iterable]
  | .iterNext _ iter => [iter]
  | .print value => [value]
  | .check (.indexBounds object _) => [object]
  | .check (.mapKey map _) => [map]
  | _ => []

/-- What is looked up: the type of a temporary, or the loop that it stands for. -/
inductive Lookup where
  | type (t : Temp)
  | loop (t : Temp)

def Lookup.temp : Lookup → Temp
  | .type t | .loop t => t

/-- It is found. -/
def Lookup.Found (types : FunctionTypes) : Lookup → Prop
  | .type t => (types.temp? t).isSome
  | .loop t => (types.iterator? t).isSome

/-- What is looked up for an instruction. -/
def lookups (m : Module) : Instr → List Lookup
  | .iterNext _ iter => [.loop iter]
  | i => (typedOperands m i).map .type

/-- What is looked up for a terminator. -/
def endLookups : Terminator → List Lookup
  | .ret value => [.type value]
  | .branchIter iter _ _ => [.loop iter]
  | _ => []

/-- What is looked up for a block. -/
def blockLookups (m : Module) (b : Block) : List Lookup :=
  b.instrs.flatMap (lookups m) ++ endLookups b.terminator

/-- A call out of the program: the name of the function in C and the types of the result and the arguments. -/
structure ForeignSite where
  name : String
  ret : Ty
  args : List Ty
  deriving DecidableEq, Repr

/-- The declaration that fits a call. -/
def ForeignSite.declaration (s : ForeignSite) : String :=
  "extern " ++ spell s.ret ++ " " ++ s.name ++ "(" ++ paramList (s.args.map spell) ++ ");"

/-- The call out of the program that an instruction is. -/
def foreignSite? (types : FunctionTypes) : Instr → Option ForeignSite
  | .callForeign _ module function args ret =>
    some ⟨foreignName module function, ret, args.filterMap types.temp?⟩
  | _ => none

/-- Adds what declares the function of a call, unless there is a declaration of its name. -/
def declare (known : List (String × String)) (s : ForeignSite) : List (String × String) :=
  if (known.lookup s.name).isSome then known else known ++ [(s.name, s.declaration)]

/-! ## Steps -/

section

variable {α β : Type} {c : Context} {x : Emit α} {f : α → Emit β} {asked asked' : List Lookup}
  {sites sites' : List ForeignSite}

/-- Whenever the step succeeds, what it asks for is found and the functions that the calls need are declared,
but not in the lines that are written; what it gives is as described. -/
def Emits (c : Context) (x : Emit α) (asked : List Lookup) (sites : List ForeignSite)
    (gives : α → Prop := fun _ => True) : Prop :=
  ∀ d a d', x c d = .ok (a, d') → (∀ l ∈ asked, l.Found c.types) ∧
    d'.needs.foreign = sites.foldl declare d.needs.foreign ∧ (AllPlain d.lines → AllPlain d'.lines) ∧ gives a

namespace Emits

variable {gives : α → Prop} {gives' : β → Prop}

theorem bind (hx : Emits c x asked sites gives) (hf : ∀ a, gives a → Emits c (f a) asked' sites' gives') :
    Emits c (x >>= f) (asked ++ asked') (sites ++ sites') gives' := by
  intro d b d'' h
  obtain ⟨⟨a, d'⟩, hfirst, hsecond⟩ := bind_eq_ok.1 (show (x c d >>= fun r => f r.1 c r.2) = .ok (b, d'') from h)
  obtain ⟨hasked, hforeign, hplain, ha⟩ := hx d a d' hfirst
  obtain ⟨hasked', hforeign', hplain', hb⟩ := hf a ha d' b d'' hsecond
  refine ⟨fun l hl => (List.mem_append.1 hl).elim (hasked l) (hasked' l), ?_, hplain' ∘ hplain, hb⟩
  rw [hforeign', hforeign, List.foldl_append]

/-- Less is asked for, or less is said of what is given. -/
theorem mono (hx : Emits c x asked sites gives) (hasked : asked' ⊆ asked) {gives' : α → Prop}
    (hgives : ∀ a, gives a → gives' a) : Emits c x asked' sites gives' := by
  intro d a d' h
  obtain ⟨hknown, hforeign, hplain, ha⟩ := hx d a d' h
  exact ⟨fun l hl => hknown l (hasked hl), hforeign, hplain, hgives a ha⟩

/-- The first step neither asks nor declares. -/
theorem quiet_bind (hx : Emits c x [] [] gives) (hf : ∀ a, gives a → Emits c (f a) asked sites gives') :
    Emits c (x >>= f) asked sites gives' := hx.bind hf

/-- The first step asks for one thing. -/
theorem cons_bind {l : Lookup} (hx : Emits c x [l] [] gives)
    (hf : ∀ a, gives a → Emits c (f a) asked sites gives') : Emits c (x >>= f) (l :: asked) sites gives' :=
  hx.bind hf

/-- The steps behind the first neither ask nor declare. -/
theorem bind_quiet (hx : Emits c x asked sites gives) (hf : ∀ a, gives a → Emits c (f a) [] [] gives') :
    Emits c (x >>= f) asked sites gives' := by
  have h := hx.bind hf
  rwa [List.append_nil, List.append_nil] at h

theorem of_pure {a : α} (ha : gives a) : Emits c (pure a) [] [] gives := by
  intro d b d' h
  cases h
  exact ⟨nofun, rfl, id, ha⟩

/-- What is looked up in the module. -/
theorem lift_bind {e : Except Error α} (h : ∀ a, e = .ok a → Emits c (f a) asked sites gives') :
    Emits c ((liftM e : Emit α) >>= f) asked sites gives' := by
  intro d b d' hrun
  cases he : e with
  | error err =>
      subst he
      cases hrun
  | ok a =>
      subst he
      exact h a rfl d b d' hrun

theorem read_bind {f : Context → Emit β} (h : Emits c (f c) asked sites gives') :
    Emits c (read >>= f) asked sites gives' := h

theorem get_bind {f : Draft → Emit β} (h : ∀ d, Emits c (f d) asked sites gives') :
    Emits c (get >>= f) asked sites gives' := fun d b d' hrun => h d d b d' hrun

theorem of_throw (e : Error) : Emits c (throw e : Emit α) asked sites gives := by
  intro d a d' h
  cases h

theorem of_modify {g : Draft → Draft} (hg : ∀ d, (g d).needs.foreign = sites.foldl declare d.needs.foreign)
    (hlines : ∀ d, AllPlain d.lines → AllPlain (g d).lines) : Emits c (modify g : Emit Unit) [] sites := by
  intro d a d' h
  cases h
  exact ⟨nofun, hg d, hlines d, trivial⟩

/-- A line is written that declares nothing. -/
theorem of_line {text : String} (htext : Plain text) :
    Emits c (modify fun d => { d with lines := d.lines ++ [text] } : Emit Unit) [] [] :=
  .of_modify (fun _ => rfl) fun _ hlines => allPlain_append.2 ⟨hlines, List.forall_mem_singleton.2 htext⟩

end Emits

/-! ## Texts and types -/

theorem emits_line (text : String) : Emits c (line text) [] [] := .of_line (plain_indent text)

theorem emits_assign (dest : Temp) (value : String) : Emits c (assign dest value) [] [] := emits_line _

theorem emits_tempType (t : Temp) : Emits c (tempType t) [.type t] [] (fun ty => c.types.temp? t = some ty) := by
  refine .read_bind ?_
  cases hty : c.types.temp? t with
  | none => exact .of_throw _
  | some ty =>
      intro d a d' h
      cases h
      refine ⟨List.forall_mem_singleton.2 ?_, rfl, id, rfl⟩
      rw [Lookup.Found, hty]
      rfl

/-- A type is looked up, whatever the temporary. -/
theorem emits_tempType_quiet (t : Temp) : Emits c (tempType t) [] [] :=
  (emits_tempType t).mono (List.nil_subset _) fun _ _ => trivial

theorem emits_iteratorOf (t : Temp) : Emits c (iteratorOf t) [.loop t] [] := by
  refine .read_bind ?_
  cases hit : c.types.iterator? t with
  | none => exact .of_throw _
  | some it =>
      intro d a d' h
      cases h
      refine ⟨List.forall_mem_singleton.2 ?_, rfl, id, trivial⟩
      rw [Lookup.Found, hit]
      rfl

theorem emits_varType (name : String) : Emits c (varType name) [] [] := by
  refine .read_bind ?_
  cases c.types.var? name with
  | none => exact .of_throw _
  | some ty => exact .of_pure trivial

theorem emits_unsupported (op : String) (ty : Ty) : Emits c (unsupported op ty : Emit α) asked sites :=
  .read_bind (.of_throw _)

/-- The C type of a type needs containers and nothing else. -/
theorem of_needType {needs needs' : Needs} {t : Ty} {text : String}
    (h : needType needs t = .ok (text, needs')) : text = spell t ∧ needs'.foreign = needs.foreign := by
  unfold needType at h
  split at h
  · cases h
    exact ⟨rfl, rfl⟩
  · cases h

theorem emits_cType (t : Ty) : Emits c (cType t) [] [] (· = spell t) := by
  intro d a d' h
  have hrun : (liftM (needType d.needs t) >>= fun r =>
      (do set { d with needs := r.2 }; return r.1) : Emit String) c d = .ok (a, d') := h
  cases hneed : needType d.needs t with
  | error e =>
      rw [hneed] at hrun
      cases hrun
  | ok r =>
      rw [hneed] at hrun
      cases hrun
      obtain ⟨htext, hforeign⟩ := of_needType hneed
      exact ⟨nofun, hforeign, id, htext⟩

/-! ## Expressions -/

theorem emits_coerceTemp (t : Temp) (target : Ty) : Emits c (coerceTemp t target) [.type t] [] :=
  (emits_tempType t).cons_bind fun _ _ => .of_pure trivial

theorem emits_lengthOf (object : String) (ty : Ty) : Emits c (lengthOf object ty) [] [] := by
  unfold lengthOf
  split
  case h_6 => exact emits_unsupported _ _
  all_goals exact .of_pure trivial

theorem emits_integerWord (ty : Ty) (op : String) : Emits c (integerWord ty op) [] [] := by
  unfold integerWord
  split
  case h_3 => exact emits_unsupported _ _
  all_goals exact .of_pure trivial

/-! ## Calls -/

theorem emits_callArgs (args : List Temp) (params : List Ty) :
    Emits c (callArgs args params) ((args.take params.length).map .type) [] := by
  induction args generalizing params with
  | nil =>
      rw [List.take_nil]
      exact .of_pure trivial
  | cons t rest ih =>
      cases params with
      | nil => exact .bind_quiet (ih []) fun _ _ => .of_pure trivial
      | cons param params =>
          exact .cons_bind (emits_coerceTemp t param) fun _ _ => .bind_quiet (ih params) fun _ _ => .of_pure trivial

theorem emits_finishCall (dest : Option Temp) (text : String) (ret : Ty) :
    Emits c (finishCall dest text ret) [] [] := by
  cases dest with
  | none => exact emits_line _
  | some t => exact (emits_tempType_quiet t).quiet_bind fun _ _ => emits_assign _ _

theorem emits_cTypes (ts : List Temp) :
    Emits c (cTypes ts) (ts.map .type) [] (· = (ts.filterMap c.types.temp?).map spell) := by
  induction ts with
  | nil => exact .of_pure rfl
  | cons t rest ih =>
      refine .cons_bind (emits_tempType t) fun ty hty => ?_
      refine .quiet_bind (emits_cType ty) fun text htext => ?_
      refine .bind_quiet ih fun texts htexts => .of_pure ?_
      rw [htext, htexts, List.filterMap_cons_some hty, List.map_cons]

theorem emits_declareForeign (s : ForeignSite) :
    Emits c (declareForeign s.name (spell s.ret) (s.args.map spell)) [] [s] := by
  refine .of_modify (fun d => ?_) fun d => ?_
  · show _ = declare d.needs.foreign s
    unfold declare
    split <;> rfl
  · split <;> exact id

theorem emits_needDispatcher (proto method : String) : Emits c (needDispatcher proto method) [] [] := by
  refine .of_modify (fun d => ?_) fun d => ?_
  · split <;> rfl
  · split <;> exact id

theorem emits_emitMethodCall (dest : Option Temp) (receiver : Temp) (proto method : String)
    (args : List Temp) : Emits c (emitMethodCall dest receiver proto method args)
      (lookups c.module (.callMethod dest receiver proto method args)) [] := by
  refine .read_bind (.lift_bind fun base hbase => ?_)
  show Emits c _ ((typedOperands c.module (.callMethod dest receiver proto method args)).map .type) []
  have hbody : methodBody? c.module proto method = some base := by
    unfold methodBody at hbase
    split at hbase
    · rename_i hbody
      rw [hbody, Except.ok.inj hbase]
    · cases hbase
  rw [typedOperands, hbody]
  have hcall : ∀ name receiverType, Emits c (do
      let self ← coerceTemp receiver receiverType
      let args ← callArgs args base.params.tail
      finishCall dest (call name (self :: args)) base.ret)
      ((receiver :: args.take base.params.tail.length).map .type) [] := fun name receiverType =>
    .cons_bind (emits_coerceTemp receiver receiverType) fun _ _ =>
      .bind_quiet (emits_callArgs args base.params.tail) fun _ _ => emits_finishCall _ _ _
  dsimp only
  split
  · exact (emits_needDispatcher proto method).quiet_bind fun _ _ => hcall _ _
  · exact hcall _ _

/-! ## Objects and containers -/

theorem emits_initialField (ty : Ty) : Emits c (initialField ty) [] [] := by
  unfold initialField
  split
  · exact (emits_cType _).quiet_bind fun _ _ => .of_pure trivial
  · exact (emits_cType _).quiet_bind fun _ _ => .of_pure trivial
  · exact .of_pure trivial
  · exact .of_pure trivial

theorem emits_emitFields (object : Temp) (fields : List Field) : Emits c (emitFields object fields) [] [] := by
  induction fields with
  | nil => exact .of_pure trivial
  | cons f rest ih =>
      refine (emits_initialField f.ty).quiet_bind fun value _ => ?_
      cases value with
      | none => exact ih
      | some value => exact (emits_line _).quiet_bind fun _ _ => ih

theorem emits_emitNewObject (dest : Temp) (proto : String) : Emits c (emitNewObject dest proto) [] [] :=
  .read_bind (.lift_bind fun l _ => (emits_assign _ _).quiet_bind fun _ _ => emits_emitFields dest l.fields)

theorem emits_emitWindow (dest source start stop : Temp) (ty : Ty) :
    Emits c (emitWindow dest source start stop ty) [.type source] [] := by
  refine .cons_bind (emits_tempType source) fun sourceType _ => ?_
  refine (emits_cType ty).quiet_bind fun _ _ => (emits_lengthOf _ _).quiet_bind fun len _ => ?_
  have hwindow : ∀ ptr : String, Emits c (do
      line (call "ps_check_range" [tempName start, tempName stop, len] ++ ";")
      assign dest ("(" ++ containerName ty ++ ")" ++ braces (ptr ++ " + " ++ tempName start ++ ", " ++
        tempName stop ++ " - " ++ tempName start))) [] [] :=
    fun _ => (emits_line _).quiet_bind fun _ _ => emits_assign _ _
  dsimp only
  split
  case h_5 => exact (emits_unsupported _ _).quiet_bind fun ptr _ => hwindow ptr
  all_goals exact hwindow _

theorem emits_emitItems (ty elem : Ty) (list : Temp) (items : List Temp) :
    Emits c (emitItems ty elem list items) (items.map .type) [] := by
  induction items with
  | nil => exact .of_pure trivial
  | cons t rest ih =>
      exact .cons_bind (emits_coerceTemp t elem) fun _ _ => (emits_line _).quiet_bind fun _ _ => ih

theorem emits_emitEntries (ty key value : Ty) (map : Temp) (entries : List (Temp × Temp)) :
    Emits c (emitEntries ty key value map entries) ((entries.flatMap fun e => [e.1, e.2]).map .type) [] := by
  induction entries with
  | nil => exact .of_pure trivial
  | cons e rest ih =>
      refine .cons_bind (emits_coerceTemp e.1 key) fun _ _ => ?_
      exact .cons_bind (emits_coerceTemp e.2 value) fun _ _ => (emits_line _).quiet_bind fun _ _ => ih

theorem emits_emitIndexGet (dest object index : Temp) :
    Emits c (emitIndexGet dest object index) [.type object] [] := by
  refine .cons_bind (emits_tempType object) fun ty _ => ?_
  dsimp only
  split
  · exact emits_assign _ _
  · exact emits_assign _ _
  · exact emits_assign _ _
  · exact (emits_cType _).quiet_bind fun _ _ => emits_assign _ _
  · exact emits_assign _ _
  · exact emits_unsupported _ _

theorem emits_emitIndexSet (object index value : Temp) :
    Emits c (emitIndexSet object index value) [.type object, .type value] [] := by
  refine .cons_bind (emits_tempType object) fun ty _ => ?_
  refine .cons_bind (emits_coerceTemp value _) fun v _ => ?_
  dsimp only
  split
  · exact emits_line _
  · exact emits_line _
  · exact (emits_cType _).quiet_bind fun _ _ => emits_line _
  · exact emits_unsupported _ _

theorem emits_nextItem (it : Iterator) (position : String) : Emits c (nextItem it position) [] [] := by
  unfold nextItem
  dsimp only
  split
  case h_8 => exact emits_unsupported _ _
  all_goals exact .of_pure trivial

/-! ## Instructions -/

theorem emits_emitCheck (check : Check) :
    Emits c (emitCheck check) (lookups c.module (.check check)) [] := by
  cases check with
  | overflow op left right ty =>
      have hword : ∀ word : String, Emits c (do
          let width ← integerWord ty "check_overflow"
          line (call ("ps_check_" ++ word ++ "_" ++ width) [tempName left, tempName right] ++ ";")) [] [] :=
        fun _ => (emits_integerWord _ _).quiet_bind fun _ _ => emits_line _
      unfold emitCheck
      dsimp only
      split
      case h_4 => exact (emits_unsupported _ _).quiet_bind fun word _ => hword word
      all_goals exact hword _
  | negOverflow operand ty => exact (emits_integerWord _ _).quiet_bind fun _ _ => emits_line _
  | divZero divisor => exact emits_line _
  | shiftRange amount width => exact emits_line _
  | indexBounds object index =>
      exact .cons_bind (emits_tempType object) fun _ _ =>
        (emits_lengthOf _ _).quiet_bind fun _ _ => emits_line _
  | mapKey map key =>
      exact .cons_bind (emits_tempType map) fun _ _ => (emits_cType _).quiet_bind fun _ _ => emits_line _

/-- Writing an instruction asks for the operands that `typedOperands` names; loops that are begun are known
from inference. -/
theorem emits_emitInstr (i : Instr)
    (hbegin : ∀ dest iterable kind elem, i = .iterBegin dest iterable kind elem → (c.types.temp? iterable).isSome) :
    Emits c (emitInstr i) (lookups c.module i) (foreignSite? c.types i).toList := by
  cases i with
  | const dest value => exact emits_assign _ _
  | copy dest src =>
      exact (emits_tempType_quiet dest).quiet_bind fun ty _ => .cons_bind (emits_coerceTemp src ty) fun _ _ => emits_assign _ _
  | varDecl name ty => exact .of_pure trivial
  | loadVar dest name => exact emits_assign _ _
  | storeVar name src =>
      exact (emits_varType name).quiet_bind fun ty _ =>
        .cons_bind (emits_coerceTemp src ty) fun _ _ => emits_line _
  | binary dest op left right =>
      refine .cons_bind (emits_tempType left) fun ty _ => ?_
      split
      · exact emits_assign _ _
      · exact emits_unsupported _ _
  | unary dest op operand => exact .cons_bind (emits_tempType operand) fun _ _ => emits_assign _ _
  | select dest cond thenValue elseValue =>
      refine (emits_tempType_quiet dest).quiet_bind fun ty _ => .cons_bind (emits_coerceTemp thenValue ty) fun _ _ => ?_
      exact .cons_bind (emits_coerceTemp elseValue ty) fun _ _ => emits_assign _ _
  | cast dest src target =>
      refine .cons_bind (emits_tempType src) fun ty _ => ?_
      split
      · exact emits_assign _ _
      · exact emits_unsupported _ _
  | callStatic dest callee args =>
      refine .read_bind ?_
      show Emits c _ ((typedOperands c.module (.callStatic dest callee args)).map .type) []
      rw [typedOperands]
      cases function? c.module callee with
      | none => exact .of_throw _
      | some f =>
          have hargs : Emits c (callArgs args (f.params.map (·.ty)))
              ((args.take f.params.length).map .type) [] := by
            rw [← List.length_map]
            exact emits_callArgs _ _
          exact .bind_quiet hargs fun _ _ => emits_finishCall _ _ _
  | callMethod dest receiver proto method args => exact emits_emitMethodCall _ _ _ _ _
  | callForeign dest module function args ret =>
      have hdeclare : ∀ params, params = (args.filterMap c.types.temp?).map spell → Emits c (do
          declareForeign (foreignName module function) (← cType ret) params
          finishCall dest (call (foreignName module function) (args.map tempName)) ret) []
          [⟨foreignName module function, ret, args.filterMap c.types.temp?⟩] := by
        rintro _ rfl
        refine (emits_cType ret).quiet_bind ?_
        rintro _ rfl
        exact .bind_quiet (emits_declareForeign ⟨_, _, _⟩) fun _ _ => emits_finishCall _ _ _
      have hcall := (emits_cTypes args).bind hdeclare
      rwa [List.append_nil] at hcall
  | newObject dest proto => exact emits_emitNewObject _ _
  | cloneObject dest src proto => exact .read_bind (.lift_bind fun _ _ => emits_assign _ _)
  | fieldGet dest object proto field => exact .read_bind (.lift_bind fun _ _ => emits_assign _ _)
  | fieldSet object proto field value =>
      exact .read_bind (.lift_bind fun ty _ => .cons_bind (emits_coerceTemp value ty) fun _ _ => emits_line _)
  | indexGet dest object index => exact emits_emitIndexGet _ _ _
  | indexSet object index value => exact emits_emitIndexSet _ _ _
  | makeList dest elem items =>
      exact (emits_cType _).quiet_bind fun _ _ => (emits_assign _ _).quiet_bind fun _ _ => emits_emitItems _ _ _ _
  | makeMap dest key value entries =>
      exact (emits_cType _).quiet_bind fun _ _ =>
        (emits_assign _ _).quiet_bind fun _ _ => emits_emitEntries _ _ _ _ _
  | makeView dest source start stop elem => exact emits_emitWindow _ _ _ _ _
  | makeSlice dest source start stop elem => exact emits_emitWindow _ _ _ _ _
  | listPush list value =>
      refine .cons_bind (emits_tempType list) fun ty _ => .cons_bind (emits_coerceTemp value _) fun _ _ => ?_
      exact (emits_cType ty).quiet_bind fun _ _ => emits_line _
  | listPop dest list =>
      exact .cons_bind (emits_tempType list) fun ty _ => (emits_cType ty).quiet_bind fun _ _ => emits_assign _ _
  | listClear list => exact emits_line _
  | mapHas dest map key =>
      exact .cons_bind (emits_tempType map) fun ty _ => (emits_cType ty).quiet_bind fun _ _ => emits_assign _ _
  | mapRemove map key =>
      exact .cons_bind (emits_tempType map) fun ty _ => (emits_cType ty).quiet_bind fun _ _ => emits_line _
  | length dest object =>
      exact .cons_bind (emits_tempType object) fun ty _ =>
        (emits_lengthOf _ ty).quiet_bind fun _ _ => emits_assign _ _
  | iterBegin dest iterable kind elem =>
      intro d a d' h
      obtain ⟨_, hwritten⟩ := emits_assign dest "0" d a d' h
      exact ⟨List.forall_mem_singleton.2 (hbegin _ _ _ _ rfl), hwritten⟩
  | iterNext dest iter =>
      exact .cons_bind (emits_iteratorOf iter) fun it _ => (emits_nextItem it _).quiet_bind fun _ _ => emits_assign _ _
  | print value =>
      refine .cons_bind (emits_tempType value) fun ty _ => ?_
      split
      · split
        · exact emits_unsupported _ _
        · exact emits_line _
      · exact emits_unsupported _ _
  | throw value => exact emits_line _
  | setupTry handler =>
      refine .get_bind fun d => .quiet_bind (.of_modify (fun _ => rfl) fun _ => id) fun _ _ => ?_
      exact (emits_line _).quiet_bind fun _ _ => (emits_line _).quiet_bind fun _ _ => emits_line _
  | endTry => exact emits_line _
  | catchValue dest =>
      exact (emits_tempType_quiet dest).quiet_bind fun ty _ => (emits_cType ty).quiet_bind fun _ _ => emits_assign _ _
  | instanceOf dest object proto => exact .read_bind (.lift_bind fun _ _ => emits_assign _ _)
  | check condition => exact emits_emitCheck condition

/-! ## Blocks -/

theorem emits_emitGoto (label : String) : Emits c (emitGoto label) [] [] := emits_line _

theorem emits_emitBranch (condition thenTarget elseTarget : String) :
    Emits c (emitBranch condition thenTarget elseTarget) [] [] :=
  (emits_line _).quiet_bind fun _ _ => emits_emitGoto _

theorem emits_emitTerminator (t : Terminator) : Emits c (emitTerminator t) (endLookups t) [] := by
  cases t with
  | ret value => exact .read_bind (.cons_bind (emits_coerceTemp value _) fun _ _ => emits_line _)
  | retVoid => exact emits_line _
  | jump target => exact emits_emitGoto _
  | branch cond thenTarget elseTarget => exact emits_emitBranch _ _ _
  | branchIter iter body done =>
      exact .cons_bind (emits_iteratorOf iter) fun it _ =>
        (emits_lengthOf _ _).quiet_bind fun _ _ => emits_emitBranch _ _ _
  | unreachable => exact emits_line _

/-- The loops that are begun are over temporaries that are known. -/
def BeginsKnown (types : FunctionTypes) (instrs : List Instr) : Prop :=
  ∀ i ∈ instrs, ∀ dest iterable kind elem, i = .iterBegin dest iterable kind elem → (types.temp? iterable).isSome

theorem emits_emitInstrs {instrs : List Instr} (hbegins : BeginsKnown c.types instrs) :
    Emits c (instrs.forM emitInstr) (instrs.flatMap (lookups c.module))
      (instrs.filterMap (foreignSite? c.types)) := by
  induction instrs with
  | nil => exact .of_pure trivial
  | cons i rest ih =>
      obtain ⟨hi, hrest⟩ := List.forall_mem_cons.1 hbegins
      have hsites : (i :: rest).filterMap (foreignSite? c.types) =
          (foreignSite? c.types i).toList ++ rest.filterMap (foreignSite? c.types) := by
        rw [List.filterMap_cons]
        cases foreignSite? c.types i <;> rfl
      rw [List.flatMap_cons, hsites]
      exact (emits_emitInstr i hi).bind fun _ _ => ih hrest

theorem emits_emitBlocks {blocks : List Block} (hbegins : BeginsKnown c.types (blocks.flatMap Block.instrs)) :
    Emits c (emitBlocks blocks) (blocks.flatMap (blockLookups c.module))
      ((blocks.flatMap Block.instrs).filterMap (foreignSite? c.types)) := by
  induction blocks with
  | nil => exact .of_pure trivial
  | cons b rest ih =>
      obtain ⟨hb, hrest⟩ := List.forall_mem_append.1 hbegins
      have hlabel : Plain (labelName b.label ++ ":;") := (((starts_text (by decide)).append _).append _).plain
      refine .quiet_bind (.of_line hlabel) fun _ _ => ?_
      rw [List.flatMap_cons, List.flatMap_cons, List.filterMap_append, blockLookups, List.append_assoc]
      exact (emits_emitInstrs hb).bind fun _ _ => (emits_emitTerminator _).bind fun _ _ => ih hrest

/-! ## Functions -/

theorem emits_localLines (qualifier : String) (vars : List (String × Ty)) :
    Emits c (localLines qualifier vars) [] [] AllPlain := by
  induction vars with
  | nil => exact .of_pure allPlain_nil
  | cons v rest ih =>
      exact (emits_cType v.2).quiet_bind fun _ _ => ih.quiet_bind fun _ hrest =>
        .of_pure (allPlain_cons.2 ⟨plain_indent _, hrest⟩)

theorem emits_emitBody (hbegins : BeginsKnown c.types c.function.instrs) :
    Emits c emitBody (c.function.blocks.flatMap (blockLookups c.module))
      (c.function.instrs.filterMap (foreignSite? c.types)) AllPlain := by
  refine .read_bind (.bind_quiet (emits_emitBlocks hbegins) fun _ _ => .get_bind fun d => ?_)
  refine (emits_localLines _ _).quiet_bind fun temps htemps => ?_
  refine (emits_localLines _ _).quiet_bind fun vars hvars => .of_pure ?_
  refine allPlain_append.2 ⟨allPlain_append.2 ⟨allPlain_append.2 ⟨htemps, ?_⟩, hvars⟩, ?_⟩
  · exact List.forall_mem_map.2 fun _ _ => plain_indent _
  · exact List.forall_mem_map.2 fun _ _ => plain_indent _

end

section

variable {m : Module} {needs needs' : Needs} {f : Function}

theorem of_signature {head : String} (h : signature needs f = .ok (head, needs')) :
    needs'.foreign = needs.foreign ∧ Starts head := by
  obtain ⟨⟨ret, needs₁⟩, hret, h⟩ := bind_eq_ok.1 h
  obtain ⟨⟨params, needs₂⟩, hparams, h⟩ := bind_eq_ok.1 h
  cases h
  have hkept : needs'.foreign = needs₁.foreign := by
    refine foldlM_keeps (P := fun r => r.2.foreign = needs₁.foreign) ?_ rfl hparams
    rintro p _ ⟨_, needs₃⟩ r hkept hstep
    obtain ⟨⟨text, needs₄⟩, hp, hstep⟩ := bind_eq_ok.1 hstep
    cases hstep
    exact (of_needType hp).2.trans hkept
  have hstatic : Starts "static " := starts_text (by decide)
  exact ⟨hkept.trans (of_needType hret).2, by simp [hstatic, Starts.append, String.append_assoc]⟩

/-- The calls out of the program in a function, with the types that are inferred. -/
def sitesOf (m : Module) (f : Function) : List ForeignSite :=
  match inferFunction m f with
  | .ok types => f.instrs.filterMap (foreignSite? types)
  | .error _ => []

/-- In a function whose types are inferred, every loop is over a temporary that is known. -/
theorem beginsKnown_of_inferFunction {T : FunctionTypes} (hdests : f.dests.Nodup)
    (h : inferFunction m f = .ok T) : BeginsKnown T f.instrs := by
  rintro _ hi dest iterable kind elem rfl
  obtain ⟨_, ty, hty, _⟩ := yields_of_inferFunction hdests h hi rfl
  rw [hty]
  rfl

/-- The temporaries whose types a function asks for are known, and the functions it calls out of the program
are declared, in other lines than those of the function. -/
theorem of_emitFunction {head : String} {lines : Lines} (hdests : f.dests.Nodup)
    (h : emitFunction m needs f = .ok (head, lines, needs')) :
    (∃ T, inferFunction m f = .ok T ∧ ∀ l ∈ f.blocks.flatMap (blockLookups m), l.Found T) ∧
      needs'.foreign = (sitesOf m f).foldl declare needs.foreign ∧ Starts head ∧ AllPlain lines := by
  obtain ⟨⟨_, needs₁⟩, hhead, h⟩ := bind_eq_ok.1 h
  obtain ⟨T, hT, h⟩ := bind_eq_ok.1 h
  obtain ⟨⟨locals, draft⟩, hbody, h⟩ := bind_eq_ok.1 h
  cases h
  have hemits := emits_emitBody (c := { module := m, function := f, types := T })
    (beginsKnown_of_inferFunction hdests hT)
  obtain ⟨hknown, hforeign, hplain, hlocals⟩ := hemits _ _ _ hbody
  obtain ⟨hsame, hstarts⟩ := of_signature hhead
  refine ⟨⟨T, hT, hknown⟩, ?_, hstarts, ?_⟩
  · rw [hforeign, sitesOf, hT, hsame]
  · simp [hlocals, hplain allPlain_nil, (hstarts.append _).plain]

/-- The body of a function, with the temporaries, loops and variables that are declared in it in order. -/
def bodyWith (f : Function) (temps : List (Temp × Ty)) (iterators : List (Temp × Iterator))
    (vars : List (String × Ty)) : Emit Lines := do
  emitBlocks f.blocks
  let handlers := (← get).handlers
  let qualifier := if handlers = 0 then "" else " volatile"
  let temps ← localLines qualifier (temps.map fun (t, ty) => (tempName t, ty))
  let iterators := iterators.map fun (t, _) => indent ("int64_t" ++ qualifier ++ " " ++ tempName t ++ " = 0;")
  let vars ← localLines qualifier (vars.map fun (name, ty) => (varName name, ty))
  let slots := (List.range handlers).map fun n => indent ("ps_handler ps_try" ++ toString n ++ ";")
  return temps ++ iterators ++ vars ++ slots

theorem emitBody_run (c : Context) : emitBody.run c = (bodyWith c.function (sortTemps c.types.temps)
    (sortTemps c.types.iterators) (localVariables c.function c.types)).run c := rfl

theorem sortTemps_nil {α : Type} : sortTemps ([] : List (Temp × α)) = [] := List.mergeSort_nil

/-- Two temporaries that are in order stay so. -/
theorem sortTemps_pair {α : Type} (a b : α) : sortTemps [(0, a), (1, b)] = [(0, a), (1, b)] := by
  simp [sortTemps, List.mergeSort]

theorem localVariables_nil {temps : List (Temp × Ty)} {iterators : List (Temp × Iterator)} :
    localVariables f { temps, iterators } = [] := List.mergeSort_nil

/-- A function is written with the types that are inferred, once what it declares is in order. -/
theorem emitFunction_eq {T : FunctionTypes} {temps : List (Temp × Ty)} {iterators : List (Temp × Iterator)}
    {vars : List (String × Ty)} (hT : inferFunction m f = .ok T) (htemps : sortTemps T.temps = temps)
    (hiterators : sortTemps T.iterators = iterators) (hvars : localVariables f T = vars) :
    emitFunction m needs f = do
      let (head, needs) ← signature needs f
      let (locals, draft) ←
        ((bodyWith f temps iterators vars).run { module := m, function := f, types := T }).run { needs }
      return (head, [head ++ " \x7b"] ++ locals ++ draft.lines ++ ["\x7d"], draft.needs) := by
  subst htemps hiterators hvars
  rw [emitFunction]
  simp only [hT, ok_bind, emitBody_run]

theorem of_emitFunctions {functions : List Function} {heads : List String} {bodies : List Lines}
    (hdests : ∀ f ∈ functions, f.dests.Nodup)
    (h : emitFunctions m needs functions = .ok (heads, bodies, needs')) :
    (∀ f ∈ functions, ∃ T, inferFunction m f = .ok T ∧ ∀ l ∈ f.blocks.flatMap (blockLookups m), l.Found T) ∧
      needs'.foreign = (functions.flatMap (sitesOf m)).foldl declare needs.foreign ∧
      (∀ head ∈ heads, Starts head) ∧ ∀ body ∈ bodies, AllPlain body := by
  induction functions generalizing needs heads bodies with
  | nil =>
      cases h
      exact ⟨nofun, rfl, nofun, nofun⟩
  | cons f rest ih =>
      obtain ⟨hf, hrest⟩ := List.forall_mem_cons.1 hdests
      obtain ⟨⟨_, _, needs₁⟩, hfirst, h⟩ := bind_eq_ok.1 h
      obtain ⟨⟨_, _, needs₂⟩, hlater, h⟩ := bind_eq_ok.1 h
      cases h
      obtain ⟨hT, hforeign, hstarts, hplain⟩ := of_emitFunction hf hfirst
      obtain ⟨hall, hforeign', hheads, hbodies⟩ := ih hrest hlater
      refine ⟨List.forall_mem_cons.2 ⟨hT, hall⟩, ?_, List.forall_mem_cons.2 ⟨hstarts, hheads⟩,
        List.forall_mem_cons.2 ⟨hplain, hbodies⟩⟩
      rw [hforeign', hforeign, List.flatMap_cons, List.foldl_append]

/-! ## Modules

Dispatchers and structs need containers, but no functions outside the program. -/

theorem foreign_of_dispatchCall {body : MethodBody} {ret : Ty} {args : List String} {text : String}
    (h : dispatchCall needs body ret args = .ok (text, needs')) : needs'.foreign = needs.foreign := by
  obtain ⟨⟨receiver, needs₁⟩, hreceiver, h⟩ := bind_eq_ok.1 h
  rw [← (of_needType hreceiver).2]
  dsimp only at h
  split at h
  · cases h
    rfl
  · split at h <;> cases h <;> rfl

theorem of_dispatchCases {method : String} {base : MethodBody} {args : List String}
    {layouts : List Layout} {lines : Lines}
    (h : dispatchCases m method base args needs layouts = .ok (lines, needs')) :
    needs'.foreign = needs.foreign ∧ AllPlain lines := by
  induction layouts generalizing needs lines with
  | nil =>
      cases h
      exact ⟨rfl, allPlain_nil⟩
  | cons l rest ih =>
      obtain ⟨body, _, h⟩ := bind_eq_ok.1 h
      split at h
      · exact ih h
      · obtain ⟨⟨text, needs₁⟩, hcall, h⟩ := bind_eq_ok.1 h
        obtain ⟨⟨lines', needs₂⟩, hrest, h⟩ := bind_eq_ok.1 h
        cases h
        obtain ⟨hforeign, hplain⟩ := ih hrest
        exact ⟨hforeign.trans (foreign_of_dispatchCall hcall), allPlain_cons.2 ⟨plain_indent _, hplain⟩⟩

theorem foreign_of_dispatchParams {n : Nat} {tys : List Ty} {params : List String}
    (h : dispatchParams needs n tys = .ok (params, needs')) : needs'.foreign = needs.foreign := by
  induction tys generalizing needs n params with
  | nil =>
      cases h
      rfl
  | cons ty rest ih =>
      obtain ⟨⟨text, needs₁⟩, hty, h⟩ := bind_eq_ok.1 h
      obtain ⟨⟨params', needs₂⟩, hrest, h⟩ := bind_eq_ok.1 h
      cases h
      exact (ih hrest).trans (of_needType hty).2

theorem of_dispatcher {proto method head : String} {lines : Lines}
    (h : dispatcher m needs proto method = .ok (head, lines, needs')) :
    needs'.foreign = needs.foreign ∧ Starts head ∧ AllPlain lines := by
  obtain ⟨base, _, h⟩ := bind_eq_ok.1 h
  obtain ⟨⟨ret, needs₁⟩, hret, h⟩ := bind_eq_ok.1 h
  obtain ⟨⟨params, needs₂⟩, hparams, h⟩ := bind_eq_ok.1 h
  obtain ⟨⟨cases, needs₃⟩, hcases, h⟩ := bind_eq_ok.1 h
  obtain ⟨⟨text, needs₄⟩, hcall, h⟩ := bind_eq_ok.1 h
  cases h
  obtain ⟨hforeign, hplain⟩ := of_dispatchCases hcases
  have hstatic : Starts "static " := starts_text (by decide)
  refine ⟨?_, ?_, ?_⟩
  · calc needs'.foreign = needs₃.foreign := foreign_of_dispatchCall hcall
      _ = needs₂.foreign := hforeign
      _ = needs₁.foreign := foreign_of_dispatchParams hparams
      _ = needs.foreign := (of_needType hret).2
  · simp [hstatic, Starts.append, String.append_assoc]
  · simp [hplain, hstatic, Starts.append, Starts.plain, String.append_assoc]

theorem of_dispatchers {methods : List (String × String)} {heads : List String} {bodies : List Lines}
    (h : dispatchers m needs methods = .ok (heads, bodies, needs')) :
    needs'.foreign = needs.foreign ∧ (∀ head ∈ heads, Starts head) ∧ ∀ body ∈ bodies, AllPlain body := by
  induction methods generalizing needs heads bodies with
  | nil =>
      cases h
      exact ⟨rfl, nofun, nofun⟩
  | cons p rest ih =>
      obtain ⟨⟨_, _, needs₁⟩, hfirst, h⟩ := bind_eq_ok.1 h
      obtain ⟨⟨_, _, needs₂⟩, hrest, h⟩ := bind_eq_ok.1 h
      cases h
      obtain ⟨hforeign, hstarts, hplain⟩ := of_dispatcher hfirst
      obtain ⟨hforeign', hheads, hbodies⟩ := ih hrest
      exact ⟨hforeign'.trans hforeign, List.forall_mem_cons.2 ⟨hstarts, hheads⟩,
        List.forall_mem_cons.2 ⟨hplain, hbodies⟩⟩

theorem foreign_of_fieldLines {fields : List Field} {lines : Lines}
    (h : fieldLines needs fields = .ok (lines, needs')) : needs'.foreign = needs.foreign := by
  induction fields generalizing needs lines with
  | nil =>
      cases h
      rfl
  | cons f rest ih =>
      obtain ⟨⟨text, needs₁⟩, hf, h⟩ := bind_eq_ok.1 h
      obtain ⟨⟨lines', needs₂⟩, hrest, h⟩ := bind_eq_ok.1 h
      cases h
      exact (ih hrest).trans (of_needType hf).2

theorem of_structLines {layouts : List Layout} {lines : Lines}
    (h : structLines needs layouts = .ok (lines, needs')) : needs'.foreign = needs.foreign ∧ AllPlain lines := by
  induction layouts generalizing needs lines with
  | nil =>
      cases h
      exact ⟨rfl, allPlain_nil⟩
  | cons l rest ih =>
      obtain ⟨⟨fields, needs₁⟩, hfields, h⟩ := bind_eq_ok.1 h
      obtain ⟨⟨lines', needs₂⟩, hrest, h⟩ := bind_eq_ok.1 h
      cases h
      obtain ⟨hforeign, hplain⟩ := ih hrest
      have hstruct : Starts ("struct " ++ structName l.name) := (starts_text (by decide)).append _
      refine ⟨hforeign.trans (foreign_of_fieldLines hfields), ?_⟩
      exact allPlain_append.2 ⟨allPlain_append.2 ⟨allPlain_blockThen hstruct _ _,
        List.forall_mem_singleton.2 plain_empty⟩, hplain⟩

theorem allPlain_heads {heads : List String} (h : ∀ head ∈ heads, Starts head) :
    AllPlain (heads.map (· ++ ";")) :=
  List.forall_mem_map.2 fun head hhead => ((h head hhead).append _).plain

theorem allPlain_bodies {bodies : List Lines} (h : ∀ body ∈ bodies, AllPlain body) :
    AllPlain (bodies.flatMap (· ++ [""])) := by
  intro line hline
  obtain ⟨body, hbody, hline⟩ := List.mem_flatMap.1 hline
  have hended : AllPlain (body ++ [""]) :=
    allPlain_append.2 ⟨h body hbody, List.forall_mem_singleton.2 plain_empty⟩
  exact hended line hline

/-- If C is generated, what the functions ask for is known, there is a declaration for every call out of the
program, and no line but these declares anything outside the program. -/
theorem of_generate {withPrelude : Bool} {text : String} (h : generate m withPrelude = .ok text) :
    (∀ f ∈ m.functions, ∃ T, inferFunction m f = .ok T ∧ ∀ l ∈ f.blocks.flatMap (blockLookups m), l.Found T) ∧
      ∃ before behind, AllPlain before ∧ AllPlain behind ∧ text =
        Lines.text (before ++ ((m.functions.flatMap (sitesOf m)).foldl declare []).map (·.2) ++ behind) := by
  unfold generate at h
  split at h
  case isFalse => cases h
  rename_i hvalid
  obtain ⟨lines, hlines, htext⟩ := bind_eq_ok.1 h
  cases htext
  obtain ⟨⟨heads, bodies, needs₁⟩, hfunctions, hlines⟩ := bind_eq_ok.1 hlines
  obtain ⟨⟨dispatchHeads, dispatchBodies, needs₂⟩, hdispatchers, hlines⟩ := bind_eq_ok.1 hlines
  obtain ⟨⟨structs, needs₃⟩, hstructs, hlines⟩ := bind_eq_ok.1 hlines
  obtain ⟨tables, htables, hlines⟩ := bind_eq_ok.1 hlines
  cases hlines
  have hdests : ∀ f ∈ m.functions, f.dests.Nodup := fun f hf => (((Module.isValid_iff m).1 hvalid).1 f hf).dests
  obtain ⟨hknown, hforeign, hheads, hbodies⟩ := of_emitFunctions hdests hfunctions
  obtain ⟨hforeign₂, hheads₂, hbodies₂⟩ := of_dispatchers hdispatchers
  obtain ⟨hforeign₃, hplain₃⟩ := of_structLines hstructs
  have hsites : needs₃.foreign = (m.functions.flatMap (sitesOf m)).foldl declare [] := by
    rw [hforeign₃, hforeign₂, hforeign]
  refine ⟨hknown, ?_⟩
  rw [hsites, List.append_assoc, List.append_assoc, List.append_assoc]
  refine ⟨_, _, ?_, ?_, rfl⟩
  · have hcomment : Starts "/* generated from ProtoScript module `" := starts_text (by decide)
    have hinclude : Starts "#include \"" := starts_text (by decide)
    have htypedef : Starts "typedef struct " := starts_text (by decide)
    have hruntime : AllPlain (if withPrelude then preludeText else ["#include \"" ++ runtimeHeader ++ "\""]) := by
      split
      · exact allPlain_preludeText
      · exact List.forall_mem_singleton.2 ((hinclude.append _).append _).plain
    have htypes : AllPlain (m.layouts.map fun l =>
        "typedef struct " ++ structName l.name ++ " " ++ structName l.name ++ ";") :=
      List.forall_mem_map.2 fun l _ => ((((htypedef.append _).append _).append _).append _).plain
    simp [((hcomment.append _).append _).plain, hruntime, htypes, allPlain_containers, hplain₃,
      allPlain_tableLines htables, allPlain_defaultLines]
  · have hall : ∀ head ∈ heads ++ dispatchHeads, Starts head := List.forall_mem_append.2 ⟨hheads, hheads₂⟩
    have hdefined : ∀ body ∈ dispatchBodies ++ bodies, AllPlain body :=
      List.forall_mem_append.2 ⟨hbodies₂, hbodies⟩
    have hgap : AllPlain [""] := List.forall_mem_singleton.2 plain_empty
    refine allPlain_append.2 ⟨allPlain_heads hall, allPlain_append.2 ⟨hgap, ?_⟩⟩
    exact allPlain_append.2 ⟨allPlain_bodies hdefined, allPlain_mainLines m⟩

end

end C

end ProtoScript
