import ProtoScript.Constant.Basic
import ProtoScript.Source.Operator
import ProtoScript.Source.Stmt

set_option autoImplicit false

/-!
# Instructions

The intermediate form is made of flat instructions over numbered temporaries. An instruction
defines at most one temporary and reads others; variables of the program are declared, loaded and
stored by name. Run-time safety checks form a type of their own.
-/

namespace ProtoScript.Ir

/-- A temporary, by number. -/
abbrev Temp := Nat

/-- The temporary behind another one. Numbers have 32 bits, so there is none behind the last. -/
def Temp.next? (t : Temp) : Option Temp := if t + 1 < UInt32.size then some (t + 1) else none

/-- A safety check: it stops the run unless its condition holds. -/
inductive Check where
  /-- `left op right` fits `ty`. -/
  | overflow (op : BinaryOp) (left right : Temp) (ty : Ty)
  /-- `-operand` fits `ty`. -/
  | negOverflow (operand : Temp) (ty : Ty)
  /-- The divisor is not zero. -/
  | divZero (divisor : Temp)
  /-- `0 ≤ amount < width`. -/
  | shiftRange (amount : Temp) (width : Nat)
  /-- `index` is a position of `object`. -/
  | indexBounds (object index : Temp)
  /-- The map holds the key. -/
  | mapKey (map key : Temp)
  deriving DecidableEq, Repr

/-- An instruction. -/
inductive Instr where
  | const (dest : Temp) (value : Constant)
  | copy (dest src : Temp)
  /-- Declares a local variable; parameters are declared by the function. -/
  | varDecl (name : String) (ty : Ty)
  | loadVar (dest : Temp) (name : String)
  | storeVar (name : String) (src : Temp)
  | binary (dest : Temp) (op : BinaryOp) (left right : Temp)
  | unary (dest : Temp) (op : UnaryOp) (operand : Temp)
  /-- One of two values that have both been computed. -/
  | select (dest cond thenValue elseValue : Temp)
  | cast (dest src : Temp) (target : Ty)
  /-- Calls a function of the module. -/
  | callStatic (dest : Option Temp) (callee : String) (args : List Temp)
  /-- Calls a method by the receiver's prototype; `proto` is the static one. -/
  | callMethod (dest : Option Temp) (receiver : Temp) (proto method : String) (args : List Temp)
  /-- Calls out of the program. -/
  | callForeign (dest : Option Temp) (module function : String) (args : List Temp) (ret : Ty)
  /-- A new instance with all fields zero. -/
  | newObject (dest : Temp) (proto : String)
  /-- A shallow copy. -/
  | cloneObject (dest src : Temp) (proto : String)
  | fieldGet (dest object : Temp) (proto field : String)
  | fieldSet (object : Temp) (proto field : String) (value : Temp)
  | indexGet (dest object index : Temp)
  | indexSet (object index value : Temp)
  | makeList (dest : Temp) (elem : Ty) (items : List Temp)
  | makeMap (dest : Temp) (key value : Ty) (entries : List (Temp × Temp))
  /-- The read-only window from `start` to before `stop`. -/
  | makeView (dest source start stop : Temp) (elem : Ty)
  /-- The writable window from `start` to before `stop`. -/
  | makeSlice (dest source start stop : Temp) (elem : Ty)
  | listPush (list value : Temp)
  | listPop (dest list : Temp)
  | listClear (list : Temp)
  | mapHas (dest map key : Temp)
  | mapRemove (map key : Temp)
  | length (dest object : Temp)
  /-- Starts a loop over a container; `elem` is the type of what it visits. -/
  | iterBegin (dest iterable : Temp) (kind : IterKind) (elem : Ty)
  /-- The next item of a loop that has one. -/
  | iterNext (dest iter : Temp)
  | print (value : Temp)
  | throw (value : Temp)
  /-- Sends exceptions to `handler` until the matching `endTry`. -/
  | setupTry (handler : String)
  | endTry
  /-- The exception being handled. -/
  | catchValue (dest : Temp)
  /-- Whether the object's prototype is `proto` or below it. -/
  | instanceOf (dest object : Temp) (proto : String)
  | check (condition : Check)
  deriving BEq, Repr

/-! ## Checks -/

namespace Check

/-- The word for a check. -/
def opcode : Check → String
  | overflow .. => "check_overflow"
  | negOverflow .. => "check_neg_overflow"
  | divZero _ => "check_div_zero"
  | shiftRange .. => "check_shift_range"
  | indexBounds .. => "check_index_bounds"
  | mapKey .. => "check_map_key"

/-- The temporaries a check reads, in order. -/
def operands : Check → List Temp
  | overflow _ l r _ => [l, r]
  | negOverflow t _ => [t]
  | divZero t => [t]
  | shiftRange t _ => [t]
  | indexBounds o i => [o, i]
  | mapKey m k => [m, k]

/-- The check with every operand replaced. -/
def mapOperands (f : Temp → Temp) : Check → Check
  | overflow op l r ty => overflow op (f l) (f r) ty
  | negOverflow t ty => negOverflow (f t) ty
  | divZero t => divZero (f t)
  | shiftRange t w => shiftRange (f t) w
  | indexBounds o i => indexBounds (f o) (f i)
  | mapKey m k => mapKey (f m) (f k)

/-- The condition speaks of the current contents of a container. -/
def dependsOnContainer : Check → Bool
  | indexBounds .. | mapKey .. => true
  | _ => false

end Check

/-! ## Instructions -/

namespace Instr

/-- The word for an instruction. -/
def opcode : Instr → String
  | const .. => "const"
  | copy .. => "copy"
  | varDecl .. => "var_decl"
  | loadVar .. => "load_var"
  | storeVar .. => "store_var"
  | binary .. => "bin_op"
  | unary .. => "unary_op"
  | select .. => "select"
  | cast .. => "cast"
  | callStatic .. => "call_static"
  | callMethod .. => "call_method"
  | callForeign .. => "call_extern"
  | newObject .. => "new_object"
  | cloneObject .. => "clone_object"
  | fieldGet .. => "field_get"
  | fieldSet .. => "field_set"
  | indexGet .. => "index_get"
  | indexSet .. => "index_set"
  | makeList .. => "make_list"
  | makeMap .. => "make_map"
  | makeView .. => "make_view"
  | makeSlice .. => "make_slice"
  | listPush .. => "list_push"
  | listPop .. => "list_pop"
  | listClear _ => "list_clear"
  | mapHas .. => "map_has"
  | mapRemove .. => "map_remove"
  | length .. => "length"
  | iterBegin .. => "iter_begin"
  | iterNext .. => "iter_next"
  | print _ => "print"
  | throw _ => "throw"
  | setupTry _ => "setup_try"
  | endTry => "end_try"
  | catchValue _ => "catch_value"
  | instanceOf .. => "instance_of"
  | check c => c.opcode

/-- The temporary an instruction defines. -/
def dest? : Instr → Option Temp
  | const d _ | copy d _ | loadVar d _ | binary d _ _ _ | unary d _ _ | select d _ _ _
  | cast d _ _ | newObject d _ | cloneObject d _ _ | fieldGet d _ _ _ | indexGet d _ _
  | makeList d _ _ | makeMap d _ _ _ | makeView d _ _ _ _ | makeSlice d _ _ _ _ | listPop d _
  | mapHas d _ _ | length d _ | iterBegin d _ _ _ | iterNext d _ | catchValue d
  | instanceOf d _ _ => some d
  | callStatic d _ _ | callMethod d _ _ _ _ | callForeign d _ _ _ _ => d
  | varDecl _ _ | storeVar _ _ | fieldSet _ _ _ _ | indexSet _ _ _ | listPush _ _ | listClear _
  | mapRemove _ _ | print _ | throw _ | setupTry _ | endTry | check _ => none

/-- The instruction with the temporary it defines replaced. -/
def mapDest (f : Temp → Temp) : Instr → Instr
  | const d v => const (f d) v
  | copy d s => copy (f d) s
  | loadVar d n => loadVar (f d) n
  | binary d op l r => binary (f d) op l r
  | unary d op t => unary (f d) op t
  | select d c a b => select (f d) c a b
  | cast d s t => cast (f d) s t
  | callStatic d g as => callStatic (d.map f) g as
  | callMethod d r p m as => callMethod (d.map f) r p m as
  | callForeign d m g as t => callForeign (d.map f) m g as t
  | newObject d p => newObject (f d) p
  | cloneObject d s p => cloneObject (f d) s p
  | fieldGet d o p n => fieldGet (f d) o p n
  | indexGet d o i => indexGet (f d) o i
  | makeList d t is => makeList (f d) t is
  | makeMap d k v es => makeMap (f d) k v es
  | makeView d s i j t => makeView (f d) s i j t
  | makeSlice d s i j t => makeSlice (f d) s i j t
  | listPop d l => listPop (f d) l
  | mapHas d m k => mapHas (f d) m k
  | length d o => length (f d) o
  | iterBegin d i k t => iterBegin (f d) i k t
  | iterNext d i => iterNext (f d) i
  | catchValue d => catchValue (f d)
  | instanceOf d o p => instanceOf (f d) o p
  | i => i

/-- The temporaries an instruction reads, in order. -/
def operands : Instr → List Temp
  | const _ _ | varDecl _ _ | loadVar _ _ | newObject _ _ | setupTry _ | endTry
  | catchValue _ => []
  | copy _ s | storeVar _ s | cast _ s _ | cloneObject _ s _ => [s]
  | binary _ _ l r => [l, r]
  | unary _ _ t => [t]
  | select _ c a b => [c, a, b]
  | callStatic _ _ as | callForeign _ _ _ as _ => as
  | callMethod _ r _ _ as => r :: as
  | fieldGet _ o _ _ | length _ o | instanceOf _ o _ => [o]
  | fieldSet o _ _ v => [o, v]
  | indexGet _ o i => [o, i]
  | indexSet o i v => [o, i, v]
  | makeList _ _ is => is
  | makeMap _ _ _ es => es.flatMap fun e => [e.1, e.2]
  | makeView _ s i j _ | makeSlice _ s i j _ => [s, i, j]
  | listPush l v => [l, v]
  | listPop _ l | listClear l => [l]
  | mapHas _ m k | mapRemove m k => [m, k]
  | iterBegin _ i _ _ => [i]
  | iterNext _ i => [i]
  | print v | throw v => [v]
  | check c => c.operands

/-- The instruction with every temporary it reads replaced. -/
def mapOperands (f : Temp → Temp) : Instr → Instr
  | copy d s => copy d (f s)
  | storeVar n s => storeVar n (f s)
  | binary d op l r => binary d op (f l) (f r)
  | unary d op t => unary d op (f t)
  | select d c a b => select d (f c) (f a) (f b)
  | cast d s t => cast d (f s) t
  | callStatic d g as => callStatic d g (as.map f)
  | callMethod d r p m as => callMethod d (f r) p m (as.map f)
  | callForeign d m g as t => callForeign d m g (as.map f) t
  | cloneObject d s p => cloneObject d (f s) p
  | fieldGet d o p n => fieldGet d (f o) p n
  | fieldSet o p n v => fieldSet (f o) p n (f v)
  | indexGet d o i => indexGet d (f o) (f i)
  | indexSet o i v => indexSet (f o) (f i) (f v)
  | makeList d t is => makeList d t (is.map f)
  | makeMap d k v es => makeMap d k v (es.map fun e => (f e.1, f e.2))
  | makeView d s i j t => makeView d (f s) (f i) (f j) t
  | makeSlice d s i j t => makeSlice d (f s) (f i) (f j) t
  | listPush l v => listPush (f l) (f v)
  | listPop d l => listPop d (f l)
  | listClear l => listClear (f l)
  | mapHas d m k => mapHas d (f m) (f k)
  | mapRemove m k => mapRemove (f m) (f k)
  | length d o => length d (f o)
  | iterBegin d i k t => iterBegin d (f i) k t
  | iterNext d i => iterNext d (f i)
  | print v => print (f v)
  | throw v => throw (f v)
  | instanceOf d o p => instanceOf d (f o) p
  | check c => check (c.mapOperands f)
  | i => i

def isCheck : Instr → Bool
  | check _ => true
  | _ => false

/-- The instruction does more than define its temporary; in particular only such an instruction can
change what a container holds. -/
def hasSideEffects : Instr → Bool
  | check _ | varDecl .. | storeVar .. | callStatic .. | callMethod .. | callForeign .. | fieldSet ..
  | indexSet .. | listPush .. | listPop .. | listClear _ | mapRemove .. | iterNext .. | print _
  | throw _ | setupTry _ | endTry => true
  | _ => false

/-- The block an instruction installs as exception handler. -/
def handler? : Instr → Option String
  | setupTry h => some h
  | _ => none

end Instr

end ProtoScript.Ir
