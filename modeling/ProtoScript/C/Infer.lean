import ProtoScript.C.Index

set_option autoImplicit false

/-!
# The types of temporaries

Every temporary gets the type that its instruction gives it, once the types of the temporaries it
reads are known. Rounds over all instructions are repeated until one adds nothing; the order of
instructions does not matter. Variables have their declared types.
-/

namespace ProtoScript.C

/-- A loop over a container. -/
structure Iterator where
  iterable : Ir.Temp
  iterableType : Ty
  kind : IterKind
  elem : Ty
  deriving DecidableEq, Repr

/-- What is known of the temporaries and variables of a function. -/
structure FunctionTypes where
  temps : List (Ir.Temp × Ty) := []
  /-- The types of variables, each name once. -/
  vars : List (String × Ty) := []
  /-- The temporaries that stand for loops; in C they are positions. -/
  iterators : List (Ir.Temp × Iterator) := []
  deriving DecidableEq, Repr

namespace FunctionTypes

def temp? (types : FunctionTypes) (t : Ir.Temp) : Option Ty := types.temps.lookup t

def var? (types : FunctionTypes) (name : String) : Option Ty := types.vars.lookup name

def iterator? (types : FunctionTypes) (t : Ir.Temp) : Option Iterator := types.iterators.lookup t

/-- The temporary is known. -/
def knows (types : FunctionTypes) (t : Ir.Temp) : Bool :=
  (types.temp? t).isSome || (types.iterator? t).isSome

end FunctionTypes

/-- The variable that an instruction declares. -/
def declaredVar? : Ir.Instr → Option (String × Ty)
  | .varDecl name ty => some (name, ty)
  | _ => none

/-- Adds a variable, unless there is one of the same name. -/
def addVariable (vars : List (String × Ty)) (v : String × Ty) : List (String × Ty) :=
  if (vars.lookup v.1).isSome then vars else vars ++ [v]

/-- The variables of a function: the parameters, of which the last of one name counts, and then
those that are declared, of which the first of one name counts. -/
def declaredVars (f : Ir.Function) : List (String × Ty) :=
  ((f.params.reverse.map fun p => (p.name, p.ty)) ++ f.instrs.filterMap declaredVar?).foldl
    addVariable []

/-- The type of what an instruction defines; there is none while an operand has none. -/
def resultType? (m : Ir.Module) (function : String) (types : FunctionTypes) :
    Ir.Instr → Except Error (Option Ty)
  | .const _ v => .ok (some v.ty)
  | .copy _ src => .ok (types.temp? src)
  | .loadVar _ name =>
    match types.var? name with
    | some ty => .ok (some ty)
    | none => .error (.unknownVariable function name)
  | .binary _ op left _ =>
    if op.isComparison || op.isLogical then .ok (some .bool) else .ok (types.temp? left)
  | .unary _ _ operand => .ok (types.temp? operand)
  | .select _ _ thenValue _ => .ok (types.temp? thenValue)
  | .cast _ _ target => .ok (some target)
  | .callStatic _ callee _ =>
    match function? m callee with
    | some f => .ok (some f.ret)
    | none => .error (.unknownFunction function callee)
  | .callMethod _ _ proto method _ => (methodBody m proto method).map fun b => some b.ret
  | .callForeign _ _ _ _ ret => .ok (some ret)
  | .newObject _ proto | .cloneObject _ _ proto => .ok (some (.named proto))
  | .fieldGet _ _ proto field => (fieldType m proto field).map some
  | .indexGet _ object _ | .listPop _ object => .ok ((types.temp? object).bind Ty.element?)
  | .makeList _ elem _ => .ok (some (.list elem))
  | .makeMap _ key value _ => .ok (some (.map key value))
  | .makeView _ _ _ _ elem => .ok (some (.view elem))
  | .makeSlice _ _ _ _ elem => .ok (some (.slice elem))
  | .mapHas .. | .instanceOf .. => .ok (some .bool)
  | .length .. => .ok (some .int)
  | .iterNext _ iter => .ok ((types.iterator? iter).map (·.elem))
  | .catchValue _ => .ok (some (.named Builtin.exception))
  | _ => .ok none

/-- Takes in what one instruction says. -/
def inferInstr (m : Ir.Module) (function : String) (types : FunctionTypes) (i : Ir.Instr) :
    Except Error FunctionTypes :=
  match i.dest? with
  | none => .ok types
  | some dest =>
    if types.knows dest then .ok types
    else
      match i with
      | .iterBegin _ iterable kind elem =>
        match types.temp? iterable with
        | some ty =>
          .ok { types with iterators := types.iterators ++ [(dest, ⟨iterable, ty, kind, elem⟩)] }
        | none => .ok types
      | _ => do
        match ← resultType? m function types i with
        | some ty => .ok { types with temps := types.temps ++ [(dest, ty)] }
        | none => .ok types

/-- Rounds over the instructions until one adds nothing. -/
def inferRounds (m : Ir.Module) (function : String) (instrs : List Ir.Instr) :
    Nat → FunctionTypes → Except Error FunctionTypes
  | 0, types => .ok types
  | rounds + 1, types => do
    let next ← instrs.foldlM (inferInstr m function) types
    if next.temps.length + next.iterators.length = types.temps.length + types.iterators.length then
      return next
    else inferRounds m function instrs rounds next

/-- The types of a function's temporaries and variables. A round adds a temporary or is the last, so
there are at most as many rounds as instructions and one more. -/
def inferFunction (m : Ir.Module) (f : Ir.Function) : Except Error FunctionTypes := do
  let instrs := f.instrs
  let types ← inferRounds m f.name instrs (instrs.length + 1) { vars := declaredVars f }
  match (instrs.filterMap Ir.Instr.dest?).find? fun t => !types.knows t with
  | some t => .error (.untypedTemp f.name t)
  | none => return types

end ProtoScript.C
