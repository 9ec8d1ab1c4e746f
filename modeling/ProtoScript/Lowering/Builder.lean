import ProtoScript.Hierarchy.Basic
import ProtoScript.Ir.Basic

set_option autoImplicit false

/-!
# Building a function

Lowering writes a function block by block. The builder holds the blocks that are finished, the
one being written, the numbers of the next temporary and label, and what the names of the source
stand for. Once a block has its terminator nothing more is written until the next block is started.
-/

namespace ProtoScript.Lowering

/-! ## Errors -/

/-- Why a function cannot be lowered. Most of these happen only where problems were found or nothing was checked. -/
inductive Cause where
  | missingType (span : Span)
  | unresolvedName (name : String)
  | unresolvedCall (span : Span)
  | voidValue (span : Span)
  | strayJump (word : String)
  /-- The initial value of a field needs a new instance that has the same field. -/
  | endlessInstance (proto : String)
  deriving DecidableEq, Repr

/-- Why a function cannot be lowered, and which. -/
structure Error where
  function : String
  cause : Cause
  deriving DecidableEq, Repr

/-- The line and column of a place. -/
def place (s : Span) : String := toString s.line ++ ":" ++ toString s.column

/-- The wording of a cause. -/
def Cause.message : Cause → String
  | missingType s => "expression at " ++ place s ++ " has no recorded type"
  | unresolvedName n => "cannot resolve '" ++ n ++ "'"
  | unresolvedCall s => "call at " ++ place s ++ " has no resolved target"
  | voidValue s => "expression at " ++ place s ++ " produces no value"
  | strayJump w => "'" ++ w ++ "' outside of a loop or switch"
  | endlessInstance p => "a new '" ++ p ++ "' needs another one"

/-- The wording of an error. -/
def Error.message (e : Error) : String := e.function ++ ": " ++ e.cause.message

/-! ## The builder -/

/-- Where `break` and `continue` go. -/
structure JumpTargets where
  breakLabel : String
  /-- In an arm of a switch there is none: `continue` belongs to the loop around. -/
  continueLabel : Option String
  /-- The number of `try` regions open around the loop or switch. -/
  tryDepth : Nat
  deriving Repr

/-- A function being written. -/
structure Builder where
  /-- The finished blocks, in order. -/
  finished : List Ir.Block := []
  /-- The label of the current block. -/
  label : String := "entry"
  /-- The instructions of the current block, in order. -/
  code : List Ir.Instr := []
  /-- The terminator of the current block, once it has one. -/
  ended : Option Ir.Terminator := none
  nextTemp : Nat := 0
  nextLabel : Nat := 0
  /-- The variable each name of the source stands for, innermost scope first. -/
  scopes : List (List (String × String)) := []
  /-- The names of all variables of the function. -/
  used : List String := []
  /-- The loops and switches around the current point, innermost first. -/
  jumps : List JumpTargets := []
  /-- The number of open `try` regions. -/
  tryDepth : Nat := 0

/-- The blocks written so far; one without a terminator is never left. -/
def Builder.blocks (b : Builder) : List Ir.Block :=
  b.finished ++ [⟨b.label, b.code, b.ended.getD .unreachable⟩]

/-- What is fixed while a function is lowered. -/
structure Context where
  /-- The name of the function. -/
  function : String
  hierarchy : Hierarchy
  /-- The prototypes of the program. -/
  prototypes : List PrototypeDecl

/-- A step of lowering. -/
abbrev Lower := ReaderT Context (StateT Builder (Except Error))

/-- Gives up. -/
def fail {α : Type} (cause : Cause) : Lower α := do
  throw { function := (← read).function, cause }

/-! ## Blocks and instructions -/

/-- Writes an instruction into the current block. -/
def emit (i : Ir.Instr) : Lower Unit :=
  modify fun b => { b with code := b.code ++ [i] }

/-- A temporary that was not used before. -/
def freshTemp : Lower Ir.Temp :=
  modifyGet fun b => (b.nextTemp, { b with nextTemp := b.nextTemp + 1 })

/-- Writes an instruction that defines a fresh temporary. -/
def emitValue (make : Ir.Temp → Ir.Instr) : Lower Ir.Temp := do
  let t ← freshTemp
  emit (make t)
  return t

/-- Writes an instruction that defines a fresh temporary if there is a result. -/
def emitResult (hasResult : Bool) (make : Option Ir.Temp → Ir.Instr) : Lower (Option Ir.Temp) := do
  if hasResult then
    return some (← emitValue fun t => make (some t))
  else
    emit (make none)
    return none

/-- A label that was not used before. -/
def freshLabel (stem : String) : Lower String :=
  modifyGet fun b => (stem ++ toString (b.nextLabel + 1), { b with nextLabel := b.nextLabel + 1 })

/-- The current block has no terminator yet. -/
def isOpen : Lower Bool := do
  return (← get).ended.isNone

/-- Ends the current block, unless it has ended before. -/
def endWith (t : Ir.Terminator) : Lower Unit :=
  modify fun b => { b with ended := b.ended <|> some t }

/-- Ends the current block with a jump. -/
def jump (target : String) : Lower Unit := endWith (.jump target)

/-- Starts the next block. -/
def startBlock (label : String) : Lower Unit :=
  modify fun b => { b with finished := b.blocks, label, code := [], ended := none }

/-! ## Variables -/

/-- The base name itself or, if it is taken, the base name with the least number that is free. -/
def freeName (used : List String) (base : String) : String :=
  if base ∈ used then
    (((List.range used.length).map fun n => base ++ "_" ++ toString (n + 1)).find?
      fun name => !used.contains name).getD base
  else base

/-- Declares a variable under a free name. -/
def declare (base : String) (ty : Ty) : Lower String := do
  let name := freeName (← get).used base
  modify fun b => { b with used := name :: b.used }
  emit (.varDecl name ty)
  return name

/-- Binds a name of the source in the innermost scope. -/
def bindName (source name : String) : Lower Unit :=
  modify fun b =>
    match b.scopes with
    | [] => b
    | s :: outer => { b with scopes := ((source, name) :: s) :: outer }

/-- Declares the variable of a name of the source. -/
def declareVar (source : String) (ty : Ty) : Lower String := do
  let name ← declare source ty
  bindName source name
  return name

/-- Declares a variable in which values from several blocks meet. -/
def declareJoin (ty : Ty) : Lower String := do
  declare ("__join" ++ toString (← get).nextTemp) ty

/-- The variable a name of the source stands for. -/
def varOf? (source : String) : Lower (Option String) := do
  return (← get).scopes.findSome? fun s => s.lookup source

/-- Runs a step in a scope of its own. -/
def inScope {α : Type} (step : Lower α) : Lower α := do
  modify fun b => { b with scopes := [] :: b.scopes }
  let a ← step
  modify fun b => { b with scopes := b.scopes.tail }
  return a

/-- Runs a step that sees no local variable. -/
def withoutLocals {α : Type} (step : Lower α) : Lower α := do
  let saved := (← get).scopes
  modify fun b => { b with scopes := [[]] }
  let a ← step
  modify fun b => { b with scopes := saved }
  return a

/-! ## Jumps -/

/-- Runs a step in which `break` and `continue` have the given targets. -/
def withJumps {α : Type} (breakLabel : String) (continueLabel : Option String) (step : Lower α) :
    Lower α := do
  modify fun b => { b with jumps := ⟨breakLabel, continueLabel, b.tryDepth⟩ :: b.jumps }
  let a ← step
  modify fun b => { b with jumps := b.jumps.tail }
  return a

/-- Closes the `try` regions that were opened since there were `depth` of them. -/
def unwindTo (depth : Nat) : Lower Unit :=
  modify fun b =>
    { b with code := b.code ++ List.replicate (b.tryDepth - depth) Ir.Instr.endTry }

/-- The type of an expression. -/
def typeOf (e : Expr) : Lower Ty :=
  match e.type? with
  | some t => pure t
  | none => fail (.missingType e.span)

end ProtoScript.Lowering
