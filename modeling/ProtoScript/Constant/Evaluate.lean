import ProtoScript.Optimize.Fold
import ProtoScript.Source.Expr

set_option autoImplicit false

/-!
# Compile-time evaluation

An expression over literals and named constants is turned into a list of instructions, and constant propagation
decides whether its result is a constant. So the compiler has one set of rules for arithmetic on
constants.
-/

namespace ProtoScript

/-- Named constants: bare names, and qualified ones such as `Color.Red`. -/
abbrev ConstEnv := List (String × Constant)

namespace ConstEnv

/-- The constant of a name. -/
def get? (env : ConstEnv) (name : String) : Option Constant := env.lookup name

/-- The environment with a name bound anew. -/
def insert (env : ConstEnv) (name : String) (value : Constant) : ConstEnv :=
  (name, value) :: env.filter fun e => e.1 != name

end ConstEnv

/-- The spelling of a member of a group or module. -/
def qualified (owner member : String) : String := owner ++ "." ++ member

/-- Instructions that compute an expression: the temporary of the result, the next temporary, and the
instructions, last first. -/
structure ConstCode where
  result : Ir.Temp
  next : Ir.Temp
  code : List Ir.Instr

namespace ConstCode

/-- Appends an instruction that defines a fresh temporary. -/
def push (next : Ir.Temp) (code : List Ir.Instr) (make : Ir.Temp → Ir.Instr) : ConstCode :=
  ⟨next, next + 1, make next :: code⟩

end ConstCode

/-- The instructions of an expression behind those already there; there are none if part of the expression
is neither a known constant nor an operator. -/
def Expr.constCode? (env : ConstEnv) : Expr → Ir.Temp → List Ir.Instr → Option ConstCode
  | .literal _ v, next, code => some (.push next code (.const · v.toConstant))
  | .ident _ name, next, code =>
    (env.get? name).map fun v => .push next code (.const · v)
  | .member _ (.ident _ owner) name, next, code =>
    (env.get? (qualified owner name)).map fun v => .push next code (.const · v)
  | .unary _ op e, next, code => do
    let a ← e.constCode? env next code
    return .push a.next a.code (.unary · op a.result)
  | .binary _ op l r, next, code => do
    let a ← l.constCode? env next code
    let b ← r.constCode? env a.next a.code
    return .push b.next b.code (.binary · op a.result b.result)
  | .ternary _ c t e, next, code => do
    let a ← c.constCode? env next code
    let b ← t.constCode? env a.next a.code
    let d ← e.constCode? env b.next b.code
    return .push d.next d.code (.select · a.result b.result d.result)
  | .cast _ e target, next, code => do
    let a ← e.constCode? env next code
    return .push a.next a.code (.cast · a.result target)
  | _, _, _ => none

/-- The constant an instruction stores into a temporary. -/
def Ir.Instr.constantFor? (t : Ir.Temp) : Ir.Instr → Option Constant
  | .const d v => if d = t then some v else none
  | _ => none

/-- The value of an expression, if it is a compile-time constant. -/
def Expr.evaluate? (env : ConstEnv) (e : Expr) : Option Constant := do
  let c ← e.constCode? env 0 []
  (Ir.foldInstrs [] c.code.reverse).1.findSome? (Ir.Instr.constantFor? c.result)

end ProtoScript
