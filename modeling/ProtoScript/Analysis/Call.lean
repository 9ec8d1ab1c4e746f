import ProtoScript.Analysis.Name
import ProtoScript.Builtin.Basic

set_option autoImplicit false

/-!
# Calls

What a call calls is found before its arguments are looked at. The result says what the arguments
have to be, what the call gives and how it is carried out; where there is none the problem has been
reported.
-/

namespace ProtoScript.Analysis

/-- What a call was found to call. -/
structure Callee where
  /-- The name in messages. -/
  name : String
  params : List Ty
  ret : Ty
  target : CallTarget

/-- The note of a call. -/
def noteCall (n : Note) (callee? : Option Callee) : Note :=
  { n with type? := callee?.map (·.ret), call? := callee?.map (·.target) }

/-- The types the arguments of a call have to have. If the call has no meaning or the wrong number of
arguments there are none, and the arguments stand for themselves. -/
def expectedArgs (callee? : Option Callee) (count : Nat) (span : Span) : Check (List Ty) := do
  match callee? with
  | none => return []
  | some c =>
    if c.params.length = count then return c.params
    else
      report (.argumentCount c.name c.params.length count) span
      return []

/-! ## Functions -/

/-- A function of a module. -/
def moduleCallee? (module member : String) (span : Span) : Check (Option Callee) := do
  let library := (← read).library
  match library.function? module member with
  | some f => return some ⟨member, f.params, f.ret, .foreign module member f.ret⟩
  | none =>
    if (library.constant? module member).isSome then
      report (.constantCalled module member) span
    else
      reportName (.noSuchModuleMember module member) span member (library.memberNames module)
    return none

/-- A function of the program or one that was imported. -/
def functionCallee? (name : String) (span : Span) : Check (Option Callee) := do
  let c ← read
  match c.function? name with
  | some f => return some ⟨name, f.params.map (·.ty), f.ret, .function name⟩
  | none =>
    match c.imports.member? name with
    | some (module, member) => moduleCallee? module member span
    | none =>
      let candidates := c.functionNames ++ c.imports.members.map (·.1) ++ Builtin.functions
      reportName (.undefinedFunction name) span name candidates
      return none

/-- The name of a call stands for something that is no function. -/
def isNotCallable (name : String) : Check Bool := do
  let c ← read
  return (← local? name).isSome || c.hierarchy.contains name || c.groups.contains name ||
    (c.imports.namespace? name).isSome

/-! ## Methods -/

/-- A name before a method call that is no value. -/
inductive Receiver where
  | module (name : String)
  /-- A prototype of which a new instance is made. -/
  | prototype (name : String)
  | group (g : Group)

/-- What the expression before a method call names; a local variable hides all of it. -/
def receiver? (e : Expr) (method : String) : Check (Option Receiver) := do
  match e with
  | .ident _ name =>
    if (← local? name).isSome then return none
    let c ← read
    match c.imports.namespace? name with
    | some module => return some (.module module)
    | none =>
      if c.hierarchy.contains name && method == "clone" then return some (.prototype name)
      return (c.groups.get? name).map .group
  | _ => return none

/-- How a method that `info` describes is carried out on a `proto`: methods of sealed built-ins run
outside the program, the built-in `clone` copies the instance unless a prototype below replaces
it. -/
def methodTarget (h : Hierarchy) (proto method : String) (info : MethodInfo) : CallTarget × Ty :=
  let declared := h.get? info.owner
  let isBuiltin := declared.any (·.isBuiltin)
  let isReplaced := h.isOverriddenBelow proto method
  if isBuiltin && declared.any (·.isSealed) then
    (.foreign info.owner method info.ret, info.ret)
  else if isBuiltin && method == "clone" && !isReplaced then
    (.copyInstance proto, .named proto)
  else (.method proto method isReplaced, info.ret)

/-- A method of an instance of a prototype. -/
def instanceCallee? (proto method : String) (span : Span) : Check (Option Callee) := do
  let c ← read
  let h := c.hierarchy
  match h.method? proto method with
  | some info =>
    expect (h.canAccess info.visibility info.owner c.proto?)
      (.internalMethod proto method info.owner) span
    let (target, ret) := methodTarget h proto method info
    return some ⟨method, info.params, ret, target⟩
  | none =>
    if (h.field? proto method).isSome then report (.fieldCalled proto method) span
    else reportName (.noSuchMember proto method) span method (h.memberNames proto)
    return none

/-- A method of a container or string. -/
def containerCallee? (ty : Ty) (method : String) (span : Span) : Check (Option Callee) := do
  match containerMethod? ty method with
  | some s => return some ⟨method, s.params, s.ret, .container s.method⟩
  | none =>
    reportName (.noSuchMethod ty method) span method
      ((ContainerMethod.availableOn ty).map (·.name))
    return none

/-- A method of a value of the given type. -/
def methodCallee? (ty : Ty) (method : String) (span : Span) : Check (Option Callee) := do
  match ty with
  | .named proto => instanceCallee? proto method span
  | _ =>
    if (ContainerMethod.availableOn ty).isEmpty then
      report (.noSuchMethod ty method) span
      return none
    else containerCallee? ty method span

/-! ## Lengths of lists -/

/-- What a method makes of the known length of the list it is called on. -/
def lengthAfter (method : ContainerMethod) (known : Option Nat) : Option Nat :=
  match method with
  | .push => known.map (· + 1)
  | .pop =>
    match known with
    | some (n + 1) => some n
    | _ => none
  | .clear => some 0
  -- The window can be used to reach the list later.
  | .view | .slice => none
  | _ => known

/-- Follows the length of a list that a method is called on by name, and reports a `pop` from a list
known to be empty. -/
def trackLength (receiver : Expr) (callee? : Option Callee) (span : Span) : Check Unit := do
  match receiver, callee? with
  | .ident note name, some ⟨_, _, _, .container method⟩ =>
    if (note.type?.bind Ty.container?) == some .list then
      match ← local? name with
      | none => pure ()
      | some b =>
        modifyScopes (Scopes.update name fun b => { b with length? := lengthAfter method b.length? })
        expect (!(method == .pop && b.length? == some 0)) (.emptyPop name) span
  | _, _ => pure ()

end ProtoScript.Analysis
