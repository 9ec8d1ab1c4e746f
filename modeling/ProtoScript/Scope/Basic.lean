import ProtoScript.Source.Span
import ProtoScript.Ty.Basic

set_option autoImplicit false

/-!
# Scopes

The local names at a point of a function body: a stack of scopes, the innermost first, each a list
of bindings. Besides its type a binding carries what is known of its value at that point: whether
there is one, and how long it is if it is a list.
-/

namespace ProtoScript

/-- What a scope belongs to. -/
inductive ScopeKind where
  /-- The body of a function, with its parameters. -/
  | function
  | block
  /-- The body of a loop: a place to break and to continue. -/
  | loop
  /-- An arm of a switch: a place to break. -/
  | switch
  deriving DecidableEq, Repr

/-- A local name. -/
structure Binding where
  ty : Ty
  span : Span
  initialized : Bool := true
  /-- The length of the list the name holds, if it is known. -/
  length? : Option Nat := none
  /-- The name holds the receiver. -/
  isSelf : Bool := false
  isConst : Bool := false
  deriving DecidableEq, Repr

/-- One scope. -/
structure Scope where
  kind : ScopeKind
  bindings : List (String × Binding)

namespace Scope

/-- The binding of a name in this scope alone. -/
def get? (s : Scope) (name : String) : Option Binding := s.bindings.lookup name

/-- The scope with every binding changed. -/
def map (f : String → Binding → Binding) (s : Scope) : Scope :=
  { s with bindings := s.bindings.map fun (name, b) => (name, f name b) }

/-- The scope with the binding of one name changed. -/
def modify (name : String) (f : Binding → Binding) (s : Scope) : Scope :=
  s.map fun n b => if n = name then f b else b

end Scope

/-- The scopes around a point, innermost first. -/
abbrev Scopes := List Scope

namespace Scopes

/-- Enters a scope. -/
def enter (kind : ScopeKind) (s : Scopes) : Scopes := ⟨kind, []⟩ :: s

/-- Leaves the innermost scope. -/
def leave (s : Scopes) : Scopes := s.tail

/-- Binds a name in the innermost scope; if it is bound there already the answer is that binding's
place. Outside of every scope nothing is bound. -/
def define (name : String) (b : Binding) : Scopes → Except Span Scopes
  | [] => .ok []
  | s :: outer =>
    match s.get? name with
    | some previous => .error previous.span
    | none => .ok ({ s with bindings := s.bindings ++ [(name, b)] } :: outer)

/-- The innermost binding of a name. -/
def resolve? (s : Scopes) (name : String) : Option Binding := s.findSome? fun scope => scope.get? name

/-- Changes the innermost binding of a name. -/
def update (name : String) (f : Binding → Binding) : Scopes → Scopes
  | [] => []
  | s :: outer =>
    if (s.get? name).isSome then s.modify name f :: outer else s :: update name f outer

/-- A scope of one of the given kinds is around the point, within the function. -/
def within (kinds : List ScopeKind) : Scopes → Bool
  | [] => false
  | s :: outer => s.kind ∈ kinds || (s.kind != .function && within kinds outer)

/-- The point is inside a loop. -/
def inLoop (s : Scopes) : Bool := s.within [.loop]

/-- The point is inside a loop or an arm of a switch. -/
def canBreak (s : Scopes) : Bool := s.within [.loop, .switch]

/-- All names in scope, the innermost first. -/
def visibleNames (s : Scopes) : List String := s.flatMap fun scope => scope.bindings.map (·.1)

/-- Forgets the length of every list. -/
def forgetLengths (s : Scopes) : Scopes :=
  s.map (Scope.map fun _ b => { b with length? := none })

end Scopes

/-!
## What is known along a path

A snapshot records, for each binding, whether it has a value and the length of the list it holds.
Where two paths meet, what both of them know remains.
-/

/-- What is known of one binding. -/
structure FlowFact where
  length? : Option Nat
  initialized : Bool
  deriving DecidableEq, Repr

namespace FlowFact

/-- What is known of a binding. -/
def ofBinding (b : Binding) : FlowFact := ⟨b.length?, b.initialized⟩

/-- The binding, with other knowledge about it. -/
def apply (f : FlowFact) (b : Binding) : Binding :=
  { b with length? := f.length?, initialized := f.initialized }

/-- What is known on each of two paths. -/
def join (a b : FlowFact) : FlowFact :=
  ⟨if a.length? = b.length? then a.length? else none, a.initialized && b.initialized⟩

end FlowFact

/-- What is known of all bindings at a point. A binding is identified by the number of scopes around
its own and its name. -/
abbrev FlowSnapshot := List ((Nat × String) × FlowFact)

namespace FlowSnapshot

/-- What is known of one binding. -/
def get? (s : FlowSnapshot) (key : Nat × String) : Option FlowFact := s.lookup key

/-- What is known after either of two paths. -/
def join (a b : FlowSnapshot) : FlowSnapshot :=
  a.filterMap fun (key, fact) => (get? b key).map fun other => (key, fact.join other)

/-- Everything known in `a` is known in `b`, with the same facts. -/
def within (a b : FlowSnapshot) : Bool :=
  a.all fun (key, fact) => get? b key == some fact

/-- Two snapshots know the same. -/
def same (a b : FlowSnapshot) : Bool := within a b && within b a

end FlowSnapshot

namespace Scopes

/-- What is known at a point. -/
def snapshot : Scopes → FlowSnapshot
  | [] => []
  | s :: outer =>
    s.bindings.map (fun (name, b) => ((outer.length, name), FlowFact.ofBinding b)) ++ snapshot outer

/-- The scopes with the knowledge of a snapshot; a binding it does not have keeps its own. -/
def restore (snap : FlowSnapshot) : Scopes → Scopes
  | [] => []
  | s :: outer =>
    s.map (fun name b => ((snap.get? (outer.length, name)).map (·.apply b)).getD b) ::
      restore snap outer

end Scopes

end ProtoScript
