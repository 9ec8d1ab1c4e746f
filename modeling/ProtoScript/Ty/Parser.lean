import ProtoScript.Text.Unicode
import ProtoScript.Ty.Basic

set_option autoImplicit false

/-!
# Reading types

Reading a type goes in two steps. `lex` cuts the text into names and marks, each with the offset
of its first character, and drops blanks. `run` then reads the tokens from left to right with a
stack of the containers that are still open, so that every step consumes one token.
-/

namespace ProtoScript.Ty

/-! ## Tokens -/

/-- A token of a written type: a run of name characters, or any other single character. -/
inductive Token where
  | name (text : List Char)
  | mark (c : Char)
  deriving DecidableEq, Repr

/-- A token with the offset of its first character. -/
structure Placed where
  offset : Nat
  token : Token
  deriving DecidableEq, Repr

/-- Puts the name character `c`, which stands at `pos`, in front of the tokens that follow it:
it joins a name that starts right behind it. -/
def attach (pos : Nat) (c : Char) : List Placed → List Placed
  | ⟨p, .name cs⟩ :: rest =>
    if p = pos + 1 then ⟨pos, .name (c :: cs)⟩ :: rest
    else ⟨pos, .name [c]⟩ :: ⟨p, .name cs⟩ :: rest
  | rest => ⟨pos, .name [c]⟩ :: rest

/-- The tokens of a text whose first character has offset `pos`. -/
def lex (pos : Nat) : List Char → List Placed
  | [] => []
  | c :: cs =>
    if isBlank c then lex (pos + 1) cs
    else if isNameChar c then attach pos c (lex (pos + 1) cs)
    else ⟨pos, .mark c⟩ :: lex (pos + 1) cs

/-! ## Errors -/

/-- What is wrong with a written type. -/
inductive ParseCause where
  | expectedName
  | startsWithDigit
  | missingArguments (kind : Container)
  | expectedClose
  | wrongArity (kind : Container) (found : Nat)
  | trailing
  deriving DecidableEq, Repr

/-- A fault and the offset, in characters, at which it was noticed. -/
structure ParseError where
  offset : Nat
  cause : ParseCause
  deriving DecidableEq, Repr

def ParseCause.message : ParseCause → String
  | expectedName => "expected a type name"
  | startsWithDigit => "type names cannot start with a digit"
  | missingArguments k => "'" ++ k.name ++ "' requires type arguments"
  | expectedClose => "expected '>'"
  | wrongArity k n =>
    "'" ++ k.name ++ "' expects " ++ toString k.arity ++ " type argument(s), got " ++ toString n
  | trailing => "trailing characters after type"

/-- The text shown for a fault in the type written as `input`. -/
def ParseError.message (e : ParseError) (input : String) : String :=
  "invalid type '" ++ input ++ "' at offset " ++ toString e.offset ++ ": " ++ e.cause.message

/-! ## The reader -/

/-- An open container: its kind and the element types read so far, last first. -/
structure Frame where
  kind : Container
  done : List Ty

/-- What the reader waits for. -/
inductive Expect where
  /-- The start of a type. -/
  | type
  /-- The bracket that opens the element types of a container. -/
  | bracket (kind : Container)
  /-- Whatever may follow the type just read. -/
  | after (t : Ty)

/-- What a name stands for on its own: a container kind, or a finished type. -/
def ofName (name : String) : Container ⊕ Ty :=
  match Container.ofName? name with
  | some k => .inl k
  | none =>
    match Primitive.ofName? name with
    | some p => .inr (.prim p)
    | none => .inr (.named name)

/-- Reads the tokens that are left; `length` is the length of the whole text, which is where an
early end is noticed. -/
def run (length : Nat) : List Frame → Expect → List Placed → Except ParseError Ty
  | [], .after t, [] => .ok t
  | _ :: _, .after _, [] => .error ⟨length, .expectedClose⟩
  | _, .type, [] => .error ⟨length, .expectedName⟩
  | _, .bracket k, [] => .error ⟨length, .missingArguments k⟩
  | stack, .type, ⟨pos, .name cs⟩ :: rest =>
    if cs.head?.any Char.isDigit then .error ⟨pos, .startsWithDigit⟩
    else
      match ofName (String.ofList cs) with
      | .inl k => run length stack (.bracket k) rest
      | .inr t => run length stack (.after t) rest
  | _, .type, ⟨pos, .mark _⟩ :: _ => .error ⟨pos, .expectedName⟩
  | stack, .bracket k, ⟨pos, token⟩ :: rest =>
    if token = .mark '<' then run length (⟨k, []⟩ :: stack) .type rest
    else .error ⟨pos, .missingArguments k⟩
  | [], .after _, ⟨pos, _⟩ :: _ => .error ⟨pos, .trailing⟩
  | frame :: stack, .after t, ⟨pos, token⟩ :: rest =>
    if token = .mark ',' then run length (⟨frame.kind, t :: frame.done⟩ :: stack) .type rest
    else if token = .mark '>' then
      match ofContainer? frame.kind (t :: frame.done).reverse with
      | some u => run length stack (.after u) rest
      | none => .error ⟨pos + 1, .wrongArity frame.kind (frame.done.length + 1)⟩
    else .error ⟨pos, .expectedClose⟩

/-- Reads a whole text as a type. -/
def parse (input : String) : Except ParseError Ty :=
  run input.length [] .type (lex 0 input.toList)

end ProtoScript.Ty
