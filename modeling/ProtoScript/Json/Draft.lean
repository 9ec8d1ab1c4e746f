import ProtoScript.Json.Number
import ProtoScript.Text.Hex

set_option autoImplicit false

/-!
# The structure of a JSON text

`Draft.read?` first cuts the text into tokens and then reads the tokens with a stack of the arrays
and objects that are still open; both steps consume their input from left to right. The result is
the structure of the text: a string with half of a surrogate pair and a number beyond the range of
floats are well written but have no value, and stand in the draft without one. `Draft.json?` is the
value of a draft in which everything has a value.
-/

namespace ProtoScript.Json

/-- A value as it is written. -/
inductive Draft where
  | scalar (value : Option Json)
  | arr (items : List Draft)
  | obj (entries : List (Option String × Draft))

/-! ## Tokens -/

/-- A token: a bracket, comma or colon, a string, or another scalar. -/
inductive Token where
  | mark (c : Char)
  | text (value : Option String)
  | scalar (value : Option Json)

/-- A word outside quotes: one of three names, or a number. -/
def word? (cs : List Char) : Option Token :=
  if cs = "null".toList then some (.scalar (some null))
  else if cs = "true".toList then some (.scalar (some (bool true)))
  else if cs = "false".toList then some (.scalar (some (bool false)))
  else if isNumber cs then some (.scalar (number? cs))
  else none

/-- The character of an escape with one letter. -/
def escape? : Char → Option Char
  | '"' => some '"'
  | '\\' => some '\\'
  | '/' => some '/'
  | 'b' => some '\x08'
  | 'f' => some '\x0c'
  | 'n' => some '\n'
  | 'r' => some '\r'
  | 't' => some '\t'
  | _ => none

/-- The characters of a string so far, last first; none once the string can have no value. -/
abbrev Done := Option (List Char)

/-- One more character. -/
def Done.push (done : Done) (c : Char) : Done := done.map (c :: ·)

/-- The string. -/
def Done.string (done : Done) : Option String := done.map fun cs => String.ofList cs.reverse

/-- Where the reader stands in the text. -/
inductive LexState where
  | between
  /-- Inside a word, whose characters are held last first. -/
  | word (done : List Char)
  | string (done : Done)
  /-- Behind a backslash. -/
  | escape (done : Done)
  /-- Inside a numbered escape: the digits still to come and the value so far; `high` is the first half
  of a pair of surrogates. -/
  | hex (done : Done) (left value : Nat) (high : Option Nat)
  /-- Behind the first half of a pair of surrogates. -/
  | surrogate (done : Done) (high : Nat)
  | surrogateEscape (done : Done) (high : Nat)

/-- The string behind a finished numbered escape, or the half of a pair that is still open. A half
without the other leaves the string without a value. -/
def finishHex (done : Done) (value : Nat) : Option Nat → LexState
  | none =>
    if 0xD800 ≤ value ∧ value < 0xDC00 then .surrogate done value
    else if 0xDC00 ≤ value ∧ value < 0xE000 then .string none
    else .string (done.push (Char.ofNat value))
  | some high =>
    if 0xDC00 ≤ value ∧ value < 0xE000 then
      .string (done.push (Char.ofNat (0x10000 + (high - 0xD800) * 0x400 + (value - 0xDC00))))
    else .string none

/-- The characters words are made of. -/
def isWordChar (c : Char) : Bool :=
  c.isAlphanum || c == '+' || c == '-' || c == '.'

/-- The characters between tokens. -/
def isGap (c : Char) : Bool :=
  c == ' ' || c == '\t' || c == '\n' || c == '\r'

/-- The characters that are tokens of their own. -/
def isMark (c : Char) : Bool :=
  c == '[' || c == ']' || c == '\x7b' || c == '\x7d' || c == ',' || c == ':'

/-- One character read between tokens. -/
def stepBetween? (tokens : List Token) (c : Char) : Option (LexState × List Token) :=
  if isGap c then some (.between, tokens)
  else if isMark c then some (.between, .mark c :: tokens)
  else if c = '"' then some (.string (some []), tokens)
  else if isWordChar c then some (.word [c], tokens)
  else none

/-- One character read inside a string. -/
def stepString? (done : Done) (tokens : List Token) (c : Char) : Option (LexState × List Token) :=
  if c = '"' then some (.between, .text done.string :: tokens)
  else if c = '\\' then some (.escape done, tokens)
  else if c.toNat < 32 then none
  else some (.string (done.push c), tokens)

/-- One character read behind a backslash. -/
def stepEscape? (done : Done) (tokens : List Token) (c : Char) : Option (LexState × List Token) :=
  if c = 'u' then some (.hex done 4 0 none, tokens)
  else (escape? c).map fun d => (.string (done.push d), tokens)

/-- One character read; tokens are held last first. -/
def step? (state : LexState) (tokens : List Token) (c : Char) : Option (LexState × List Token) :=
  match state with
  | .between => stepBetween? tokens c
  | .word done =>
    if isWordChar c then some (.word (c :: done), tokens)
    else (word? done.reverse).bind fun t => stepBetween? (t :: tokens) c
  | .string done => stepString? done tokens c
  | .escape done => stepEscape? done tokens c
  | .hex done left value high =>
    (hexDigit? c).map fun d =>
      let value := 16 * value + d
      (if left ≤ 1 then finishHex done value high else .hex done (left - 1) value high, tokens)
  | .surrogate done high =>
    if c = '\\' then some (.surrogateEscape done high, tokens) else stepString? none tokens c
  | .surrogateEscape done high =>
    if c = 'u' then some (.hex done 4 0 (some high), tokens) else stepEscape? none tokens c

/-- The tokens of a text. -/
def lex? (state : LexState) (tokens : List Token) : List Char → Option (List Token)
  | [] =>
    match state with
    | .between => some tokens.reverse
    | .word done => (word? done.reverse).map fun t => (t :: tokens).reverse
    | _ => none
  | c :: cs =>
    match step? state tokens c with
    | some (state, tokens) => lex? state tokens cs
    | none => none

/-! ## Structure -/

/-- The entries of an object, last first. -/
abbrev Entries := List (Option String × Draft)

/-- An open array or object: what it holds so far, last first, and for an object the key whose value is
being read. -/
inductive Frame where
  | arr (done : List Draft)
  | obj (done : Entries) (key : Option String)

/-- What may come next. -/
inductive Expect where
  | value
  /-- A value, or the end of the array just opened. -/
  | firstItem
  /-- A key; `done` is what the object holds so far. -/
  | key (done : Entries)
  /-- A key, or the end of the object just opened. -/
  | firstKey
  | colon (done : Entries) (key : Option String)
  /-- Whatever may follow a finished value. -/
  | after (d : Draft)

/-- Opens an array or object, or reads a scalar. -/
def start? (stack : List Frame) : Token → Option (List Frame × Expect)
  | .scalar v => some (stack, .after (.scalar v))
  | .text s => some (stack, .after (.scalar (s.map str)))
  | .mark '[' => some (.arr [] :: stack, .firstItem)
  | .mark '\x7b' => some (stack, .firstKey)
  | .mark _ => none

/-- Ends the innermost array or object behind the value `d`, or goes on with it. -/
def continue? (d : Draft) : List Frame → Token → Option (List Frame × Expect)
  | .arr done :: stack, .mark ',' => some (.arr (d :: done) :: stack, .value)
  | .arr done :: stack, .mark ']' => some (stack, .after (.arr (d :: done).reverse))
  | .obj done key :: stack, .mark ',' => some (stack, .key ((key, d) :: done))
  | .obj done key :: stack, .mark '\x7d' => some (stack, .after (.obj ((key, d) :: done).reverse))
  | _, _ => none

/-- One token read. -/
def advance? (stack : List Frame) (expect : Expect) (token : Token) :
    Option (List Frame × Expect) :=
  match expect, token with
  | .value, t => start? stack t
  | .firstItem, .mark ']' =>
    match stack with
    | .arr _ :: rest => some (rest, .after (.arr []))
    | _ => none
  | .firstItem, t => start? stack t
  | .key done, .text key => some (stack, .colon done key)
  | .firstKey, .text key => some (stack, .colon [] key)
  | .firstKey, .mark '\x7d' => some (stack, .after (.obj []))
  | .colon done key, .mark ':' => some (.obj done key :: stack, .value)
  | .after d, t => continue? d stack t
  | _, _ => none

/-- Reads the tokens that are left. -/
def run? (stack : List Frame) (expect : Expect) : List Token → Option Draft
  | [] =>
    match stack, expect with
    | [], .after d => some d
    | _, _ => none
  | t :: ts =>
    match advance? stack expect t with
    | some (stack, expect) => run? stack expect ts
    | none => none

namespace Draft

/-- The structure of a whole text. -/
def read? (text : String) : Option Draft := (lex? .between [] text.toList).bind (run? [] .value)

mutual

/-- The value of a draft in which arrays and objects are nested at most `depth` times. -/
def json? (depth : Nat) : Draft → Option Json
  | scalar v => v
  | arr items =>
    match depth with
    | 0 => none
    | depth + 1 => (jsonItems? depth items).map .arr
  | obj entries =>
    match depth with
    | 0 => none
    | depth + 1 => (jsonEntries? depth entries).map .obj

def jsonItems? (depth : Nat) : List Draft → Option (List Json)
  | [] => some []
  | d :: rest => do return (← d.json? depth) :: (← jsonItems? depth rest)

def jsonEntries? (depth : Nat) : List (Option String × Draft) → Option (List (String × Json))
  | [] => some []
  | (key, d) :: rest => do return (← key, ← d.json? depth) :: (← jsonEntries? depth rest)

end

end Draft

end ProtoScript.Json
