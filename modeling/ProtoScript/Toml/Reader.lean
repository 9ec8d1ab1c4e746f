import ProtoScript.Toml.Word

set_option autoImplicit false

/-!
# Reading TOML

Comments, headers of tables and of arrays of tables, and entries. Values are strings of four forms,
words, arrays and inline tables. Every reader takes a value from the front of the text and returns
what is left. Neither arrays nor paths may be nested too deeply.
-/

namespace ProtoScript.Toml

/-! ## Blanks and lines -/

/-- Spaces and tabs. -/
def isGap (c : Char) : Bool := c == ' ' || c == '\t'

/-- A control character other than the tab; none may occur in a line. -/
def isControl (c : Char) : Bool := (c.toNat < 32 && c != '\t') || c.toNat == 127

/-- The text behind leading spaces and tabs. -/
def skipGap (cs : List Char) : List Char := cs.dropWhile isGap

/-- The text behind a line end. -/
def newline? : List Char → Option (List Char)
  | '\n' :: rest => some rest
  | '\r' :: '\n' :: rest => some rest
  | _ => none

/-- The text behind a line end, if there is one. -/
def skipNewline (cs : List Char) : List Char := (newline? cs).getD cs

/-- The text behind the rest of a line, which is blank or a comment. -/
def lineEnd? (cs : List Char) : Option (List Char) :=
  match skipGap cs with
  | [] => some []
  | '#' :: rest =>
    match rest.dropWhile fun c => !isControl c with
    | [] => some []
    | more => newline? more
  | more => newline? more

/-- The text behind blanks, line ends and comments; each comment ends with its line. -/
def skipLines? : (fuel : Nat) → List Char → Option (List Char)
  | 0, _ => none
  | fuel + 1, cs =>
    match skipGap cs with
    | '#' :: rest => (newline? (rest.dropWhile fun c => !isControl c)).bind (skipLines? fuel)
    | '\n' :: rest => skipLines? fuel rest
    | '\r' :: rest => (newline? ('\r' :: rest)).bind (skipLines? fuel)
    | rest => some rest

/-- The text behind a mark, which may have blanks on both sides. -/
def mark? (c : Char) (cs : List Char) : Option (List Char) :=
  match skipGap cs with
  | d :: rest => if d = c then some (skipGap rest) else none
  | [] => none

/-! ## Strings -/

/-- The character of an escape with one letter. -/
def escape? : Char → Option Char
  | 'b' => some '\x08'
  | 't' => some '\t'
  | 'n' => some '\n'
  | 'f' => some '\x0c'
  | 'r' => some '\r'
  | '"' => some '"'
  | '\\' => some '\\'
  | _ => none

/-- What a backslash and the text behind it stand for. -/
def escaped? : List Char → Option (Char × List Char)
  | 'u' :: rest =>
    if rest.length < 4 then none else (hexChar? (rest.take 4)).map (·, rest.drop 4)
  | 'U' :: rest =>
    if rest.length < 8 then none else (hexChar? (rest.take 8)).map (·, rest.drop 8)
  | c :: rest => (escape? c).map (·, rest)
  | [] => none

/-- The text behind a backslash at the end of a line and all blanks and line ends that follow. -/
def joinedLine? (cs : List Char) : Option (List Char) :=
  (newline? (skipGap cs)).map fun rest => skipBlank (rest.length + 1) rest
where
  /-- The text behind blanks and line ends. -/
  skipBlank : (fuel : Nat) → List Char → List Char
    | 0, cs => cs
    | fuel + 1, cs =>
      match newline? (skipGap cs) with
      | some rest => skipBlank fuel rest
      | none => skipGap cs

/-- A finished string and what is left. -/
def finish (done rest : List Char) : String × List Char := (String.ofList done.reverse, rest)

/-- The rest of a string with escapes; `done` holds its characters so far, last first. -/
def basic? : (fuel : Nat) → (done : List Char) → List Char → Option (String × List Char)
  | 0, _, _ => none
  | _, done, '"' :: rest => some (finish done rest)
  | fuel + 1, done, '\\' :: rest => do
    let (c, rest) ← escaped? rest
    basic? fuel (c :: done) rest
  | fuel + 1, done, c :: rest => if isControl c then none else basic? fuel (c :: done) rest
  | _, _, [] => none

/-- The rest of a string of several lines that ends with three `quote` characters. Up to two more may
stand right before the end, and belong to the string. -/
def several? (quote : Char) (escapes : Bool) :
    (fuel : Nat) → (done : List Char) → List Char → Option (String × List Char)
  | 0, _, _ => none
  | fuel + 1, done, cs =>
    let quotes := (cs.takeWhile (· == quote)).length
    if 3 ≤ quotes then
      let more := min 2 (quotes - 3)
      some (finish (List.replicate more quote ++ done) (cs.drop (3 + more)))
    else
      match cs with
      | '\\' :: rest =>
        if !escapes then several? quote escapes fuel ('\\' :: done) rest
        else
          match joinedLine? rest with
          | some rest => several? quote escapes fuel done rest
          | none => do
            let (c, rest) ← escaped? rest
            several? quote escapes fuel (c :: done) rest
      | c :: rest =>
        match newline? (c :: rest) with
        | some rest => several? quote escapes fuel ('\n' :: done) rest
        | none => if isControl c then none else several? quote escapes fuel (c :: done) rest
      | [] => none

/-- The rest of a string without escapes. -/
def literal? (cs : List Char) : Option (String × List Char) :=
  let text := cs.takeWhile fun c => c != '\'' && !isControl c
  match cs.drop text.length with
  | '\'' :: rest => some (String.ofList text, rest)
  | _ => none

/-- A string of one line. -/
def quoted? : List Char → Option (String × List Char)
  | '"' :: rest => basic? (rest.length + 1) [] rest
  | '\'' :: rest => literal? rest
  | _ => none

/-- A string of one of the four forms. The line end behind three quotes is not part of it. -/
def string? : List Char → Option (String × List Char)
  | '"' :: '"' :: '"' :: rest => several? '"' true (rest.length + 1) [] (skipNewline rest)
  | '\'' :: '\'' :: '\'' :: rest => several? '\'' false (rest.length + 1) [] (skipNewline rest)
  | cs => quoted? cs

/-! ## Keys -/

/-- The characters of keys without quotes, and of words. -/
def isBare (c : Char) : Bool := c.isAlphanum || c == '_' || c == '-'

/-- A key. -/
def key? (cs : List Char) : Option (String × List Char) :=
  match cs.takeWhile isBare with
  | [] => quoted? cs
  | text => some (String.ofList text, cs.drop text.length)

/-- Keys with dots between them. -/
def keys? : (fuel : Nat) → List Char → Option (List String × List Char)
  | 0, _ => none
  | fuel + 1, cs => do
    let (key, rest) ← key? (skipGap cs)
    match mark? '.' rest with
    | none => return ([key], rest)
    | some more =>
      let (keys, rest) ← keys? fuel more
      return (key :: keys, rest)

/-- The greatest depth of arrays and inline tables, and the greatest number of keys in a path. -/
def maxDepth : Nat := 79

/-- A key, or several with dots between them. -/
def path? (cs : List Char) : Option (List String × List Char) :=
  (keys? cs.length cs).bind fun (path, rest) =>
    if path.length ≤ maxDepth then some (path, rest) else none

/-! ## Values -/

/-- What the mark behind an item of an array or an entry of an inline table announces. -/
inductive AfterItem where
  | more
  | done

/-- A mark at the start of a text and the text behind it. -/
def announced? (cs : List Char) (more done : Char) : Option (AfterItem × List Char) :=
  match cs with
  | c :: rest => if c = more then some (.more, rest) else if c = done then some (.done, rest) else none
  | [] => none

mutual

/-- A value in which arrays and inline tables are nested at most `depth` times. -/
def value? : (fuel depth : Nat) → List Char → Option (Value × List Char)
  | 0, _, _ => none
  | _, _, '"' :: rest => (string? ('"' :: rest)).map fun (s, rest) => (.str s, rest)
  | _, _, '\'' :: rest => (string? ('\'' :: rest)).map fun (s, rest) => (.str s, rest)
  | _, 0, '[' :: _ => none
  | _, 0, '\x7b' :: _ => none
  | fuel + 1, depth + 1, '[' :: rest =>
    (items? fuel depth [] rest).map fun (items, rest) => (.arr items, rest)
  | fuel + 1, depth + 1, '\x7b' :: rest => do
    let (t, rest) ←
      match mark? '\x7d' rest with
      | some rest => some (([] : Table), rest)
      | none => inline? fuel depth [] rest
    return (.table .inline t, rest)
  | _, _, cs => wordValue? cs

/-- The rest of an array that holds the items `done` so far, last first. A comma may stand behind the
last item. -/
def items? : (fuel depth : Nat) → (done : List Value) → List Char → Option (List Value × List Char)
  | 0, _, _, _ => none
  | fuel + 1, depth, done, cs => do
    match ← skipLines? (cs.length + 1) cs with
    | ']' :: rest => return (done.reverse, rest)
    | cs =>
      let (v, rest) ← value? fuel depth cs
      match ← announced? (← skipLines? (rest.length + 1) rest) ',' ']' with
      | (.more, rest) => items? fuel depth (v :: done) rest
      | (.done, rest) => return ((v :: done).reverse, rest)

/-- The rest of an inline table that holds the entries `t` so far. -/
def inline? : (fuel depth : Nat) → (t : Table) → List Char → Option (Table × List Char)
  | 0, _, _, _ => none
  | fuel + 1, depth, t, cs => do
    let (path, rest) ← path? cs
    let rest ← mark? '=' rest
    let (v, rest) ← value? fuel depth rest
    let t ← t.set? v path
    match ← announced? (skipGap rest) ',' '\x7d' with
    | (.more, rest) => inline? fuel depth t rest
    | (.done, rest) => return (t, rest)

end

/-! ## Documents -/

/-- The rest of a header behind its opening bracket. -/
def header? : List Char → Option (Statement × List Char)
  | '[' :: rest => do
    let (path, rest) ← path? rest
    match skipGap rest with
    | ']' :: ']' :: rest => return (.item path, rest)
    | _ => none
  | rest => do
    let (path, rest) ← path? rest
    match skipGap rest with
    | ']' :: rest => return (.header path, rest)
    | _ => none

/-- An entry. -/
def entry? (cs : List Char) : Option (Statement × List Char) := do
  let (path, rest) ← path? cs
  let rest ← mark? '=' rest
  let (v, rest) ← value? (rest.length + 1) maxDepth rest
  return (.entry path v, rest)

/-- The statements of a text. -/
def statements? : (fuel : Nat) → List Char → Option (List Statement)
  | 0, _ => none
  | fuel + 1, cs =>
    match skipGap cs, lineEnd? cs with
    | [], _ => some []
    | _, some rest => statements? fuel rest
    | cs, none => do
      let (statement, rest) ←
        match cs with
        | '[' :: rest => header? rest
        | _ => entry? cs
      return statement :: (← statements? fuel (← lineEnd? rest))

/-- The text behind a byte order mark. -/
def skipOrderMark : List Char → List Char
  | '\ufeff' :: rest => rest
  | cs => cs

/-- Reads a document. -/
def read? (text : String) : Option Table := do
  let cs := skipOrderMark text.toList
  build? [] [] (← statements? (cs.length + 1) cs)

end ProtoScript.Toml
