import ProtoScript.Json.Reader
import ProtoScript.Json.Writer
import ProtoScript.Proofs.Json.Number
import ProtoScript.Proofs.Json.Record

set_option autoImplicit false

/-!
# A written value is read back

The text that `Json.pretty` writes for a value is cut into the tokens of the value (`Json.tokens`),
and these are read as the draft that holds exactly that value (`Draft.ofJson`). Both steps go by
recursion on the value, with whatever follows its text, or its tokens, left over. What is needed of
the value is that it is not nested too deeply and that the text of each scalar is read as that scalar.
-/

namespace ProtoScript.Json

/-!
## The scalars of a JSON text

A word or a string that the writer puts down is cut back into one token. A word ends where something
else begins, so what follows it must not go on with it (`Stops`). A whole number is read back if it
fits 64 bits; of a float this cannot be said, since the reader rounds more than once, and so a float
whose text is read as that float is one that `ReadsBack`.
-/

/-! ### Steps of the reader -/

/-- The text does not go on with a word. -/
def Stops (rest : List Char) : Prop := ∀ c ∈ rest.head?, isWordChar c = false

theorem lex?_step {state next : LexState} {tokens more : List Token} {c : Char} (rest : List Char)
    (h : step? state tokens c = some (next, more)) :
    lex? state tokens (c :: rest) = lex? next more rest := by
  simp [lex?, h]

theorem lex?_gap {gap : List Char} (h : ∀ c ∈ gap, isGap c = true) (tokens : List Token)
    (rest : List Char) : lex? .between tokens (gap ++ rest) = lex? .between tokens rest := by
  induction gap with
  | nil => rfl
  | cons c cs ih =>
      have hc : step? .between tokens c = some (.between, tokens) := by
        simp [step?, stepBetween?, h c (by simp)]
      rw [List.cons_append, lex?_step _ hc]
      exact ih fun d hd => h d (by simp [hd])

/-- A new line with its blanks is passed over. -/
theorem lex?_newLine (level : Nat) (tokens : List Token) (rest : List Char) :
    lex? .between tokens ((newLine level).toList ++ rest) = lex? .between tokens rest := by
  refine lex?_gap (fun c hc => ?_) tokens rest
  simp only [newLine, String.toList_append, List.mem_append, String.toList_ofList,
    List.mem_replicate] at hc
  rcases hc with hc | ⟨-, rfl⟩
  · rw [show c = '\n' by simpa using hc]
    rfl
  · rfl

theorem lex?_mark {c : Char} (h : isMark c = true) (tokens : List Token) (rest : List Char) :
    lex? .between tokens (c :: rest) = lex? .between (.mark c :: tokens) rest := by
  have hgap : isGap c = false := by
    simp only [isMark, Bool.or_eq_true, beq_iff_eq] at h
    rcases h with ((((rfl | rfl) | rfl) | rfl) | rfl) | rfl <;> rfl
  exact lex?_step _ (by simp [step?, stepBetween?, hgap, h])

/-! ### Words -/

/-- A character of words is neither a gap nor a mark nor a quote. -/
theorem step?_between_word {c : Char} (h : isWordChar c = true) (tokens : List Token) :
    step? .between tokens c = some (.word [c], tokens) := by
  have hgap : isGap c = false := by
    cases hc : isGap c with
    | false => rfl
    | true =>
        simp only [isGap, Bool.or_eq_true, beq_iff_eq] at hc
        rcases hc with ((rfl | rfl) | rfl) | rfl <;> cases h
  have hmark : isMark c = false := by
    cases hc : isMark c with
    | false => rfl
    | true =>
        simp only [isMark, Bool.or_eq_true, beq_iff_eq] at hc
        rcases hc with ((((rfl | rfl) | rfl) | rfl) | rfl) | rfl <;> cases h
  have hquote : c ≠ '"' := by
    rintro rfl
    cases h
  simp [step?, stepBetween?, hgap, hmark, hquote, h]

theorem step?_word {c : Char} (h : isWordChar c = true) (done : List Char) (tokens : List Token) :
    step? (.word done) tokens c = some (.word (c :: done), tokens) := by
  simp [step?, h]

theorem lex?_inWord {cs : List Char} (h : ∀ c ∈ cs, isWordChar c = true) (done : List Char)
    (tokens : List Token) (rest : List Char) :
    lex? (.word done) tokens (cs ++ rest) = lex? (.word (cs.reverse ++ done)) tokens rest := by
  induction cs generalizing done with
  | nil => rfl
  | cons c cs ih =>
      rw [List.cons_append, lex?_step _ (step?_word (h c (by simp)) done tokens),
        ih fun d hd => h d (by simp [hd])]
      simp

/-- A word is one token if nothing goes on with it. -/
theorem lex?_word {cs : List Char} {t : Token} (h : ∀ c ∈ cs, isWordChar c = true)
    (hne : cs ≠ []) (ht : word? cs = some t) (tokens : List Token) {rest : List Char}
    (hrest : Stops rest) :
    lex? .between tokens (cs ++ rest) = lex? .between (t :: tokens) rest := by
  obtain ⟨c, cs, rfl⟩ := List.exists_cons_of_ne_nil hne
  rw [List.cons_append, lex?_step _ (step?_between_word (h c (by simp)) tokens),
    lex?_inWord fun d hd => h d (by simp [hd])]
  have hword : (cs.reverse ++ [c]).reverse = c :: cs := by simp
  cases rest with
  | nil => simp only [lex?, hword, ht, Option.map_some]
  | cons d rest => simp [lex?, step?, hrest d rfl, ht]

/-! ### Strings -/

theorem hexDigit?_digitChar : ∀ n < 16, hexDigit? n.digitChar = some n := by decide

/-- The four digits of a numbered escape. -/
theorem toList_numberedEscape : ∀ n < 32, (numberedEscape (Char.ofNat n)).toList =
    ['\\', 'u', '0', '0', (n / 16).digitChar, (n % 16).digitChar] := by
  decide

/-- A numbered escape is read back. -/
theorem lex?_numberedEscape {c : Char} (h : c.toNat < 32) (done : List Char) (tokens : List Token)
    (rest : List Char) :
    lex? (.string (some done)) tokens ((numberedEscape c).toList ++ rest) =
      lex? (.string (some (c :: done))) tokens rest := by
  have hdigits := toList_numberedEscape c.toNat h
  rw [Char.ofNat_toNat] at hdigits
  have hhigh := hexDigit?_digitChar (c.toNat / 16) (by omega)
  have hlow := hexDigit?_digitChar (c.toNat % 16) (by omega)
  have hzero : hexDigit? '0' = some 0 := rfl
  have hvalue : 16 * (c.toNat / 16) + c.toNat % 16 = c.toNat := by omega
  rw [hdigits]
  simp [lex?, step?, stepString?, stepEscape?, hzero, hhigh, hlow, hvalue, finishHex, Done.push,
    show ¬ 55296 ≤ c.toNat by omega, show ¬ 56320 ≤ c.toNat by omega]

/-- A character of a string is read back. -/
theorem lex?_escapeChar (c : Char) (done : List Char) (tokens : List Token) (rest : List Char) :
    lex? (.string (some done)) tokens ((escapeChar c).toList ++ rest) =
      lex? (.string (some (c :: done))) tokens rest := by
  unfold escapeChar
  split
  case h_8 _ hquote hslash _ _ _ _ _ =>
    split
    case isTrue hlow => exact lex?_numberedEscape hlow done tokens rest
    case isFalse hhigh =>
      rw [show c.toString.toList = [c] from by simp [Char.toString], List.singleton_append]
      exact lex?_step _ (by simp [step?, stepString?, if_neg hquote, if_neg hslash, hhigh, Done.push])
  all_goals rfl

theorem toList_foldl_escape (cs : List Char) (before : String) :
    (cs.foldl (fun out c => out ++ escapeChar c) before).toList =
      before.toList ++ cs.flatMap fun c => (escapeChar c).toList := by
  induction cs generalizing before with
  | nil => simp
  | cons c cs ih => simp [ih]

theorem toList_quote (s : String) :
    (quote s).toList = '"' :: (s.toList.flatMap fun c => (escapeChar c).toList) ++ ['"'] := by
  simp [quote, String.foldl_eq_foldl_toList, toList_foldl_escape]

theorem lex?_escaped (cs done : List Char) (tokens : List Token) (rest : List Char) :
    lex? (.string (some done)) tokens ((cs.flatMap fun c => (escapeChar c).toList) ++ rest) =
      lex? (.string (some (cs.reverse ++ done))) tokens rest := by
  induction cs generalizing done with
  | nil => rfl
  | cons c cs ih =>
      rw [List.flatMap_cons, List.append_assoc, lex?_escapeChar, ih]
      simp

/-- A string in quotes is read back. -/
theorem lex?_quote (s : String) (tokens : List Token) (rest : List Char) :
    lex? .between tokens ((quote s).toList ++ rest) =
      lex? .between (.text (some s) :: tokens) rest := by
  rw [toList_quote, List.append_assoc, List.cons_append]
  calc lex? .between tokens ('"' :: (_ ++ (['"'] ++ rest)))
      = lex? (.string (some [])) tokens (_ ++ (['"'] ++ rest)) := lex?_step _ rfl
    _ = lex? (.string (some (s.toList.reverse ++ []))) tokens (['"'] ++ rest) :=
        lex?_escaped s.toList [] tokens _
    _ = lex? .between (.text (some s) :: tokens) rest := by
        rw [List.singleton_append]
        exact lex?_step _ (by simp [step?, stepString?, Done.string])

/-! ## Written values -/

/-! ### Scalars -/

/-- The text of the float is read as the float. -/
def ReadsBack (x : Float) : Prop := number? (FloatStyle.json.render x).toList = some (.float x)

/-- The text of a scalar is read as the scalar. -/
def Exact : Json → Prop
  | int n => -(2 ^ 63) ≤ n ∧ n < 2 ^ 64
  | float x => ReadsBack x
  | _ => True

/-! ### Tokens -/

mutual

/-- The tokens of the text of a value. -/
def tokens : Json → List Token
  | str s => [.text (some s)]
  | arr [] => [.mark '[', .mark ']']
  | arr (j :: rest) => .mark '[' :: (tokens j ++ (itemTokens rest ++ [.mark ']']))
  | obj [] => [.mark '\x7b', .mark '\x7d']
  | obj ((key, j) :: rest) =>
    .mark '\x7b' :: .text (some key) :: .mark ':' ::
      (tokens j ++ (entryTokens rest ++ [.mark '\x7d']))
  | j => [.scalar (some j)]

/-- The tokens of the items behind the first. -/
def itemTokens : List Json → List Token
  | [] => []
  | j :: rest => .mark ',' :: (tokens j ++ itemTokens rest)

/-- The tokens of the entries behind the first. -/
def entryTokens : List (String × Json) → List Token
  | [] => []
  | (key, j) :: rest =>
    .mark ',' :: .text (some key) :: .mark ':' :: (tokens j ++ entryTokens rest)

end

theorem stops_mark {c : Char} (h : isMark c = true) (rest : List Char) : Stops (c :: rest) := by
  intro d hd
  cases hd
  simp only [isMark, Bool.or_eq_true, beq_iff_eq] at h
  rcases h with ((((rfl | rfl) | rfl) | rfl) | rfl) | rfl <;> rfl

theorem stops_newLine (level : Nat) (rest : List Char) :
    Stops ((newLine level).toList ++ rest) := by
  intro c hc
  rw [newLine, String.toList_append] at hc
  cases hc
  rfl

theorem isNumber_of_number? {cs : List Char} {j : Json} (h : number? cs = some j) :
    isNumber cs = true := (number?_cases h).1

/-- A number is one token. -/
theorem lex?_number {text : String} {j : Json} (h : number? text.toList = some j)
    (before : List Token) {rest : List Char} (hrest : Stops rest) :
    lex? .between before (text.toList ++ rest) =
      lex? .between (.scalar (some j) :: before) rest := by
  have hgrammar := isNumber_of_number? h
  have hne : text.toList ≠ [] := by
    intro hnil
    rw [hnil] at hgrammar
    cases hgrammar
  have hword : word? text.toList = some (.scalar (some j)) := by
    have hother : ∀ w : String, isNumber w.toList = false → text.toList ≠ w.toList := by
      intro w hw heq
      rw [heq, hw] at hgrammar
      cases hgrammar
    rw [word?, if_neg (hother "null" (by decide)), if_neg (hother "true" (by decide)),
      if_neg (hother "false" (by decide)), if_pos hgrammar, h]
  exact lex?_word (wordChars_of_isNumber hgrammar) hne hword before hrest

/-- One of the three names is one token. -/
theorem lex?_name (text : String) {t : Token} (h : word? text.toList = some t)
    (hne : text.toList ≠ []) (hword : ∀ c ∈ text.toList, isWordChar c = true)
    (before : List Token) {rest : List Char} (hrest : Stops rest) :
    lex? .between before (text.toList ++ rest) = lex? .between (t :: before) rest :=
  lex?_word hword hne h before hrest

theorem stops_prettyItems (level : Nat) (items : List Json) {rest : List Char}
    (hrest : Stops rest) : Stops ((prettyItems level items).toList ++ rest) := by
  cases items with
  | nil => exact hrest
  | cons j items =>
      simp only [prettyItems, String.toList_append, List.append_assoc]
      exact stops_mark rfl _

theorem stops_prettyEntries (level : Nat) (entries : List (String × Json)) {rest : List Char}
    (hrest : Stops rest) : Stops ((prettyEntries level entries).toList ++ rest) := by
  cases entries with
  | nil => exact hrest
  | cons e entries =>
      simp only [prettyEntries, String.toList_append, List.append_assoc]
      exact stops_mark rfl _

/-- A key with its colon and the blank behind it. -/
theorem lex?_key (key : String) (before : List Token) (rest : List Char) :
    lex? .between before ((quote key).toList ++ (": ".toList ++ rest)) =
      lex? .between (.mark ':' :: .text (some key) :: before) rest := by
  rw [lex?_quote]
  exact (lex?_mark rfl _ _).trans (@lex?_gap [' '] (List.all_eq_true.1 rfl) _ rest)

mutual

/-- The text of a value is cut into its tokens. -/
theorem lex?_prettyAt (j : Json) {depth : Nat} (h : Within Exact depth j) (level : Nat)
    (before : List Token) (rest : List Char) (hrest : Stops rest) :
    lex? .between before ((prettyAt level j).toList ++ rest) =
      lex? .between (j.tokens.reverse ++ before) rest := by
  match j with
  | null => exact lex?_name "null" rfl (by decide +kernel) (List.all_eq_true.1 rfl) before hrest
  | bool true => exact lex?_name "true" rfl (by decide +kernel) (List.all_eq_true.1 rfl) before hrest
  | bool false => exact lex?_name "false" rfl (by decide +kernel) (List.all_eq_true.1 rfl) before hrest
  | int n =>
      have hn : Exact (int n) := by simpa [Within] using h
      exact lex?_number (number?_toString hn.1 hn.2) before hrest
  | float x =>
      have hx : Exact (float x) := by simpa [Within] using h
      exact lex?_number hx before hrest
  | str s => exact lex?_quote s before rest
  | arr [] =>
      rw [prettyAt, tokens]
      exact (@lex?_mark '[' rfl before _).trans (@lex?_mark ']' rfl _ rest)
  | arr (j :: items) =>
      obtain ⟨depth, rfl⟩ : ∃ d, depth = d + 1 := by
        cases depth with
        | zero => cases h
        | succ d => exact ⟨d, rfl⟩
      obtain ⟨hj, hitems⟩ : Within Exact depth j ∧ WithinItems Exact depth items := h
      simp only [prettyAt, String.toList_append, List.append_assoc, tokens]
      calc lex? .between before ('[' :: _)
          = lex? .between (.mark '[' :: before) _ :=
            (lex?_mark rfl before _).trans (lex?_newLine (level + 1) _ _)
        _ = lex? .between (j.tokens.reverse ++ (.mark '[' :: before)) _ :=
            lex?_prettyAt j hj (level + 1) _ _ (stops_prettyItems _ _ (stops_newLine _ _))
        _ = lex? .between ((itemTokens items).reverse ++ (j.tokens.reverse ++
              (.mark '[' :: before))) _ :=
            lex?_prettyItems items hitems (level + 1) _ _ (stops_newLine _ _)
        _ = lex? .between (.mark ']' :: ((itemTokens items).reverse ++ (j.tokens.reverse ++
              (.mark '[' :: before)))) rest :=
            (lex?_newLine level _ _).trans (lex?_mark rfl _ rest)
        _ = _ := by simp
  | obj [] =>
      rw [prettyAt, tokens]
      exact (@lex?_mark '\x7b' rfl before _).trans (@lex?_mark '\x7d' rfl _ rest)
  | obj ((key, j) :: entries) =>
      obtain ⟨depth, rfl⟩ : ∃ d, depth = d + 1 := by
        cases depth with
        | zero => cases h
        | succ d => exact ⟨d, rfl⟩
      obtain ⟨hj, hentries⟩ : Within Exact depth j ∧ WithinEntries Exact depth entries := h
      simp only [prettyAt, String.toList_append, List.append_assoc, tokens]
      calc lex? .between before ('\x7b' :: _)
          = lex? .between (.mark '\x7b' :: before) _ :=
            (lex?_mark rfl before _).trans (lex?_newLine (level + 1) _ _)
        _ = lex? .between (.mark ':' :: .text (some key) :: .mark '\x7b' :: before) _ :=
            lex?_key key _ _
        _ = lex? .between (j.tokens.reverse ++ (.mark ':' :: .text (some key) :: .mark '\x7b' ::
              before)) _ :=
            lex?_prettyAt j hj (level + 1) _ _ (stops_prettyEntries _ _ (stops_newLine _ _))
        _ = lex? .between ((entryTokens entries).reverse ++ (j.tokens.reverse ++ (.mark ':' ::
              .text (some key) :: .mark '\x7b' :: before))) _ :=
            lex?_prettyEntries entries hentries (level + 1) _ _ (stops_newLine _ _)
        _ = lex? .between (.mark '\x7d' :: ((entryTokens entries).reverse ++ (j.tokens.reverse ++
              (.mark ':' :: .text (some key) :: .mark '\x7b' :: before)))) rest :=
            (lex?_newLine level _ _).trans (lex?_mark rfl _ rest)
        _ = _ := by simp

/-- The text of the items behind the first is cut into their tokens. -/
theorem lex?_prettyItems (items : List Json) {depth : Nat} (h : WithinItems Exact depth items)
    (level : Nat) (before : List Token) (rest : List Char) (hrest : Stops rest) :
    lex? .between before ((prettyItems level items).toList ++ rest) =
      lex? .between ((itemTokens items).reverse ++ before) rest := by
  match items with
  | [] => rfl
  | j :: items =>
      simp only [prettyItems, String.toList_append, List.append_assoc, itemTokens]
      calc lex? .between before (',' :: _)
          = lex? .between (.mark ',' :: before) _ :=
            (lex?_mark rfl before _).trans (lex?_newLine level _ _)
        _ = lex? .between (j.tokens.reverse ++ (.mark ',' :: before)) _ :=
            lex?_prettyAt j h.1 level _ _ (stops_prettyItems _ _ hrest)
        _ = lex? .between ((itemTokens items).reverse ++ (j.tokens.reverse ++
              (.mark ',' :: before))) rest :=
            lex?_prettyItems items h.2 level _ rest hrest
        _ = _ := by simp

/-- The text of the entries behind the first is cut into their tokens. -/
theorem lex?_prettyEntries (entries : List (String × Json)) {depth : Nat}
    (h : WithinEntries Exact depth entries) (level : Nat) (before : List Token)
    (rest : List Char) (hrest : Stops rest) :
    lex? .between before ((prettyEntries level entries).toList ++ rest) =
      lex? .between ((entryTokens entries).reverse ++ before) rest := by
  match entries with
  | [] => rfl
  | (key, j) :: entries =>
      simp only [prettyEntries, String.toList_append, List.append_assoc, entryTokens]
      calc lex? .between before (',' :: _)
          = lex? .between (.mark ',' :: before) _ :=
            (lex?_mark rfl before _).trans (lex?_newLine level _ _)
        _ = lex? .between (.mark ':' :: .text (some key) :: .mark ',' :: before) _ :=
            lex?_key key _ _
        _ = lex? .between (j.tokens.reverse ++ (.mark ':' :: .text (some key) :: .mark ',' ::
              before)) _ :=
            lex?_prettyAt j h.1 level _ _ (stops_prettyEntries _ _ hrest)
        _ = lex? .between ((entryTokens entries).reverse ++ (j.tokens.reverse ++ (.mark ':' ::
              .text (some key) :: .mark ',' :: before))) rest :=
            lex?_prettyEntries entries h.2 level _ rest hrest
        _ = _ := by simp

end

/-! ### Drafts -/

mutual

/-- The draft of a value. -/
def Draft.ofJson : Json → Draft
  | .arr items => .arr (Draft.ofItems items)
  | .obj entries => .obj (Draft.ofEntries entries)
  | j => .scalar (some j)

def Draft.ofItems : List Json → List Draft
  | [] => []
  | j :: rest => Draft.ofJson j :: Draft.ofItems rest

def Draft.ofEntries : List (String × Json) → Entries
  | [] => []
  | (key, j) :: rest => (some key, Draft.ofJson j) :: Draft.ofEntries rest

end

/-- The tokens of a value do not begin with the end of an array. -/
theorem run?_firstItem (j : Json) (stack : List Frame) (rest : List Token) :
    run? stack .firstItem (j.tokens ++ rest) = run? stack .value (j.tokens ++ rest) := by
  match j with
  | null | bool _ | int _ | float _ | str _ | arr [] | arr (_ :: _) | obj [] | obj (_ :: _) =>
      simp [tokens, run?, advance?]

mutual

/-- The tokens of a value are read as its draft. -/
theorem run?_tokens (j : Json) (stack : List Frame) (rest : List Token) :
    run? stack .value (j.tokens ++ rest) = run? stack (.after (.ofJson j)) rest := by
  match j with
  | null => simp [tokens, run?, advance?, start?, Draft.ofJson]
  | bool _ => simp [tokens, run?, advance?, start?, Draft.ofJson]
  | int _ => simp [tokens, run?, advance?, start?, Draft.ofJson]
  | float _ => simp [tokens, run?, advance?, start?, Draft.ofJson]
  | str _ => simp [tokens, run?, advance?, start?, Draft.ofJson]
  | arr [] => simp [tokens, run?, advance?, start?, Draft.ofJson, Draft.ofItems]
  | arr (j :: items) =>
      simp only [tokens, List.cons_append, List.append_assoc]
      calc run? stack .value (.mark '[' :: _)
          = run? (.arr [] :: stack) .value (tokens j ++ (itemTokens items ++ ([.mark ']'] ++ rest))) :=
            run?_firstItem j _ _
        _ = run? (.arr [] :: stack) (.after (.ofJson j)) _ := run?_tokens j _ _
        _ = _ := by
            rw [List.singleton_append, run?_itemTokens items]
            simp [Draft.ofJson, Draft.ofItems]
  | obj [] => simp [tokens, run?, advance?, start?, Draft.ofJson, Draft.ofEntries]
  | obj ((key, j) :: entries) =>
      simp only [tokens, List.cons_append, List.append_assoc]
      calc run? stack .value (.mark '\x7b' :: .text (some key) :: .mark ':' :: _)
          = run? (.obj [] (some key) :: stack) .value _ := rfl
        _ = run? (.obj [] (some key) :: stack) (.after (.ofJson j)) _ := run?_tokens j _ _
        _ = _ := by
            rw [List.nil_append, run?_entryTokens entries]
            simp [Draft.ofJson, Draft.ofEntries]

/-- The items behind the first are put to it. -/
theorem run?_itemTokens (items : List Json) (stack : List Frame) (done : List Draft) (d : Draft)
    (rest : List Token) :
    run? (.arr done :: stack) (.after d) (itemTokens items ++ (.mark ']' :: rest)) =
      run? stack (.after (.arr (done.reverse ++ d :: Draft.ofItems items))) rest := by
  match items with
  | [] => simp [itemTokens, run?, advance?, continue?, Draft.ofItems]
  | j :: items =>
      simp only [itemTokens, List.cons_append, List.append_assoc]
      calc run? (.arr done :: stack) (.after d) (.mark ',' :: _)
          = run? (.arr (d :: done) :: stack) .value _ := rfl
        _ = run? (.arr (d :: done) :: stack) (.after (.ofJson j)) _ := run?_tokens j _ _
        _ = _ := by
            rw [run?_itemTokens items]
            simp [Draft.ofItems]

/-- The entries behind the first are put to it. -/
theorem run?_entryTokens (entries : List (String × Json)) (stack : List Frame) (done : Entries)
    (key : String) (d : Draft) (rest : List Token) :
    run? (.obj done (some key) :: stack) (.after d) (entryTokens entries ++ (.mark '\x7d' :: rest)) =
      run? stack (.after (.obj (done.reverse ++ (some key, d) :: Draft.ofEntries entries))) rest := by
  match entries with
  | [] => simp [entryTokens, run?, advance?, continue?, Draft.ofEntries]
  | (next, j) :: entries =>
      simp only [entryTokens, List.cons_append, List.append_assoc]
      calc run? (.obj done (some key) :: stack) (.after d) (.mark ',' :: .text (some next) :: .mark ':' :: _)
          = run? (.obj ((some key, d) :: done) (some next) :: stack) .value _ := rfl
        _ = run? (.obj ((some key, d) :: done) (some next) :: stack) (.after (.ofJson j)) _ :=
            run?_tokens j _ _
        _ = _ := by
            rw [run?_entryTokens entries]
            simp [Draft.ofEntries]

end

mutual

/-- The draft of a value that is not nested too deeply has that value. -/
theorem json?_ofJson {P : Json → Prop} (j : Json) {depth : Nat} (h : Within P depth j) :
    (Draft.ofJson j).json? depth = some j := by
  match j, depth with
  | null, _ | bool _, _ | int _, _ | float _, _ | str _, _ => simp [Draft.ofJson, Draft.json?]
  | arr _, 0 => cases h
  | arr items, depth + 1 => simp [Draft.ofJson, Draft.json?, jsonItems?_ofItems items h]
  | obj _, 0 => cases h
  | obj entries, depth + 1 => simp [Draft.ofJson, Draft.json?, jsonEntries?_ofEntries entries h]

theorem jsonItems?_ofItems {P : Json → Prop} (items : List Json) {depth : Nat} (h : WithinItems P depth items) :
    Draft.jsonItems? depth (Draft.ofItems items) = some items := by
  match items with
  | [] => rfl
  | j :: items =>
      simp [Draft.ofItems, Draft.jsonItems?, json?_ofJson j h.1, jsonItems?_ofItems items h.2]

theorem jsonEntries?_ofEntries {P : Json → Prop} (entries : List (String × Json)) {depth : Nat}
    (h : WithinEntries P depth entries) :
    Draft.jsonEntries? depth (Draft.ofEntries entries) = some entries := by
  match entries with
  | [] => rfl
  | (key, j) :: entries =>
      simp [Draft.ofEntries, Draft.jsonEntries?, json?_ofJson j h.1,
        jsonEntries?_ofEntries entries h.2]

end

/-- **A written value is read back** if it is not nested too deeply and every scalar in it is one whose
text is read as that scalar. -/
theorem read?_pretty {j : Json} {depth : Nat} (h : Within Exact depth j) : read? depth j.pretty = some j := by
  have hlex : lex? .between [] j.pretty.toList = some j.tokens := by
    have hwhole := lex?_prettyAt j h 0 [] [] (by simp [Stops])
    rw [List.append_nil, List.append_nil] at hwhole
    rw [pretty, hwhole, lex?, List.reverse_reverse]
  have hrun : run? [] .value j.tokens = some (.ofJson j) := by
    have hwhole := run?_tokens j [] []
    rwa [List.append_nil] at hwhole
  rw [read?, Draft.read?, hlex, Option.bind_some, hrun, Option.bind_some, json?_ofJson j h]

end ProtoScript.Json
