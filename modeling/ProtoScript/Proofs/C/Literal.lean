import Mathlib
import ProtoScript.C.Text

set_option autoImplicit false

/-!
# Reading string literals

C reads a string literal from left to right: behind a backslash stands a letter or sign with a meaning of
its own, or up to three octal digits, as many as there are; a quote with no backslash in front of it ends
the literal. Read in this way, the literal of a text gives the bytes of the text and nothing else, whatever
stands behind it (`readLiteral?_stringLiteral`).
-/

namespace ProtoScript.C

/-! ## How C reads -/

/-- A printable ASCII character. -/
def IsPrintable (c : Char) : Prop := 0x20 ≤ c.toNat ∧ c.toNat ≤ 0x7E

instance (c : Char) : Decidable (IsPrintable c) := inferInstanceAs (Decidable (_ ∧ _))

/-- Where the reader stands: between two bytes, behind a backslash, or behind octal digits, with their value
and the number of digits that may follow. -/
inductive Reading where
  | plain
  | escape
  | octal (value left : Nat)

/-- The byte of an escape without digits. -/
def simpleEscape? : Char → Option UInt8
  | '\'' => some 0x27
  | '"' => some 0x22
  | '?' => some 0x3F
  | '\\' => some 0x5C
  | 'a' => some 0x07
  | 'b' => some 0x08
  | 'f' => some 0x0C
  | 'n' => some 0x0A
  | 'r' => some 0x0D
  | 't' => some 0x09
  | 'v' => some 0x0B
  | _ => none

/-- The value of an octal digit. -/
def octalValue? (c : Char) : Option Nat :=
  if '0'.toNat ≤ c.toNat ∧ c.toNat ≤ '7'.toNat then some (c.toNat - '0'.toNat) else none

/-- The byte with a value. -/
def byte? (n : Nat) : Option UInt8 := if n < 256 then some (UInt8.ofNat n) else none

/-- Reads a character between two bytes: the bytes it gives and where the reader stands then, or `none` if
the literal ends. -/
def Reading.start? (c : Char) : Option (List UInt8 × Option Reading) :=
  if c = '"' then some ([], none)
  else if c = '\\' then some ([], some .escape)
  else if IsPrintable c then some ([UInt8.ofNat c.toNat], some .plain)
  else none

/-- Reads a character. An octal escape is over where three digits have been read or no digit follows. -/
def Reading.step? : Reading → Char → Option (List UInt8 × Option Reading)
  | .plain, c => Reading.start? c
  | .escape, c =>
    match octalValue? c with
    | some d => some ([], some (.octal d 2))
    | none => (simpleEscape? c).map fun b => ([b], some .plain)
  | .octal value left, c =>
    match left, octalValue? c with
    | left + 1, some d => some ([], some (.octal (8 * value + d) left))
    | _, _ => do
      let b ← byte? value
      let (bytes, next) ← Reading.start? c
      return (b :: bytes, next)

/-- Reads a literal behind its first quote: its bytes and what stands behind its last quote. -/
def readBody? : Reading → List Char → Option (List UInt8 × List Char)
  | _, [] => none
  | state, c :: rest => do
    match ← Reading.step? state c with
    | (bytes, none) => return (bytes, rest)
    | (bytes, some next) =>
      let (more, behind) ← readBody? next rest
      return (bytes ++ more, behind)

/-- Reads a string literal: its bytes and what stands behind it. -/
def readLiteral? : List Char → Option (List UInt8 × List Char)
  | '"' :: rest => readBody? .plain rest
  | _ => none

/-- The number of quotes that no backslash stands in front of; a backslash behind a backslash is no escape
of what follows it. -/
def bareQuotes : List Char → Nat
  | [] => 0
  | '\\' :: _ :: rest => bareQuotes rest
  | c :: rest => bareQuotes rest + if c = '"' then 1 else 0

/-! ## One byte -/

theorem octalDigit_spec (n : Nat) :
    octalValue? (octalDigit n) = some (n % 8) ∧ IsPrintable (octalDigit n) ∧ octalDigit n ≠ '"' ∧
      octalDigit n ≠ '\\' ∧ octalDigit n ≠ '?' := by
  have hall : ∀ d < 8, octalValue? (octalDigit d) = some d ∧ IsPrintable (octalDigit d) ∧ octalDigit d ≠ '"' ∧
      octalDigit d ≠ '\\' ∧ octalDigit d ≠ '?' := by
    decide
  have hmod : octalDigit (n % 8) = octalDigit n := by
    rw [octalDigit, octalDigit, Nat.mod_mod]
  have hdigit := hall (n % 8) (Nat.mod_lt n (by decide))
  rwa [hmod] at hdigit

/-- The ways of writing a byte: as itself, behind a backslash, or with three octal digits. -/
theorem escapeByte_cases (b : UInt8) :
    (∃ c, escapeByte b = [c] ∧ IsPrintable c ∧ c ≠ '"' ∧ c ≠ '\\' ∧ c ≠ '?' ∧ UInt8.ofNat c.toNat = b) ∨
    (∃ c, escapeByte b = ['\\', c] ∧ IsPrintable c ∧ octalValue? c = none ∧ simpleEscape? c = some b) ∨
    escapeByte b = ['\\', octalDigit (b.toNat / 64), octalDigit (b.toNat / 8), octalDigit b.toNat] := by
  unfold escapeByte
  split_ifs with hquote hbackslash hquestion hnewline htab hprintable
  · exact .inr (.inl ⟨'"', rfl, by decide, by decide, hquote ▸ rfl⟩)
  · exact .inr (.inl ⟨'\\', rfl, by decide, by decide, hbackslash ▸ rfl⟩)
  · exact .inr (.inl ⟨'?', rfl, by decide, by decide, hquestion ▸ rfl⟩)
  · exact .inr (.inl ⟨'n', rfl, by decide, by decide, hnewline ▸ rfl⟩)
  · exact .inr (.inl ⟨'t', rfl, by decide, by decide, htab ▸ rfl⟩)
  · obtain ⟨hlow, hhigh⟩ := hprintable
    have hlow : 0x20 ≤ b.toNat := hlow
    have hhigh : b.toNat ≤ 0x7E := hhigh
    have hc : (Char.ofNat b.toNat).toNat = b.toNat := by
      rw [Char.toNat_ofNat, if_pos (.inl (by omega))]
    have hne : ∀ c : Char, b ≠ UInt8.ofNat c.toNat → Char.ofNat b.toNat ≠ c := by
      rintro c hb rfl
      rw [hc, UInt8.ofNat_toNat] at hb
      exact hb rfl
    refine .inl ⟨_, rfl, ?_, hne '"' hquote, hne '\\' hbackslash, hne '?' hquestion, ?_⟩
    · rw [IsPrintable, hc]
      exact ⟨hlow, hhigh⟩
    · rw [hc, UInt8.ofNat_toNat]
  · exact .inr (.inr rfl)

theorem isPrintable_escapeByte (b : UInt8) : ∀ c ∈ escapeByte b, IsPrintable c := by
  obtain ⟨c, hc, hprintable, -⟩ | ⟨c, hc, hprintable, -⟩ | hc := escapeByte_cases b
  · simpa [hc] using hprintable
  · simpa [hc] using ⟨by decide, hprintable⟩
  · simp [hc, (octalDigit_spec _).2.1, show IsPrintable '\\' by decide]

/-! ## Reading one byte back -/

section

variable {more : List UInt8} {rest behind : List Char}

theorem readBody?_step {state next : Reading} {c : Char} (bytes : List UInt8)
    (hstep : Reading.step? state c = some (bytes, some next)) (h : readBody? next rest = some (more, behind)) :
    readBody? state (c :: rest) = some (bytes ++ more, behind) := by
  simp [readBody?, hstep, h]

theorem readBody?_char {c : Char} (hprintable : IsPrintable c) (hquote : c ≠ '"') (hbackslash : c ≠ '\\')
    (h : readBody? .plain rest = some (more, behind)) :
    readBody? .plain (c :: rest) = some (UInt8.ofNat c.toNat :: more, behind) :=
  readBody?_step [UInt8.ofNat c.toNat] (by simp [Reading.step?, Reading.start?, *]) h

theorem readBody?_backslash (h : readBody? .escape rest = some (more, behind)) :
    readBody? .plain ('\\' :: rest) = some (more, behind) :=
  readBody?_step [] rfl h

theorem readBody?_simple {c : Char} {b : UInt8} (hdigit : octalValue? c = none)
    (hsimple : simpleEscape? c = some b) (h : readBody? .plain rest = some (more, behind)) :
    readBody? .escape (c :: rest) = some (b :: more, behind) :=
  readBody?_step [b] (by simp [Reading.step?, hdigit, hsimple]) h

theorem readBody?_firstDigit {n : Nat} (h : readBody? (.octal (n % 8) 2) rest = some (more, behind)) :
    readBody? .escape (octalDigit n :: rest) = some (more, behind) :=
  readBody?_step [] (by simp [Reading.step?, (octalDigit_spec n).1]) h

theorem readBody?_nextDigit {value left n : Nat}
    (h : readBody? (.octal (8 * value + n % 8) left) rest = some (more, behind)) :
    readBody? (.octal value (left + 1)) (octalDigit n :: rest) = some (more, behind) :=
  readBody?_step [] (by simp [Reading.step?, (octalDigit_spec n).1]) h

/-- Behind three digits an octal escape is over, even if one more digit stands there. -/
theorem readBody?_thirdDigit {value : Nat} (hvalue : value < 256)
    (h : readBody? .plain rest = some (more, behind)) :
    readBody? (.octal value 0) rest = some (UInt8.ofNat value :: more, behind) := by
  cases rest with
  | nil => cases h
  | cons c rest =>
      have hstep : Reading.step? (.octal value 0) c =
          (Reading.start? c).map fun stepped => (UInt8.ofNat value :: stepped.1, stepped.2) := by
        cases hc : Reading.start? c <;> simp [Reading.step?, byte?, hvalue, hc]
      rw [readBody?, Reading.step?] at h
      rw [readBody?, hstep]
      match hc : Reading.start? c with
      | none => simp [hc] at h
      | some (bytes, none) => simp_all
      | some (bytes, some next) =>
          cases hnext : readBody? next rest <;> simp_all

/-- What stands for a byte is read as that byte. -/
theorem readBody?_escapeByte (b : UInt8) (h : readBody? .plain rest = some (more, behind)) :
    readBody? .plain (escapeByte b ++ rest) = some (b :: more, behind) := by
  obtain ⟨c, hc, hprintable, hquote, hbackslash, -, hb⟩ | ⟨c, hc, -, hdigit, hsimple⟩ | hc :=
    escapeByte_cases b
  · rw [hc, ← hb]
    exact readBody?_char hprintable hquote hbackslash h
  · rw [hc]
    exact readBody?_backslash (readBody?_simple hdigit hsimple h)
  · have hvalue : 8 * (8 * (b.toNat / 64 % 8) + b.toNat / 8 % 8) + b.toNat % 8 = b.toNat := by
      have hlt : b.toNat < 256 := b.toNat_lt
      omega
    have hread := readBody?_thirdDigit b.toNat_lt h
    rw [UInt8.ofNat_toNat] at hread
    rw [hc]
    refine readBody?_backslash (readBody?_firstDigit (readBody?_nextDigit (readBody?_nextDigit ?_)))
    rwa [hvalue]

end

/-! ## The whole literal -/

/-- The text between the quotes of a literal. -/
def literalBody (s : String) : List Char := s.toUTF8.toList.flatMap escapeByte

theorem toList_stringLiteral (s : String) : (stringLiteral s).toList = '"' :: literalBody s ++ ['"'] :=
  String.toList_ofList

theorem isPrintable_stringLiteral {s : String} : ∀ c ∈ (stringLiteral s).toList, IsPrintable c := by
  intro c hc
  rw [toList_stringLiteral] at hc
  rcases List.mem_cons.1 hc with rfl | hc
  · decide
  rcases List.mem_append.1 hc with hc | hc
  · obtain ⟨b, -, hb⟩ := List.mem_flatMap.1 hc
    exact isPrintable_escapeByte b c hb
  · obtain rfl := List.mem_singleton.1 hc
    decide

theorem readLiteral?_stringLiteral (s : String) (rest : List Char) :
    readLiteral? ((stringLiteral s).toList ++ rest) = some (s.toUTF8.toList, rest) := by
  have hbody : ∀ bytes : List UInt8,
      readBody? .plain (bytes.flatMap escapeByte ++ '"' :: rest) = some (bytes, rest) := by
    intro bytes
    induction bytes with
    | nil => rfl
    | cons b bytes ih =>
        rw [List.flatMap_cons, List.append_assoc]
        exact readBody?_escapeByte b ih
  rw [toList_stringLiteral, List.append_assoc]
  exact hbody s.toUTF8.toList

/-! ### Quotes -/

theorem bareQuotes_cons {c : Char} (hquote : c ≠ '"') (hbackslash : c ≠ '\\') (rest : List Char) :
    bareQuotes (c :: rest) = bareQuotes rest := by
  rw [bareQuotes]
  · simp [hquote]
  · rintro _ _ rfl
    exact absurd rfl hbackslash

theorem bareQuotes_escapeByte (b : UInt8) (rest : List Char) :
    bareQuotes (escapeByte b ++ rest) = bareQuotes rest := by
  obtain ⟨c, hc, -, hquote, hbackslash, -⟩ | ⟨c, hc, -⟩ | hc := escapeByte_cases b
  · rw [hc, List.singleton_append, bareQuotes_cons hquote hbackslash]
  · rw [hc, List.cons_append, List.singleton_append, bareQuotes]
  · have hdigit : ∀ (n : Nat) (rest : List Char), bareQuotes (octalDigit n :: rest) = bareQuotes rest :=
      fun n rest => bareQuotes_cons (octalDigit_spec n).2.2.1 (octalDigit_spec n).2.2.2.1 rest
    rw [hc, List.cons_append, List.cons_append, bareQuotes, List.cons_append, List.singleton_append, hdigit,
      hdigit]

theorem bareQuotes_literalBody (s : String) : bareQuotes (literalBody s) = 0 := by
  rw [literalBody]
  induction s.toUTF8.toList with
  | nil => rfl
  | cons b bytes ih => rw [List.flatMap_cons, bareQuotes_escapeByte, ih]

/-! ### Trigraphs -/

/-- Two characters that are not both question marks. -/
def NotBothQuestion (c d : Char) : Prop := ¬ (c = '?' ∧ d = '?')

theorem isChain_cons {c : Char} {rest : List Char} (h : c ≠ '?' ∨ rest.head? ≠ some '?')
    (hrest : rest.IsChain NotBothQuestion) : (c :: rest).IsChain NotBothQuestion := by
  refine List.isChain_cons.2 ⟨?_, hrest⟩
  rintro d hd ⟨rfl, rfl⟩
  exact h.elim (fun hc => hc rfl) (fun hhead => hhead hd)

/-- A question mark stands behind a backslash, so that nothing that is written for a byte starts with one. -/
theorem isChain_escapeByte (b : UInt8) {rest : List Char} (hhead : rest.head? ≠ some '?')
    (hrest : rest.IsChain NotBothQuestion) :
    (escapeByte b ++ rest).head? ≠ some '?' ∧ (escapeByte b ++ rest).IsChain NotBothQuestion := by
  have hdigit : ∀ n, octalDigit n ≠ '?' := fun n => (octalDigit_spec n).2.2.2.2
  obtain ⟨c, hc, -, -, -, hquestion, -⟩ | ⟨c, hc, -⟩ | hc := escapeByte_cases b
  · rw [hc]
    exact ⟨by simpa using hquestion, isChain_cons (.inl hquestion) hrest⟩
  · rw [hc]
    exact ⟨by simp, isChain_cons (.inl (by decide)) (isChain_cons (.inr hhead) hrest)⟩
  · rw [hc]
    exact ⟨by simp, isChain_cons (.inl (by decide)) (isChain_cons (.inl (hdigit _))
      (isChain_cons (.inl (hdigit _)) (isChain_cons (.inl (hdigit _)) hrest)))⟩

theorem not_doubleQuestion (s : String) : ¬ ['?', '?'] <:+: (stringLiteral s).toList := by
  have hbody : ∀ bytes : List UInt8, (bytes.flatMap escapeByte ++ ['"']).head? ≠ some '?' ∧
      (bytes.flatMap escapeByte ++ ['"']).IsChain NotBothQuestion := by
    intro bytes
    induction bytes with
    | nil => exact ⟨by decide, List.isChain_singleton _⟩
    | cons b bytes ih =>
        rw [List.flatMap_cons, List.append_assoc]
        exact isChain_escapeByte b ih.1 ih.2
  rintro ⟨front, behind, hpair⟩
  have hchain : (stringLiteral s).toList.IsChain NotBothQuestion := by
    rw [toList_stringLiteral]
    exact isChain_cons (.inl (by decide)) (hbody s.toUTF8.toList).2
  rw [← hpair] at hchain
  exact List.isChain_pair.1 hchain.left_of_append.right_of_append ⟨rfl, rfl⟩

/-! ### Texts and their bytes -/

theorem toList_byteArray (bytes : ByteArray) : bytes.toList = bytes.data.toList := by
  have hloop : ∀ (i : Nat) (found : List UInt8),
      ByteArray.toList.loop bytes i found = found.reverse ++ bytes.data.toList.drop i := by
    intro i found
    induction i, found using ByteArray.toList.loop.induct bytes with
    | case1 i found hi ih =>
        have hlength : i < bytes.data.toList.length := hi
        have hbyte : bytes.get! i = bytes.data.toList[i] := getElem!_pos bytes.data i hi
        rw [ByteArray.toList.loop, if_pos hi, ih, List.drop_eq_getElem_cons hlength, List.reverse_cons,
          List.append_assoc, List.singleton_append, hbyte]
    | case2 i found hi =>
        have hdrop : bytes.data.toList.drop i = [] := List.drop_eq_nil_of_le (not_lt.1 hi)
        rw [ByteArray.toList.loop, if_neg hi, hdrop, List.append_nil]
  exact hloop 0 []

theorem eq_of_toUTF8_toList {s s' : String} (h : s.toUTF8.toList = s'.toUTF8.toList) : s = s' := by
  rw [toList_byteArray, toList_byteArray] at h
  exact String.toByteArray_inj.1 (ByteArray.ext (Array.toList_inj.1 h))

/-- **A string literal stands for exactly the bytes of its text.** It is printable ASCII without a trigraph,
which would start with two question marks; the only quotes that C takes for quotes are the two around it; and
C reads the bytes of the text between them, whatever stands behind the literal. So different texts have
different literals. -/
theorem stringLiteral_denotes (s : String) :
    (∀ c ∈ (stringLiteral s).toList, IsPrintable c) ∧
    ¬ ['?', '?'] <:+: (stringLiteral s).toList ∧
    (∃ body, (stringLiteral s).toList = '"' :: body ++ ['"'] ∧ bareQuotes body = 0) ∧
    (∀ rest, readLiteral? ((stringLiteral s).toList ++ rest) = some (s.toUTF8.toList, rest)) ∧
    ∀ s', stringLiteral s = stringLiteral s' → s = s' := by
  refine ⟨isPrintable_stringLiteral, not_doubleQuestion s,
    ⟨literalBody s, toList_stringLiteral s, bareQuotes_literalBody s⟩, readLiteral?_stringLiteral s, ?_⟩
  intro s' hsame
  have hread := readLiteral?_stringLiteral s []
  rw [hsame, readLiteral?_stringLiteral s' []] at hread
  exact eq_of_toUTF8_toList (Prod.mk.inj (Option.some.inj hread)).1.symm

end ProtoScript.C
