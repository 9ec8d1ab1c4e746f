import ProtoScript.Ty.Basic
import ProtoScript.Ty.Parser

set_option autoImplicit false

/-!
# A type that was read is read back

The names in a type that `Ty.parse` returns are names of the grammar and no words of their own
(`Ty.Spelled`): the lexer makes a name of nothing else, and the reader keeps what it has read. The
tokens of such a type are read as the type, with whatever follows them left over, so its canonical text is
read back.
-/

namespace ProtoScript.Ty

/-!
## Tokens of written types

A type has a list of tokens, which are its text without blanks (`Ty.flatMap_text_tokens`). Cutting a text into
tokens and putting the tokens together again with blanks around them undo each other: every text consists
of the tokens it is cut into (`spaced_lex`), and a text made of tokens is cut into these
(`lex_of_spaced`), if no two names stand side by side in them.
-/

/-! ### Texts made of tokens -/

/-- The characters of a token. -/
def Token.text : Token → List Char
  | .name cs => cs
  | .mark c => [c]

def Token.isName : Token → Bool
  | .name _ => true
  | .mark _ => false

/-- The text consists of the tokens in their order, with any blanks before, between and behind them. -/
inductive Spaced : List Token → List Char → Prop where
  | done : Spaced [] []
  | blank {c : Char} {tokens : List Token} {text : List Char} (hc : isBlank c) (rest : Spaced tokens text) :
      Spaced tokens (c :: text)
  | token {k : Token} {tokens : List Token} {text : List Char} (rest : Spaced tokens text) :
      Spaced (k :: tokens) (k.text ++ text)

/-- Tokens without blanks. -/
theorem spaced_flatMap (tokens : List Token) : Spaced tokens (tokens.flatMap Token.text) := by
  induction tokens with
  | nil => exact .done
  | cons k tokens ih => exact .token ih

/-- The tokens that open a container. -/
def opening (k : Container) : List Token := [.name k.name.toList, .mark '<']

/-- The tokens of a type's text. -/
def tokens : Ty → List Token
  | prim p => [.name p.name.toList]
  | named n => [.name n.toList]
  | list t => opening .list ++ t.tokens ++ [.mark '>']
  | map k v => opening .map ++ k.tokens ++ .mark ',' :: v.tokens ++ [.mark '>']
  | view t => opening .view ++ t.tokens ++ [.mark '>']
  | slice t => opening .slice ++ t.tokens ++ [.mark '>']

/-- The canonical text is that of the tokens, without blanks. -/
theorem flatMap_text_tokens (t : Ty) : t.tokens.flatMap Token.text = t.render.toList := by
  induction t with
  | prim p => simp [tokens, Token.text, render]
  | named n => simp [tokens, Token.text, render]
  | list t ih | view t ih | slice t ih =>
      simp [tokens, opening, Token.text, render, Container.name, ih]
  | map k v ihk ihv => simp [tokens, opening, Token.text, render, Container.name, ihk, ihv]

/-! ### Every text consists of its tokens -/

/-- A text from an offset on, cut into tokens each with its own offset. -/
inductive Laid : Nat → List Placed → List Char → Prop where
  | done {pos : Nat} : Laid pos [] []
  | blank {pos : Nat} {c : Char} {placed : List Placed} {text : List Char} (hc : isBlank c)
      (rest : Laid (pos + 1) placed text) : Laid pos placed (c :: text)
  | token {pos : Nat} {k : Token} {placed : List Placed} {text : List Char}
      (rest : Laid (pos + k.text.length) placed text) : Laid pos (⟨pos, k⟩ :: placed) (k.text ++ text)

theorem Laid.le_offset {pos : Nat} {p : Placed} {placed : List Placed} {text : List Char}
    (h : Laid pos (p :: placed) text) : pos ≤ p.offset := by
  generalize hall : p :: placed = all at h
  induction h with
  | done => cases hall
  | blank _ _ ih =>
      have := ih hall
      omega
  | token _ =>
      cases hall
      exact Nat.le_refl _

/-- A token at the very start of the text. -/
theorem Laid.start {pos : Nat} {k : Token} {placed : List Placed} {text : List Char}
    (h : Laid pos (⟨pos, k⟩ :: placed) text) :
    ∃ rest, text = k.text ++ rest ∧ Laid (pos + k.text.length) placed rest := by
  cases h with
  | blank _ rest =>
      have hle : pos + 1 ≤ pos := rest.le_offset
      omega
  | token rest => exact ⟨_, rfl, rest⟩

theorem laid_attach {pos : Nat} {c : Char} {placed : List Placed} {text : List Char}
    (h : Laid (pos + 1) placed text) : Laid pos (attach pos c placed) (c :: text) := by
  have hnew : Laid pos (⟨pos, .name [c]⟩ :: placed) (c :: text) := .token (k := .name [c]) h
  unfold attach
  split
  · next p cs rest =>
    split
    · next hp =>
      subst hp
      obtain ⟨text, rfl, hrest⟩ := h.start
      refine .token (k := .name (c :: cs)) ?_
      rwa [Token.text, List.length_cons, Nat.add_comm cs.length 1, ← Nat.add_assoc]
    · exact hnew
  · exact hnew

theorem laid_lex (text : List Char) (pos : Nat) : Laid pos (lex pos text) text := by
  induction text generalizing pos with
  | nil => exact .done
  | cons c text ih =>
      unfold lex
      split
      · next hblank => exact .blank hblank (ih (pos + 1))
      split
      · exact laid_attach (ih (pos + 1))
      · exact .token (k := .mark c) (ih (pos + 1))

/-- Every text consists of its tokens. -/
theorem spaced_lex (text : List Char) (pos : Nat) : Spaced ((lex pos text).map (·.token)) text := by
  have hlaid := laid_lex text pos
  generalize lex pos text = placed at hlaid
  induction hlaid with
  | done => exact .done
  | blank hc _ ih => exact .blank hc ih
  | token _ ih => exact .token ih

/-! ### A text made of tokens is cut into them -/

/-- The token is a name of the grammar or one of its marks. -/
def Token.Legal : Token → Prop
  | .name cs => cs ≠ [] ∧ ∀ c ∈ cs, isBlank c = false ∧ isNameChar c = true
  | .mark c => c ∈ ['<', ',', '>']

theorem lex_mark {c : Char} (h : c ∈ ['<', ',', '>']) (pos : Nat) (rest : List Char) :
    lex pos (c :: rest) = ⟨pos, .mark c⟩ :: lex (pos + 1) rest := by
  obtain ⟨hblank, hname⟩ : isBlank c = false ∧ isNameChar c = false := by
    simp only [List.mem_cons, List.not_mem_nil, or_false] at h
    rcases h with rfl | rfl | rfl <;> decide +kernel
  simp [lex, hblank, hname]

/-- A name character in front of anything but a name. -/
theorem attach_of_not_isName (pos : Nat) (c : Char) {placed : List Placed}
    (h : ∀ p ∈ placed.head?, p.token.isName = false) :
    attach pos c placed = ⟨pos, .name [c]⟩ :: placed := by
  unfold attach
  split
  · next p cs rest => cases h ⟨p, .name cs⟩ rfl
  · rfl

/-- A name is one token. -/
theorem lex_name {cs : List Char} (hne : cs ≠ [])
    (hletters : ∀ c ∈ cs, isBlank c = false ∧ isNameChar c = true) (pos : Nat) {rest : List Char}
    (hrest : ∀ p ∈ (lex (pos + cs.length) rest).head?, p.token.isName = false) :
    lex pos (cs ++ rest) = ⟨pos, .name cs⟩ :: lex (pos + cs.length) rest := by
  induction cs generalizing pos with
  | nil => exact absurd rfl hne
  | cons c cs ih =>
      obtain ⟨hblank, hname⟩ := hletters c (by simp)
      rw [List.length_cons, Nat.add_comm cs.length 1, ← Nat.add_assoc] at hrest ⊢
      rw [List.cons_append, lex, if_neg (by simp [hblank]), if_pos hname]
      by_cases hlast : cs = []
      · subst hlast
        exact attach_of_not_isName pos c hrest
      · rw [ih hlast (fun d hd => hletters d (by simp [hd])) (pos + 1) hrest]
        simp [attach]

/-- No two names stand side by side. -/
def Apart : List Token → Prop
  | [] => True
  | k :: rest => (k.isName → ∀ j ∈ rest.head?, j.isName = false) ∧ Apart rest

/-- A text is cut into the tokens of which it consists. The induction is on the way it consists of them: what
follows a name begins with no name, so that the name ends where it should. -/
theorem lex_of_spaced {tokens : List Token} {text : List Char} (h : Spaced tokens text)
    (hlegal : ∀ k ∈ tokens, k.Legal) (hapart : Apart tokens) (pos : Nat) :
    (lex pos text).map (·.token) = tokens := by
  induction h generalizing pos with
  | done => rfl
  | blank hc _ ih =>
      rw [lex, if_pos hc]
      exact ih hlegal hapart (pos + 1)
  | @token k tokens text _ ih =>
      have hrest := ih (fun j hj => hlegal j (by simp [hj])) hapart.2
      have hk := hlegal k (by simp)
      cases k with
      | mark c =>
          rw [Token.text, List.singleton_append, lex_mark hk, List.map_cons, hrest]
      | name cs =>
          rw [Token.text, lex_name hk.1 hk.2, List.map_cons, hrest]
          intro p hp
          refine hapart.1 rfl p.token ?_
          rw [← hrest (pos + cs.length), List.head?_map, Option.mem_def.1 hp]
          rfl

/-! ## Names -/

/-- The text is a name of the grammar that is neither a primitive type nor a container. -/
structure IsName (name : String) : Prop where
  nonempty : name.toList ≠ []
  letters : ∀ c ∈ name.toList, isBlank c = false ∧ isNameChar c = true
  noDigit : name.toList.head?.any Char.isDigit = false
  free : ofName name = .inr (.named name)

/-- Every prototype's name in the type is a name of the grammar. -/
def Spelled : Ty → Prop
  | prim _ => True
  | named n => IsName n
  | list t | view t | slice t => t.Spelled
  | map k v => k.Spelled ∧ v.Spelled

theorem ofName_inr {name : String} {t : Ty} (h : ofName name = .inr t) :
    (∃ p, t = .prim p) ∨ t = .named name := by
  unfold ofName at h
  split at h
  · cases h
  · split at h
    · exact .inl ⟨_, (Sum.inr.inj h).symm⟩
    · exact .inr (Sum.inr.inj h).symm

/-! ## What is read is spelled -/

/-- A name token holds the characters of a name. -/
def Token.Sound : Token → Prop
  | .name cs => cs ≠ [] ∧ ∀ c ∈ cs, isBlank c = false ∧ isNameChar c = true
  | .mark _ => True

theorem sound_attach {pos : Nat} {c : Char} {tokens : List Placed} (hblank : isBlank c = false)
    (hname : isNameChar c = true) (h : ∀ p ∈ tokens, p.token.Sound) :
    ∀ p ∈ attach pos c tokens, p.token.Sound := by
  have hc : Token.Sound (.name [c]) := by simp [Token.Sound, hblank, hname]
  unfold attach
  split
  · next q cs rest =>
    have hcs : Token.Sound (.name cs) := h ⟨q, .name cs⟩ (by simp)
    have hrest : ∀ p ∈ rest, p.token.Sound := fun p hp => h p (by simp [hp])
    split
    · have hlonger : Token.Sound (.name (c :: cs)) := by
        simpa [Token.Sound, hblank, hname] using hcs.2
      simpa using ⟨hlonger, hrest⟩
    · simpa using ⟨hc, hcs, hrest⟩
  · simpa using ⟨hc, h⟩

theorem sound_lex (cs : List Char) (pos : Nat) : ∀ p ∈ lex pos cs, p.token.Sound := by
  induction cs generalizing pos with
  | nil => simp [lex]
  | cons c cs ih =>
      unfold lex
      split
      · exact ih (pos + 1)
      next hblank =>
      split
      · next hname => exact sound_attach (by simpa using hblank) hname (ih (pos + 1))
      · simpa [Token.Sound] using ih (pos + 1)

theorem spelled_ofContainer {k : Container} {args : List Ty} {t : Ty}
    (h : ofContainer? k args = some t) (hargs : ∀ u ∈ args, u.Spelled) : t.Spelled := by
  unfold ofContainer? at h
  split at h
  all_goals first | cases h; done | (cases h; simpa [Spelled] using hargs)

/-- What the reader holds is spelled. -/
def Expect.Spelled : Expect → Prop
  | .after t => t.Spelled
  | _ => True

/-- A name that is read is spelled. -/
theorem spelled_ofName {cs : List Char} {t : Ty} (hsound : Token.Sound (.name cs))
    (hdigit : ¬ cs.head?.any Char.isDigit = true) (h : ofName (String.ofList cs) = .inr t) :
    t.Spelled := by
  rcases ofName_inr h with ⟨p, rfl⟩ | rfl
  · trivial
  · exact { nonempty := by simpa using hsound.1
            letters := by simpa using hsound.2
            noDigit := by simpa using hdigit
            free := h }

/-- Whatever the reader holds is spelled, and so is what it returns. -/
theorem spelled_run {length : Nat} {tokens : List Placed} {stack : List Frame} {expect : Expect}
    {t : Ty} (h : run length stack expect tokens = .ok t) (htokens : ∀ p ∈ tokens, p.token.Sound)
    (hstack : ∀ f ∈ stack, ∀ u ∈ f.done, u.Spelled) (hexpect : expect.Spelled) : t.Spelled := by
  fun_induction run length stack expect tokens with
  | case1 u =>
      cases h
      exact hexpect
  | case6 stack pos cs rest hdigit k hk ih =>
      exact ih h (fun p hp => htokens p (by simp [hp])) hstack trivial
  | case7 stack pos cs rest hdigit u hu ih =>
      exact ih h (fun p hp => htokens p (by simp [hp])) hstack
        (spelled_ofName (htokens ⟨pos, .name cs⟩ (by simp)) hdigit hu)
  | case9 stack k pos rest ih =>
      exact ih h (fun p hp => htokens p (by simp [hp])) (by simpa using hstack) trivial
  | case12 frame stack u pos rest ih =>
      refine ih h (fun p hp => htokens p (by simp [hp])) ?_ trivial
      have hdone : u.Spelled ∧ ∀ v ∈ frame.done, v.Spelled := ⟨hexpect, hstack frame (by simp)⟩
      simpa using ⟨hdone, fun f hf => hstack f (by simp [hf])⟩
  | case13 frame stack u pos rest v hv hclose ih =>
      refine ih h (fun p hp => htokens p (by simp [hp])) (fun f hf => hstack f (by simp [hf])) ?_
      refine spelled_ofContainer hv fun w hw => ?_
      rcases List.mem_cons.1 (List.mem_reverse.1 hw) with rfl | hw
      · exact hexpect
      · exact hstack frame (by simp) w hw
  | _ => cases h

theorem spelled_of_parse {text : String} {t : Ty} (h : parse text = .ok t) : t.Spelled :=
  spelled_run h (sound_lex _ _) (by simp) trivial

/-! ## What is spelled is read -/

theorem letters_of_all {cs : List Char} (h : cs.all (fun c => !isBlank c && isNameChar c) = true) :
    ∀ c ∈ cs, isBlank c = false ∧ isNameChar c = true := by
  simpa using h

theorem legal_mark {c : Char} (h : c ∈ ['<', ',', '>']) : ∀ j ∈ [Token.mark c], j.Legal :=
  List.forall_mem_singleton.2 h

theorem legal_opening (k : Container) : ∀ j ∈ opening k, j.Legal := by
  have hname : Token.Legal (.name k.name.toList) :=
    ⟨by cases k <;> decide, letters_of_all (by cases k <;> decide)⟩
  exact List.forall_mem_cons.2 ⟨hname, legal_mark (by simp)⟩

/-- The tokens of a spelled type are names and marks of the grammar. -/
theorem legal_tokens {t : Ty} (h : t.Spelled) : ∀ j ∈ t.tokens, j.Legal := by
  induction t with
  | prim p =>
      have hp : Token.Legal (.name p.name.toList) :=
        ⟨by cases p <;> decide, letters_of_all (by cases p <;> decide)⟩
      exact List.forall_mem_singleton.2 hp
  | named n => exact List.forall_mem_singleton.2 (show Token.Legal (.name _) from ⟨h.nonempty, h.letters⟩)
  | list t ih | view t ih | slice t ih =>
      simp only [tokens, List.forall_mem_append]
      exact ⟨⟨legal_opening _, ih h⟩, legal_mark (by simp)⟩
  | map k v ihk ihv =>
      simp only [tokens, List.forall_mem_append]
      refine ⟨⟨⟨legal_opening _, ihk h.1⟩, ?_⟩, legal_mark (by simp)⟩
      exact List.forall_mem_append.2 ⟨legal_mark (by simp), ihv h.2⟩

/-- Names do not meet in the tokens of a type, and none meets a mark behind them. -/
theorem apart_tokens (t : Ty) {rest : List Token} (h : Apart rest)
    (hrest : ∀ j ∈ rest.head?, j.isName = false) : Apart (t.tokens ++ rest) := by
  have hclose {rest : List Token} (h : Apart rest) : Apart (.mark '>' :: rest) := ⟨by simp [Token.isName], h⟩
  have hopen (k : Container) {rest : List Token} (h : Apart rest) : Apart (opening k ++ rest) :=
    ⟨by simp [Token.isName], by simp [Token.isName], h⟩
  induction t generalizing rest with
  | prim p => exact ⟨fun _ => hrest, h⟩
  | named n => exact ⟨fun _ => hrest, h⟩
  | list t ih | view t ih | slice t ih =>
      simp only [tokens, List.append_assoc]
      exact hopen _ (ih (hclose h) (by simp [Token.isName]))
  | map k v ihk ihv =>
      simp only [tokens, List.append_assoc, List.cons_append]
      exact hopen _ (ihk ⟨by simp [Token.isName], ihv (hclose h) (by simp [Token.isName])⟩ (by simp [Token.isName]))

/-- The name of a finished type is read as the type. -/
theorem run_name {cs : List Char} {t : Ty} (hdigit : cs.head?.any Char.isDigit = false)
    (h : ofName (String.ofList cs) = .inr t) (length pos : Nat) (stack : List Frame) (rest : List Placed) :
    run length stack .type (⟨pos, .name cs⟩ :: rest) = run length stack (.after t) rest := by
  rw [run, if_neg (by simp [hdigit]), h]

/-- The tokens that open a container open it. -/
theorem run_open {k : Container} {opened : List Placed} (hopen : opened.map (·.token) = opening k)
    (length : Nat) (stack : List Frame) (rest : List Placed) :
    run length stack .type (opened ++ rest) = run length (⟨k, []⟩ :: stack) .type rest := by
  obtain ⟨⟨p, a⟩, bracket, rfl, rfl, hbracket⟩ := List.map_eq_cons_iff.1 hopen
  obtain ⟨⟨q, b⟩, rfl, rfl⟩ := List.map_eq_singleton_iff.1 hbracket
  have hword : k.name.toList.head?.any Char.isDigit = false ∧ ofName k.name = .inl k := by
    cases k <;> decide
  rw [List.cons_append, run, if_neg (by simp [hword.1]), String.ofList_toList, hword.2]
  simp only [List.cons_append, List.nil_append, run, if_pos]

/-- The mark that closes a container. -/
theorem run_close {k : Container} {t u : Ty} {done : List Ty}
    (h : ofContainer? k (t :: done).reverse = some u) {close : List Placed}
    (hclose : close.map (·.token) = [.mark '>']) (length : Nat) (stack : List Frame) (rest : List Placed) :
    run length (⟨k, done⟩ :: stack) (.after t) (close ++ rest) = run length stack (.after u) rest := by
  obtain ⟨⟨p, a⟩, rfl, rfl⟩ := List.map_eq_singleton_iff.1 hclose
  rw [List.singleton_append, run, if_neg (by simp), if_pos rfl, h]

/-- A container over one type is read if the type is. -/
theorem run_single {k : Container} {t u : Ty} (hk : ofContainer? k [t] = some u) {length : Nat}
    (ih : ∀ (stack : List Frame) {placed : List Placed}, placed.map (·.token) = t.tokens →
      ∀ rest, run length stack .type (placed ++ rest) = run length stack (.after t) rest)
    (stack : List Frame) {placed : List Placed}
    (hplaced : placed.map (·.token) = opening k ++ t.tokens ++ [.mark '>']) (rest : List Placed) :
    run length stack .type (placed ++ rest) = run length stack (.after u) rest := by
  obtain ⟨front, close, rfl, hfront, hclose⟩ := List.map_eq_append_iff.1 hplaced
  obtain ⟨opened, elem, rfl, hopen, helem⟩ := List.map_eq_append_iff.1 hfront
  rw [List.append_assoc, List.append_assoc, run_open hopen, ih _ helem, run_close hk hclose]

/-- The tokens of a spelled type are read as the type, with whatever follows them left over. -/
theorem run_tokens {t : Ty} (h : t.Spelled) (length : Nat) (stack : List Frame) {placed : List Placed}
    (hplaced : placed.map (·.token) = t.tokens) (rest : List Placed) :
    run length stack .type (placed ++ rest) = run length stack (.after t) rest := by
  induction t generalizing stack placed rest with
  | prim p =>
      obtain ⟨⟨pos, a⟩, rfl, rfl⟩ := List.map_eq_singleton_iff.1 hplaced
      have hword : p.name.toList.head?.any Char.isDigit = false ∧ ofName p.name = .inr (.prim p) := by
        cases p <;> decide
      exact run_name hword.1 (by rw [String.ofList_toList, hword.2]) length pos stack rest
  | named n =>
      obtain ⟨⟨pos, a⟩, rfl, rfl⟩ := List.map_eq_singleton_iff.1 hplaced
      exact run_name h.noDigit (by rw [String.ofList_toList, h.free]) length pos stack rest
  | list t ih => exact run_single (k := .list) rfl (ih h) stack hplaced rest
  | view t ih => exact run_single (k := .view) rfl (ih h) stack hplaced rest
  | slice t ih => exact run_single (k := .slice) rfl (ih h) stack hplaced rest
  | map k v ihk ihv =>
      obtain ⟨front, close, rfl, hfront, hclose⟩ := List.map_eq_append_iff.1 hplaced
      obtain ⟨front, value, rfl, hfront, hvalue⟩ := List.map_eq_append_iff.1 hfront
      obtain ⟨opened, key, rfl, hopen, hkey⟩ := List.map_eq_append_iff.1 hfront
      obtain ⟨⟨pos, comma⟩, elem, rfl, rfl, helem⟩ := List.map_eq_cons_iff.1 hvalue
      rw [List.append_assoc, List.append_assoc, List.append_assoc, run_open hopen, ihk h.1 _ hkey,
        List.cons_append, run, if_pos rfl, ihv h.2 _ helem, run_close rfl hclose]

/-- A text that consists of the tokens of a spelled type is read as the type. -/
theorem parse_of_spaced {text : String} {t : Ty} (h : t.Spelled) (htext : Spaced t.tokens text.toList) :
    parse text = .ok t := by
  have hapart : Apart t.tokens := by
    simpa using @apart_tokens t [] trivial (by simp)
  have hlex := lex_of_spaced htext (legal_tokens h) hapart 0
  have hrun := run_tokens h text.length [] hlex []
  rwa [List.append_nil] at hrun

theorem parse_render_of_spelled {t : Ty} (h : t.Spelled) : parse t.render = .ok t := by
  refine parse_of_spaced h ?_
  rw [← flatMap_text_tokens]
  exact spaced_flatMap t.tokens

/-- **A type that was read is read back** from its canonical text. -/
theorem parse_render {text : String} {t : Ty} (h : parse text = .ok t) : parse t.render = .ok t :=
  parse_render_of_spelled (spelled_of_parse h)

end ProtoScript.Ty
