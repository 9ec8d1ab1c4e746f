import ProtoScript.Proofs.Ty.RoundTrip

set_option autoImplicit false

/-!
# The grammar of written types

`Ty.parse` reads the texts that consist of the tokens of a well-formed type, and no others
(`Ty.parse_grammar`). One half is that the tokens of a type are read as the type; the other half is
an invariant of the reader: what it has read and what is left are the tokens of the type that it will return
(`tokens_of_run`).
-/

namespace ProtoScript.Ty

/-! ## Well-formed types -/

/-- The name of a prototype, as the grammar has it. -/
structure IsPrototypeName (name : String) : Prop where
  nonempty : name ≠ ""
  letters : ∀ c ∈ name.toList, isNameChar c
  noDigit : ∀ c ∈ name.toList.head?, c.isDigit = false
  notPrimitive : ∀ p : Primitive, name ≠ p.name
  notContainer : ∀ k : Container, name ≠ k.name

/-- Every prototype's name in the type is one of the grammar. -/
def WellFormed : Ty → Prop
  | prim _ => True
  | named n => IsPrototypeName n
  | list t | view t | slice t => t.WellFormed
  | map k v => k.WellFormed ∧ v.WellFormed

/-- No letter, digit or underscore is a blank: the ranges of the two tables are apart. -/
theorem isBlank_of_isNameChar {c : Char} (h : isNameChar c) : isBlank c = false := by
  have hapart : ∀ r ∈ blankRanges, ∀ s ∈ letterRanges, r.2 < s.1 ∨ s.2 < r.1 := by decide +kernel
  rw [Bool.eq_false_iff]
  intro hblank
  obtain ⟨r, hr, hlow, hhigh⟩ := (CharRanges.holds_iff _ _).1 hblank
  by_cases hascii : c.toNat < 128
  · have hcode := (isBlank_iff_of_ascii c hascii).1 hblank
    have hcodes : ∀ n < 128, (9 ≤ n ∧ n ≤ 13) ∨ n = 32 → isNameChar (Char.ofNat n) = false := by
      decide +kernel
    have hname := hcodes c.toNat hascii hcode
    rw [Char.ofNat_toNat, h] at hname
    cases hname
  · -- Beyond ASCII both classes are given by ranges.
    have hletter : letterRanges.holds c := by
      have hcases := Bool.or_eq_true_iff.1 h
      rw [isLetterOrDigit, if_neg hascii] at hcases
      refine hcases.resolve_right fun hline => hascii ?_
      rw [beq_iff_eq.1 hline]
      decide
    obtain ⟨s, hs, hfrom, hto⟩ := (CharRanges.holds_iff _ _).1 hletter
    rcases hapart r hr s hs with h | h <;> omega

theorem container_ofName?_eq_some {name : String} {k : Container} (h : Container.ofName? name = some k) :
    name = k.name := by
  have hfind := List.find?_some h
  exact (beq_iff_eq.1 hfind).symm

theorem primitive_ofName?_eq_some {name : String} {p : Primitive} (h : Primitive.ofName? name = some p) :
    name = p.name := by
  have hfind := List.find?_some h
  exact (beq_iff_eq.1 hfind).symm

theorem ofName_eq_named_iff {name : String} :
    ofName name = .inr (.named name) ↔
      (∀ p : Primitive, name ≠ p.name) ∧ ∀ k : Container, name ≠ k.name := by
  constructor
  · intro h
    constructor
    · rintro p rfl
      revert h
      cases p <;> decide
    · rintro k rfl
      revert h
      cases k <;> decide
  · rintro ⟨hprim, hcont⟩
    unfold ofName
    split
    · next k hk => exact absurd (container_ofName?_eq_some hk) (hcont k)
    split
    · next p hp => exact absurd (primitive_ofName?_eq_some hp) (hprim p)
    · rfl

theorem isPrototypeName_iff {name : String} : IsPrototypeName name ↔ IsName name := by
  constructor
  · intro h
    refine ⟨?_, fun c hc => ⟨isBlank_of_isNameChar (h.letters c hc), h.letters c hc⟩, ?_,
      ofName_eq_named_iff.2 ⟨h.notPrimitive, h.notContainer⟩⟩
    · exact fun hnil => h.nonempty (String.toList_eq_nil_iff.1 hnil)
    · cases hhead : name.toList.head? with
      | none => rfl
      | some c => exact h.noDigit c hhead
  · intro h
    obtain ⟨hprim, hcont⟩ := ofName_eq_named_iff.1 h.free
    refine ⟨?_, fun c hc => (h.letters c hc).2, fun c hc => ?_, hprim, hcont⟩
    · exact fun hempty => h.nonempty (String.toList_eq_nil_iff.2 hempty)
    · have hdigit := h.noDigit
      rwa [Option.mem_def.1 hc] at hdigit

theorem wellFormed_iff_spelled (t : Ty) : t.WellFormed ↔ t.Spelled := by
  induction t with
  | prim p => exact Iff.rfl
  | named n => exact isPrototypeName_iff
  | list t ih | view t ih | slice t ih => exact ih
  | map k v ihk ihv => exact and_congr ihk ihv

/-! ## What has been read -/

/-- The tokens an open container has come from. -/
def Frame.tokens (f : Frame) : List Token :=
  opening f.kind ++ f.done.reverse.flatMap fun t => t.tokens ++ [.mark ',']

/-- The tokens the open containers have come from, the outermost first. -/
def openTokens (stack : List Frame) : List Token := stack.reverse.flatMap Frame.tokens

/-- The tokens read since the containers were opened. -/
def Expect.tokens : Expect → List Token
  | .type => []
  | .bracket k => [.name k.name.toList]
  | .after t => t.tokens

theorem tokens_ofContainer? {k : Container} {done : List Ty} {t u : Ty}
    (h : ofContainer? k (t :: done).reverse = some u) :
    u.tokens = Frame.tokens ⟨k, done⟩ ++ t.tokens ++ [.mark '>'] := by
  rw [List.reverse_cons] at h
  generalize hdone : done.reverse = before at h
  unfold Frame.tokens
  simp only [hdone]
  unfold ofContainer? at h
  split at h
  case h_2 =>
    rcases before with _ | ⟨key, _ | ⟨a, before⟩⟩ <;> injection ‹_ = [_, _]› with hkey hvalue
    · cases hvalue
    · cases hkey
      cases hvalue
      cases h
      simp [tokens]
    · injection hvalue with _ hvalue
      simp at hvalue
  case h_5 => cases h
  all_goals
    rcases before with _ | ⟨a, before⟩
    · cases ‹_ = [_]›
      cases h
      simp [tokens]
    · simp at ‹_ = [_]›

theorem tokens_ofName {cs : List Char} {t : Ty} (h : ofName (String.ofList cs) = .inr t) :
    t.tokens = [.name cs] := by
  unfold ofName at h
  split at h
  · cases h
  split at h
  · next p hp =>
    cases h
    rw [tokens, ← primitive_ofName?_eq_some hp, String.toList_ofList]
  · cases h
    rw [tokens, String.toList_ofList]

theorem name_of_ofName {cs : List Char} {k : Container} (h : ofName (String.ofList cs) = .inl k) :
    k.name.toList = cs := by
  unfold ofName at h
  split at h
  · next hk =>
    cases h
    rw [← container_ofName?_eq_some hk, String.toList_ofList]
  · split at h <;> cases h

/-- The reader loses nothing: what it has read and what is left are the tokens of the type that it returns. The
induction follows the reader, which moves one token at a time. -/
theorem tokens_of_run {length : Nat} {placed : List Placed} {stack : List Frame} {expect : Expect} {t : Ty}
    (h : run length stack expect placed = .ok t) :
    openTokens stack ++ expect.tokens ++ placed.map (·.token) = t.tokens := by
  fun_induction run length stack expect placed with
  | case1 u =>
      cases h
      simp [openTokens, Expect.tokens]
  | case6 stack pos cs rest hdigit k hk ih =>
      rw [← ih h]
      simp [Expect.tokens, name_of_ofName hk]
  | case7 stack pos cs rest hdigit u hu ih =>
      rw [← ih h]
      simp [Expect.tokens, tokens_ofName hu]
  | case9 stack k pos rest ih =>
      rw [← ih h]
      simp [openTokens, Expect.tokens, Frame.tokens, opening]
  | case12 frame stack u pos rest ih =>
      rw [← ih h]
      simp [openTokens, Expect.tokens, Frame.tokens]
  | case13 frame stack u pos rest v hv hclose ih =>
      rw [← ih h]
      simp [openTokens, Expect.tokens, tokens_ofContainer? hv]
  | _ => cases h

/-! ## The grammar -/

/-- A text is read as a type exactly if the type is well formed and the text consists of its tokens. -/
theorem parse_eq_ok_iff {text : String} {t : Ty} :
    parse text = .ok t ↔ t.WellFormed ∧ Spaced t.tokens text.toList := by
  constructor
  · intro h
    have htokens : (lex 0 text.toList).map (·.token) = t.tokens := tokens_of_run h
    refine ⟨(wellFormed_iff_spelled t).2 (spelled_of_parse h), ?_⟩
    rw [← htokens]
    exact spaced_lex text.toList 0
  · rintro ⟨hwf, htext⟩
    exact parse_of_spaced ((wellFormed_iff_spelled t).1 hwf) htext

/-- **The grammar of written types**: what is read as a type are the texts that consist of the tokens of a
well-formed type, with blanks around them. Without blanks they are the canonical text, which no two well-formed
types share. -/
theorem parse_grammar :
    (∀ (text : String) (t : Ty), parse text = .ok t ↔ t.WellFormed ∧ Spaced t.tokens text.toList) ∧
      (∀ t : Ty, t.tokens.flatMap Token.text = t.render.toList) ∧
      (∀ t : Ty, t.WellFormed → parse t.render = .ok t) ∧
      ∀ t u : Ty, t.WellFormed → u.WellFormed → t.render = u.render → t = u := by
  have hback (t : Ty) (ht : t.WellFormed) : parse t.render = .ok t :=
    parse_render_of_spelled ((wellFormed_iff_spelled t).1 ht)
  refine ⟨fun _ _ => parse_eq_ok_iff, flatMap_text_tokens, hback, fun t u ht hu htext => ?_⟩
  have hsame := hback t ht
  rw [htext, hback u hu] at hsame
  exact (Except.ok.inj hsame).symm

/-- A list of points, written with blanks, is read, and its canonical text is read again. -/
theorem parse_points :
    (list (named "Point")).WellFormed ∧ parse " list<Point >" = .ok (list (named "Point")) ∧
      parse "list<Point>" = .ok (list (named "Point")) := by
  have hwf : (list (named "Point")).WellFormed :=
    { nonempty := by decide
      letters := List.all_eq_true.1 (by decide)
      noDigit := by rintro _ ⟨⟩; rfl
      notPrimitive := by intro p; cases p <;> decide
      notContainer := by intro k; cases k <;> decide }
  have htext : Spaced (list (named "Point")).tokens " list<Point >".toList :=
    .blank rfl (.token (.token (.token (.blank rfl (.token .done)))))
  exact ⟨hwf, (parse_grammar.1 _ _).2 ⟨hwf, htext⟩, parse_grammar.2.2.1 _ hwf⟩

end ProtoScript.Ty
