import ProtoScript.Json.Reader
import ProtoScript.Proofs.Json.Number
import ProtoScript.Proofs.Json.Record
import ProtoScript.Proofs.Number.Finite

set_option autoImplicit false

/-!
# The floats of a text are finite

A number beyond the range of floats has no value, so a value that is read has finite floats only. The
lexer makes finite scalars, every step of the reader keeps them, and a draft adds nothing to them.
-/

namespace ProtoScript.Json

/-! ## Numbers -/

theorem isFinite_zero : (0.0 : Float).isFinite = true := by
  decide +kernel

/-- Scaling by a power of ten gives a finite float or nothing. -/
theorem isFinite_scale? {fuel : Nat} {x y : Float} {e : Int} (hx : x.isFinite = true)
    (h : scale? fuel x e = some y) : y.isFinite = true := by
  fun_induction scale? fuel x e with
  | case1 => cases h
  | case2 fuel x e hpos hle product hinf =>
      rw [← Option.some.inj h]
      exact isFinite_mul hx (isFinite_ofScientific (by omega)) (by simpa using hinf)
  | case3 =>
      cases h
      exact hx
  | case4 => cases h
  | case5 fuel x e hneg hge =>
      cases h
      exact isFinite_div_ofScientific hx (by omega) (by omega)
  | case6 =>
      cases h
      exact hx
  | case7 =>
      cases h
      exact isFinite_zero
  | case8 e hneg hlow fuel x hzero ih =>
      exact ih (isFinite_div_ofScientific hx (by decide) (by decide)) h

theorem isFinite_of_isScaled {x : Float} (h : IsScaled (.inr x)) : x.isFinite = true := by
  obtain ⟨y, significand, shift, negative, digits, hy, hx⟩ := h
  cases hx
  unfold floatOf? at hy
  dsimp only at hy
  split at hy
  · split at hy <;> cases hy
    exact isFinite_zero
  · exact isFinite_scale? (isFinite_ofUInt64 _) hy

theorem isFinite_of_number? {cs : List Char} {j : Json} (h : number? cs = some j) (depth : Nat) :
    Within IsFinite depth j := by
  obtain ⟨-, ⟨n, rfl⟩ | ⟨n, rfl⟩ | ⟨x, hx, rfl | rfl⟩⟩ := number?_cases h
  · cases depth <;> trivial
  · cases depth <;> exact isFinite_neg (isFinite_ofUInt64 _)
  · cases depth <;> exact isFinite_of_isScaled hx
  · cases depth <;> exact isFinite_neg (isFinite_of_isScaled hx)

/-! ## Tokens -/

/-- The value of a token is finite if it is a float. -/
def Token.Finite : Token → Prop
  | .scalar v => ∀ j ∈ v, ∀ depth, Within IsFinite depth j
  | _ => True

theorem finite_of_word? {cs : List Char} {t : Token} (h : word? cs = some t) : t.Finite := by
  unfold word? at h
  split at h
  · cases h
    simp [Token.Finite, Within, IsFinite]
  split at h
  · cases h
    simp [Token.Finite, Within, IsFinite]
  split at h
  · cases h
    simp [Token.Finite, Within, IsFinite]
  split at h
  · cases h
    exact fun j hj => isFinite_of_number? hj
  · cases h

section Lexer

variable {state next : LexState} {tokens more : List Token} {c : Char}

theorem finite_stepBetween? (h : stepBetween? tokens c = some (next, more))
    (htokens : ∀ t ∈ tokens, t.Finite) : ∀ t ∈ more, t.Finite := by
  unfold stepBetween? at h
  repeat' split at h
  all_goals cases h
  case isFalse.isTrue => simpa [Token.Finite] using htokens
  all_goals exact htokens

theorem finite_stepString? {done : Done} (h : stepString? done tokens c = some (next, more))
    (htokens : ∀ t ∈ tokens, t.Finite) : ∀ t ∈ more, t.Finite := by
  unfold stepString? at h
  repeat' split at h
  all_goals cases h
  case isTrue => simpa [Token.Finite] using htokens
  all_goals exact htokens

theorem finite_stepEscape? {done : Done} (h : stepEscape? done tokens c = some (next, more))
    (htokens : ∀ t ∈ tokens, t.Finite) : ∀ t ∈ more, t.Finite := by
  unfold stepEscape? at h
  split at h
  · cases h
    exact htokens
  · obtain ⟨d, -, hd⟩ := Option.map_eq_some_iff.1 h
    cases hd
    exact htokens

/-- Every step of the lexer keeps the tokens finite. -/
theorem finite_step? (h : step? state tokens c = some (next, more))
    (htokens : ∀ t ∈ tokens, t.Finite) : ∀ t ∈ more, t.Finite := by
  unfold step? at h
  split at h
  case h_1 => exact finite_stepBetween? h htokens
  case h_2 =>
    split at h
    · cases h
      exact htokens
    · obtain ⟨t, ht, hstep⟩ := Option.bind_eq_some_iff.1 h
      exact finite_stepBetween? hstep (List.forall_mem_cons.2 ⟨finite_of_word? ht, htokens⟩)
  case h_3 => exact finite_stepString? h htokens
  case h_4 => exact finite_stepEscape? h htokens
  case h_5 =>
    obtain ⟨d, -, hd⟩ := Option.map_eq_some_iff.1 h
    cases hd
    exact htokens
  case h_6 =>
    split at h
    · cases h
      exact htokens
    · exact finite_stepString? h htokens
  case h_7 =>
    split at h
    · cases h
      exact htokens
    · exact finite_stepEscape? h htokens

theorem finite_lex? {cs : List Char} {found : List Token} (h : lex? state tokens cs = some found)
    (htokens : ∀ t ∈ tokens, t.Finite) : ∀ t ∈ found, t.Finite := by
  induction cs generalizing state tokens with
  | nil =>
      unfold lex? at h
      split at h
      · cases h
        simpa using htokens
      · obtain ⟨t, ht, hfound⟩ := Option.map_eq_some_iff.1 h
        cases hfound
        intro u hu
        exact List.forall_mem_cons.2 ⟨finite_of_word? ht, htokens⟩ u (List.mem_reverse.1 hu)
      · cases h
  | cons c cs ih =>
      unfold lex? at h
      split at h
      · next next more hstep => exact ih h (finite_step? hstep htokens)
      · cases h

end Lexer

/-! ## Drafts -/

/-- Whatever the value of the draft is, its floats are finite. -/
def Draft.Finite (d : Draft) : Prop :=
  ∀ (depth : Nat) (j : Json), d.json? depth = some j → Within IsFinite depth j

theorem Draft.finite_arr {items : List Draft} (h : ∀ d ∈ items, d.Finite) :
    (Draft.arr items).Finite := by
  rintro (_ | depth) j hj
  · cases hj
  rw [Draft.json?] at hj
  obtain ⟨js, hjs, rfl⟩ := Option.map_eq_some_iff.1 hj
  rw [within_arr]
  clear hj
  induction items generalizing js with
  | nil =>
      cases hjs
      simp
  | cons d rest ih =>
      rw [Draft.jsonItems?] at hjs
      obtain ⟨k, hk, hjs⟩ := Option.bind_eq_some_iff.1 hjs
      obtain ⟨ks, hks, hjs⟩ := Option.bind_eq_some_iff.1 hjs
      cases hjs
      have hrest := ih (fun e he => h e (by simp [he])) ks hks
      exact List.forall_mem_cons.2 ⟨h d (by simp) depth k hk, hrest⟩

theorem Draft.finite_obj {entries : Entries} (h : ∀ e ∈ entries, e.2.Finite) :
    (Draft.obj entries).Finite := by
  rintro (_ | depth) j hj
  · cases hj
  rw [Draft.json?] at hj
  obtain ⟨js, hjs, rfl⟩ := Option.map_eq_some_iff.1 hj
  rw [within_obj]
  clear hj
  induction entries generalizing js with
  | nil =>
      cases hjs
      simp
  | cons e rest ih =>
      rw [Draft.jsonEntries?] at hjs
      obtain ⟨key, hkey, hjs⟩ := Option.bind_eq_some_iff.1 hjs
      obtain ⟨k, hk, hjs⟩ := Option.bind_eq_some_iff.1 hjs
      obtain ⟨ks, hks, hjs⟩ := Option.bind_eq_some_iff.1 hjs
      cases hjs
      have hrest := ih (fun e he => h e (by simp [he])) ks hks
      exact List.forall_mem_cons.2 ⟨h e (by simp) depth k hk, hrest⟩

/-- What an open array or object holds is finite. -/
def Frame.Finite : Frame → Prop
  | .arr done => ∀ d ∈ done, d.Finite
  | .obj done _ => ∀ e ∈ done, e.2.Finite

/-- What has just been read is finite. -/
def Expect.Finite : Expect → Prop
  | .key done | .colon done _ => ∀ e ∈ done, e.2.Finite
  | .after d => d.Finite
  | _ => True

section Reader

variable {stack more : List Frame} {expect next : Expect} {token : Token}

theorem finite_start? (h : start? stack token = some (more, next)) (htoken : token.Finite)
    (hstack : ∀ f ∈ stack, f.Finite) : (∀ f ∈ more, f.Finite) ∧ next.Finite := by
  unfold start? at h
  split at h <;> cases h
  case h_1 v =>
    refine ⟨hstack, fun depth j hj => ?_⟩
    exact htoken j hj depth
  case h_2 s =>
    refine ⟨hstack, fun depth j hj => ?_⟩
    obtain ⟨text, -, rfl⟩ := Option.map_eq_some_iff.1 hj
    simp [Within, IsFinite]
  case h_3 => exact ⟨by simpa [Frame.Finite] using hstack, trivial⟩
  case h_4 => exact ⟨hstack, trivial⟩

theorem finite_continue? {d : Draft} (h : continue? d stack token = some (more, next))
    (hd : d.Finite) (hstack : ∀ f ∈ stack, f.Finite) : (∀ f ∈ more, f.Finite) ∧ next.Finite := by
  unfold continue? at h
  split at h <;> cases h
  all_goals
    obtain ⟨hdone, hrest⟩ := List.forall_mem_cons.1 hstack
  case h_1 => exact ⟨List.forall_mem_cons.2 ⟨List.forall_mem_cons.2 ⟨hd, hdone⟩, hrest⟩, trivial⟩
  case h_2 =>
    have hall := List.forall_mem_cons.2 ⟨hd, hdone⟩
    exact ⟨hrest, Draft.finite_arr fun e he => hall e (List.mem_reverse.1 he)⟩
  case h_3 =>
    refine ⟨hrest, fun e he => ?_⟩
    rcases List.mem_cons.1 he with rfl | he
    · exact hd
    · exact hdone e he
  case h_4 =>
    refine ⟨hrest, Draft.finite_obj fun e he => ?_⟩
    rcases List.mem_cons.1 (List.mem_reverse.1 he) with rfl | he
    · exact hd
    · exact hdone e he

/-- Every step of the reader keeps what it holds finite. -/
theorem finite_advance? (h : advance? stack expect token = some (more, next))
    (htoken : token.Finite) (hstack : ∀ f ∈ stack, f.Finite) (hexpect : expect.Finite) :
    (∀ f ∈ more, f.Finite) ∧ next.Finite := by
  unfold advance? at h
  split at h
  case h_1 => exact finite_start? h htoken hstack
  case h_2 =>
    split at h
    · cases h
      exact ⟨fun f hf => hstack f (List.mem_cons_of_mem _ hf), Draft.finite_arr (by simp)⟩
    · cases h
  case h_3 => exact finite_start? h htoken hstack
  case h_4 =>
    cases h
    exact ⟨hstack, hexpect⟩
  case h_5 =>
    cases h
    exact ⟨hstack, by simp [Expect.Finite]⟩
  case h_6 =>
    cases h
    exact ⟨hstack, Draft.finite_obj (by simp)⟩
  case h_7 =>
    cases h
    exact ⟨List.forall_mem_cons.2 ⟨hexpect, hstack⟩, trivial⟩
  case h_8 => exact finite_continue? h hexpect hstack
  case h_9 => cases h

theorem finite_run? {tokens : List Token} {d : Draft} (h : run? stack expect tokens = some d)
    (htokens : ∀ t ∈ tokens, t.Finite) (hstack : ∀ f ∈ stack, f.Finite)
    (hexpect : expect.Finite) : d.Finite := by
  induction tokens generalizing stack expect with
  | nil =>
      unfold run? at h
      split at h
      · cases h
        exact hexpect
      · cases h
  | cons t ts ih =>
      obtain ⟨ht, hts⟩ := List.forall_mem_cons.1 htokens
      unfold run? at h
      split at h
      · next more next hstep =>
        obtain ⟨hmore, hnext⟩ := finite_advance? hstep ht hstack hexpect
        exact ih h hts hmore hnext
      · cases h

end Reader

/-- **The floats of a value that is read are finite.** -/
theorem finite_read? {depth : Nat} {text : String} {j : Json} (h : read? depth text = some j) :
    Within IsFinite depth j := by
  obtain ⟨d, hd, hj⟩ := Option.bind_eq_some_iff.1 h
  obtain ⟨tokens, htokens, hrun⟩ := Option.bind_eq_some_iff.1 hd
  have hfinite := finite_run? hrun (finite_lex? htokens (by simp)) (by simp) trivial
  exact hfinite depth j hj

end ProtoScript.Json
