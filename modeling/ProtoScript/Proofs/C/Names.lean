import Mathlib.Data.List.Basic
import ProtoScript.C.Name
import ProtoScript.Ir.Basic

set_option autoImplicit false

/-!
# Names of functions and methods

An identifier is what C takes as it stands (`sanitize_of_isIdentifier`). It holds no `:`. Where names do not,
the name of a method can be read in one way only (`methodName_inj`), and the name of a plain function is never
that of a method (`ne_methodName`).
-/

namespace ProtoScript.C

/-- An ASCII identifier. -/
def isIdentifier (name : String) : Bool :=
  match name.toList with
  | [] => false
  | c :: rest => (c.isAlpha || c == '_') && rest.all fun c => c.isAlphanum || c == '_'

section

variable {name proto proto' method method' : String}

theorem isNameChar_of_isIdentifier (h : isIdentifier name) :
    ∀ c ∈ name.toList, (c.isAlphanum || c == '_') = true := by
  unfold isIdentifier at h
  split at h
  · cases h
  · rename_i c rest heq
    obtain ⟨hfirst, hrest⟩ := Bool.and_eq_true_iff.1 h
    rw [heq]
    refine List.forall_mem_cons.2 ⟨?_, List.all_eq_true.1 hrest⟩
    rcases Bool.or_eq_true_iff.1 hfirst with h | h
    · simp [Char.isAlphanum, h]
    · simp [h]

theorem sanitize_of_isIdentifier (h : isIdentifier name) : sanitize name = name := by
  have hsame : name.toList.map sanitizeChar = name.toList.map id :=
    List.map_congr_left fun c hc => if_pos (isNameChar_of_isIdentifier h c hc)
  rw [sanitize, hsame, List.map_id, String.ofList_toList]

theorem colon_notMem (h : isIdentifier name) : ':' ∉ name.toList := fun hmem => by
  have hcolon := isNameChar_of_isIdentifier h ':' hmem
  revert hcolon
  decide

theorem splitMethod?_of_notMem {cs : List Char} (h : ':' ∉ cs) : splitMethod? cs = none := by
  induction cs with
  | nil => rfl
  | cons c rest ih =>
      obtain ⟨hne, hrest⟩ := not_or.1 (mt List.mem_cons.2 h)
      rw [splitMethod?, ih hrest]
      · rfl
      · rintro _ rfl _
        exact hne rfl

theorem splitMethod?_append {before behind : List Char} (h : ':' ∉ before) :
    splitMethod? (before ++ ':' :: ':' :: behind) = some (before, behind) := by
  induction before with
  | nil => rfl
  | cons c rest ih =>
      obtain ⟨hne, hrest⟩ := not_or.1 (mt List.mem_cons.2 h)
      rw [List.cons_append, splitMethod?, ih hrest]
      · rfl
      · rintro _ rfl _
        exact hne rfl

theorem toList_methodName : (Ir.methodName proto method).toList =
    proto.toList ++ ':' :: ':' :: method.toList := by
  simp [Ir.methodName]

theorem splitMethod?_methodName (h : ':' ∉ proto.toList) :
    splitMethod? (Ir.methodName proto method).toList = some (proto.toList, method.toList) := by
  rw [toList_methodName, splitMethod?_append h]

/-- The function of a method shows its prototype and its name. -/
theorem methodName_inj (h : ':' ∉ proto.toList) (h' : ':' ∉ proto'.toList)
    (heq : Ir.methodName proto method = Ir.methodName proto' method') :
    proto = proto' ∧ method = method' := by
  have hsplit := (congrArg (splitMethod? ∘ String.toList) heq).symm.trans (splitMethod?_methodName h)
  rw [Function.comp_apply, splitMethod?_methodName h'] at hsplit
  obtain ⟨hproto, hmethod⟩ := Prod.mk.inj (Option.some.inj hsplit)
  exact ⟨(String.toList_injective hproto).symm, (String.toList_injective hmethod).symm⟩

theorem ne_methodName (h : ':' ∉ name.toList) (h' : ':' ∉ proto.toList) :
    name ≠ Ir.methodName proto method := by
  rintro rfl
  have hsplit := (splitMethod?_of_notMem h).symm.trans (splitMethod?_methodName h')
  cases hsplit

theorem functionName_of_isIdentifier (h : isIdentifier name) : functionName name = "psf_" ++ name := by
  rw [functionName, splitMethod?_of_notMem (colon_notMem h)]
  simp only [sanitize_of_isIdentifier h]

theorem functionName_methodName (h : ':' ∉ proto.toList) :
    functionName (Ir.methodName proto method) = memberOf "psm_" proto method := by
  rw [functionName, splitMethod?_methodName h]
  simp only [String.ofList_toList]

/-- Under one name, the methods of different prototypes are different functions. -/
theorem memberOf_left_inj {start : String} (h : isIdentifier proto) (h' : isIdentifier proto')
    (heq : memberOf start proto method = memberOf start proto' method) : proto = proto' := by
  unfold memberOf at heq
  rw [sanitize_of_isIdentifier h, sanitize_of_isIdentifier h'] at heq
  have hchars := congrArg String.toList heq
  simp only [String.toList_append, List.append_cancel_right_eq, List.append_cancel_left_eq] at hchars
  exact String.toList_injective hchars

end

/-!
## Types as parts of identifiers

A mangled type can be read in one way only, whatever stands behind it (`mangle_append_inj`): it starts with
a mark that says what kind of type it is, and no mark is the beginning of another; the length in front of the
name of a prototype says where the name ends, because an identifier does not start with a digit.
-/

/-- The prototypes in a type are named by identifiers. -/
def HasIdentifiers : Ty → Prop
  | .prim _ => True
  | .named name => isIdentifier name
  | .list t | .view t | .slice t => HasIdentifiers t
  | .map k v => HasIdentifiers k ∧ HasIdentifiers v

/-! ### Marks -/

/-- Where no mark is the beginning of another, a mark can be told from what is behind it. -/
theorem mark_append_inj {κ : Type} {mark : κ → List Char} {keys : List κ}
    (hfree : ∀ a ∈ keys, ∀ b ∈ keys, (mark a).isPrefixOf (mark b) → a = b) {a b : κ} (ha : a ∈ keys)
    (hb : b ∈ keys) {s s' : List Char} (h : mark a ++ s = mark b ++ s') : a = b ∧ s = s' := by
  have hab : a = b := by
    rcases List.append_eq_append_iff.1 h with ⟨c, hc, _⟩ | ⟨c, hc, _⟩
    · exact hfree a ha b hb (List.isPrefixOf_iff_prefix.2 ⟨c, hc.symm⟩)
    · exact (hfree b hb a ha (List.isPrefixOf_iff_prefix.2 ⟨c, hc.symm⟩)).symm
  subst hab
  exact ⟨rfl, List.append_cancel_left h⟩

/-- What kind of type it is. -/
def kind (t : Ty) : Option Primitive × Option Container := (t.primitive?, t.container?)

/-- Every kind. -/
def kinds : List (Option Primitive × Option Container) :=
  Primitive.all.map (some ·, none) ++ (none, none) :: Container.all.map (none, some ·)

/-- What a mangled type of a kind starts with. -/
def mark : Option Primitive × Option Container → List Char
  | (some p, _) => p.name.toList
  | (none, some k) => k.name.toList ++ ['_']
  | (none, none) => ['o']

/-- What stands behind the mark. -/
def behindMark : Ty → List Char
  | .prim _ => []
  | .named name => Nat.toDigits 10 (sanitize name).length ++ (sanitize name).toList
  | .list t | .view t | .slice t => (mangle t).toList
  | .map k v => (mangle k).toList ++ '_' :: (mangle v).toList

theorem toList_mangle (t : Ty) : (mangle t).toList = mark (kind t) ++ behindMark t := by
  cases t with
  | named name => simp [mangle, kind, mark, behindMark, Ty.primitive?, Ty.container?, Nat.repr, toString]
  | _ => simp [mangle, kind, mark, behindMark, Ty.primitive?, Ty.container?, Container.name]

theorem kind_mem_kinds (t : Ty) : kind t ∈ kinds := by
  cases t with
  | prim p => cases p <;> decide
  | _ => simp [kind, kinds, Ty.primitive?, Ty.container?, Container.all]

/-- No mark is the beginning of another. -/
theorem marks_prefixFree :
    ∀ a ∈ kinds, ∀ b ∈ kinds, (mark a).isPrefixOf (mark b) → a = b := by
  decide +kernel

theorem kind_eq_of_mangle {t t' : Ty} {s s' : List Char}
    (h : (mangle t).toList ++ s = (mangle t').toList ++ s') :
    kind t = kind t' ∧ behindMark t ++ s = behindMark t' ++ s' := by
  rw [toList_mangle, toList_mangle, List.append_assoc, List.append_assoc] at h
  exact mark_append_inj marks_prefixFree (kind_mem_kinds t) (kind_mem_kinds t') h

/-! ### Reading a mangled type -/

/-- A number ends where the first character stands that is no digit. -/
theorem toDigits_append_inj {n n' : Nat} {s s' : List Char} (hs : ∀ c ∈ s.head?, ¬ c.isDigit)
    (hs' : ∀ c ∈ s'.head?, ¬ c.isDigit) (h : Nat.toDigits 10 n ++ s = Nat.toDigits 10 n' ++ s') :
    n = n' ∧ s = s' := by
  have hspan : ∀ {n : Nat} {s : List Char}, (∀ c ∈ s.head?, ¬ c.isDigit) →
      (Nat.toDigits 10 n ++ s).takeWhile Char.isDigit = Nat.toDigits 10 n := by
    intro n s hs
    rw [List.takeWhile_append_of_pos fun c hc => Nat.isDigit_of_mem_toDigits (by decide) (by decide) hc]
    cases s with
    | nil => simp
    | cons c rest => simp [hs c rfl]
  have hdigits : Nat.toDigits 10 n = Nat.toDigits 10 n' := by
    rw [← hspan hs, h, hspan hs']
  have hn : n = n' := by
    have hvalue := @Nat.ofDigitChars_toDigits 10 n (by decide) (by decide)
    rw [hdigits, Nat.ofDigitChars_toDigits (by decide) (by decide)] at hvalue
    exact hvalue.symm
  rw [hdigits] at h
  exact ⟨hn, List.append_cancel_left h⟩

theorem not_isDigit_of_isAlpha {c : Char} (h : c.isAlpha) : ¬ c.isDigit := by
  intro hdigit
  have hdigit : c.val ≤ '9'.val := of_decide_eq_true (Bool.and_eq_true_iff.1 hdigit).2
  have hletter : 'A'.val ≤ c.val ∨ 'a'.val ≤ c.val := by
    rcases Bool.or_eq_true_iff.1 h with h | h
    · exact .inl (of_decide_eq_true h).1
    · exact .inr (of_decide_eq_true (Bool.and_eq_true_iff.1 h).1)
  have hbounds : 'A'.val.toNat = 65 ∧ 'a'.val.toNat = 97 ∧ '9'.val.toNat = 57 := ⟨rfl, rfl, rfl⟩
  rw [UInt32.le_iff_toNat_le] at hdigit
  rw [UInt32.le_iff_toNat_le, UInt32.le_iff_toNat_le] at hletter
  omega

theorem head_not_isDigit {name : String} (h : isIdentifier name) (s : List Char) :
    ∀ c ∈ (name.toList ++ s).head?, ¬ c.isDigit := by
  unfold isIdentifier at h
  split at h
  · cases h
  · rename_i c rest heq
    intro c' hc'
    rw [heq] at hc'
    obtain rfl : c = c' := by simpa using hc'
    intro hdigit
    rcases Bool.or_eq_true_iff.1 (Bool.and_eq_true_iff.1 h).1 with h | h
    · exact not_isDigit_of_isAlpha h hdigit
    · rw [beq_iff_eq.1 h] at hdigit
      revert hdigit
      decide

/-- A mangled type can be read in one way only, whatever stands behind it. -/
theorem mangle_append_inj {t t' : Ty} (ht : HasIdentifiers t) (ht' : HasIdentifiers t') {s s' : List Char}
    (h : (mangle t).toList ++ s = (mangle t').toList ++ s') : t = t' ∧ s = s' := by
  induction t generalizing t' s s' with
  | prim p =>
      obtain ⟨hkind, h⟩ := kind_eq_of_mangle h
      cases t' with
      | prim p' =>
          cases hkind
          exact ⟨rfl, h⟩
      | _ => cases hkind
  | named name =>
      obtain ⟨hkind, h⟩ := kind_eq_of_mangle h
      cases t' with
      | named name' =>
          simp only [behindMark, sanitize_of_isIdentifier ht, sanitize_of_isIdentifier ht',
            List.append_assoc] at h
          obtain ⟨hlength, h⟩ := toDigits_append_inj (head_not_isDigit ht s) (head_not_isDigit ht' s') h
          rw [← String.length_toList, ← String.length_toList] at hlength
          obtain ⟨hname, hs⟩ := List.append_inj h hlength
          exact ⟨congrArg Ty.named (String.toList_injective hname), hs⟩
      | _ => cases hkind
  | list t ih =>
      obtain ⟨hkind, h⟩ := kind_eq_of_mangle h
      cases t' with
      | list u =>
          have hu : HasIdentifiers u := ht'
          obtain ⟨rfl, hs⟩ := ih ht hu h
          exact ⟨rfl, hs⟩
      | _ => cases hkind
  | map k v ihk ihv =>
      obtain ⟨hkind, h⟩ := kind_eq_of_mangle h
      cases t' with
      | map k' v' =>
          simp only [behindMark, List.append_assoc, List.cons_append] at h
          obtain ⟨rfl, hrest⟩ := ihk ht.1 ht'.1 h
          obtain ⟨rfl, hs⟩ := ihv ht.2 ht'.2 (List.cons.inj hrest).2
          exact ⟨rfl, hs⟩
      | _ => cases hkind
  | view t ih =>
      obtain ⟨hkind, h⟩ := kind_eq_of_mangle h
      cases t' with
      | view u =>
          have hu : HasIdentifiers u := ht'
          obtain ⟨rfl, hs⟩ := ih ht hu h
          exact ⟨rfl, hs⟩
      | _ => cases hkind
  | slice t ih =>
      obtain ⟨hkind, h⟩ := kind_eq_of_mangle h
      cases t' with
      | slice u =>
          have hu : HasIdentifiers u := ht'
          obtain ⟨rfl, hs⟩ := ih ht hu h
          exact ⟨rfl, hs⟩
      | _ => cases hkind

/-- Different types have different structs. -/
theorem containerName_inj {t t' : Ty} (ht : HasIdentifiers t) (ht' : HasIdentifiers t')
    (h : containerName t = containerName t') : t = t' := by
  have hchars := congrArg String.toList h
  simp only [containerName, String.toList_append, List.append_cancel_left_eq] at hchars
  exact (mangle_append_inj ht ht' (congrArg (· ++ []) hchars)).1

end ProtoScript.C
