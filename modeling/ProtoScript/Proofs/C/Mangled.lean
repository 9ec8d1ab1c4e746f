import ProtoScript.Proofs.C.Names
import ProtoScript.Proofs.Ty.Grammar

set_option autoImplicit false

/-!
# What a mangled type tells

Only the characters that C cannot hold are lost when a type becomes part of an identifier: two written types
have the same mangled text exactly if they are the same after the names of their prototypes have been
sanitized (`mangle_eq_iff_mapNames_sanitize`). A name of the grammar starts with no digit, so that what is
left of it is an identifier and the type that is left can be read back.
-/

namespace ProtoScript

namespace Ty

/-- The type with its prototypes renamed. -/
def mapNames (f : String → String) : Ty → Ty
  | prim p => prim p
  | named name => named (f name)
  | list t => list (t.mapNames f)
  | map k v => map (k.mapNames f) (v.mapNames f)
  | view t => view (t.mapNames f)
  | slice t => slice (t.mapNames f)

/-- The names of the prototypes in the type. -/
def names : Ty → List String
  | prim _ => []
  | named name => [name]
  | list t | view t | slice t => t.names
  | map k v => k.names ++ v.names

/-- The prototypes in the type have ASCII names. -/
def HasAsciiNames (t : Ty) : Prop := ∀ name ∈ t.names, ∀ c ∈ name.toList, c.toNat < 128

theorem mapNames_eq_self {f : String → String} {t : Ty} (h : ∀ name ∈ t.names, f name = name) :
    t.mapNames f = t := by
  induction t with
  | prim p => rfl
  | named name => exact congrArg named (h name (List.mem_singleton_self name))
  | list t ih => exact congrArg list (ih h)
  | view t ih => exact congrArg view (ih h)
  | slice t ih => exact congrArg slice (ih h)
  | map k v ihk ihv =>
      obtain ⟨hk, hv⟩ := List.forall_mem_append.1 h
      exact congrArg₂ map (ihk hk) (ihv hv)

theorem WellFormed.isPrototypeName {t : Ty} (h : t.WellFormed) : ∀ name ∈ t.names, IsPrototypeName name := by
  induction t with
  | prim p => exact fun _ hname => absurd hname List.not_mem_nil
  | named name =>
      rintro _ hname
      rwa [List.mem_singleton.1 hname]
  | list t ih | view t ih | slice t ih => exact ih h
  | map k v ihk ihv => exact List.forall_mem_append.2 ⟨ihk h.1, ihv h.2⟩

end Ty

namespace C

/-! ## Names after sanitizing -/

theorem sanitizeChar_spec (c : Char) : ((sanitizeChar c).isAlphanum || sanitizeChar c == '_') = true := by
  unfold sanitizeChar
  split
  · assumption
  · rfl

theorem sanitizeChar_isFirst {c : Char} (h : c.isDigit = false) :
    ((sanitizeChar c).isAlpha || sanitizeChar c == '_') = true := by
  unfold sanitizeChar
  split
  · next hc =>
      rw [Char.isAlphanum, h, Bool.or_false] at hc
      exact hc
  · rfl

/-- What is left of a prototype's name is an identifier. -/
theorem isIdentifier_sanitize {name : String} (h : Ty.IsPrototypeName name) : isIdentifier (sanitize name) := by
  unfold isIdentifier sanitize
  rw [String.toList_ofList]
  cases hname : name.toList with
  | nil => exact absurd (String.toList_eq_nil_iff.1 hname) h.nonempty
  | cons c rest =>
      have hdigit : c.isDigit = false := h.noDigit c (by rw [hname]; rfl)
      have hrest : (rest.map sanitizeChar).all (fun c => c.isAlphanum || c == '_') = true := by
        rw [List.all_map]
        exact List.all_eq_true.2 fun c _ => sanitizeChar_spec c
      exact Bool.and_eq_true_iff.2 ⟨sanitizeChar_isFirst hdigit, hrest⟩

/-- An ASCII name of the grammar is an identifier as it stands. -/
theorem sanitize_of_ascii {name : String} (h : Ty.IsPrototypeName name)
    (hascii : ∀ c ∈ name.toList, c.toNat < 128) : sanitize name = name := by
  have hsame : name.toList.map sanitizeChar = name.toList.map id := by
    refine List.map_congr_left fun c hc => if_pos ?_
    have hletter := h.letters c hc
    rwa [isNameChar, isLetterOrDigit, if_pos (hascii c hc)] at hletter
  rw [sanitize, hsame, List.map_id, String.ofList_toList]

/-! ## Types after sanitizing -/

section

variable {t t' : Ty}

theorem hasIdentifiers_mapNames_sanitize (h : t.WellFormed) : HasIdentifiers (t.mapNames sanitize) := by
  induction t with
  | prim p => trivial
  | named name => exact isIdentifier_sanitize h
  | list t ih | view t ih | slice t ih => exact ih h
  | map k v ihk ihv => exact ⟨ihk h.1, ihv h.2⟩

theorem mangle_mapNames_sanitize (h : t.WellFormed) : mangle (t.mapNames sanitize) = mangle t := by
  induction t with
  | prim p => rfl
  | named name => simp only [Ty.mapNames, mangle, sanitize_of_isIdentifier (isIdentifier_sanitize h)]
  | list t ih | view t ih | slice t ih =>
      simp only [Ty.mapNames, mangle]
      rw [ih h]
  | map k v ihk ihv =>
      simp only [Ty.mapNames, mangle]
      rw [ihk h.1, ihv h.2]

theorem mangle_eq_iff (h : t.WellFormed) (h' : t'.WellFormed) :
    mangle t = mangle t' ↔ t.mapNames sanitize = t'.mapNames sanitize := by
  constructor
  · intro heq
    rw [← mangle_mapNames_sanitize h, ← mangle_mapNames_sanitize h'] at heq
    have hchars := congrArg (String.toList · ++ []) heq
    have hnames := hasIdentifiers_mapNames_sanitize h
    exact (mangle_append_inj hnames (hasIdentifiers_mapNames_sanitize h') hchars).1
  · intro heq
    rw [← mangle_mapNames_sanitize h, heq, mangle_mapNames_sanitize h']

theorem mapNames_sanitize_of_ascii (h : t.WellFormed) (hascii : t.HasAsciiNames) : t.mapNames sanitize = t :=
  Ty.mapNames_eq_self fun name hname => sanitize_of_ascii (h.isPrototypeName name hname) (hascii name hname)

theorem containerName_eq_iff : containerName t = containerName t' ↔ mangle t = mangle t' := by
  simp [containerName, String.ext_iff]

/-- **Mangling loses nothing but the characters that C cannot hold.** Two written types have the same mangled
text exactly if they are the same once the names of their prototypes are sanitized. Types whose prototypes have
ASCII names have structs of their own. -/
theorem mangle_eq_iff_mapNames_sanitize {text text' : String} (h : Ty.parse text = .ok t)
    (h' : Ty.parse text' = .ok t') :
    (mangle t = mangle t' ↔ t.mapNames sanitize = t'.mapNames sanitize) ∧
      (t.HasAsciiNames → t'.HasAsciiNames → containerName t = containerName t' → t = t') := by
  obtain ⟨hwf, -⟩ := Ty.parse_eq_ok_iff.1 h
  obtain ⟨hwf', -⟩ := Ty.parse_eq_ok_iff.1 h'
  have hiff := mangle_eq_iff hwf hwf'
  refine ⟨hiff, fun hascii hascii' heq => ?_⟩
  have hsame := hiff.1 (containerName_eq_iff.1 heq)
  rwa [mapNames_sanitize_of_ascii hwf hascii, mapNames_sanitize_of_ascii hwf' hascii'] at hsame

/-- Two accents become the same underscore; a name that is spelled like a mangled type stays apart from the
type. -/
theorem mangle_accents_and_lookalikes :
    Ty.parse "map<list_int,é>" = .ok (.map (.named "list_int") (.named "é")) ∧
      Ty.parse "map<list_int,ö>" = .ok (.map (.named "list_int") (.named "ö")) ∧
      mangle (.map (.named "list_int") (.named "é")) = mangle (.map (.named "list_int") (.named "ö")) ∧
      containerName (.list (.named "list_int")) ≠ containerName (.list (.list .int)) := by
  have hacute : Ty.parse "map<list_int,é>" = .ok (.map (.named "list_int") (.named "é")) := by decide +kernel
  have hdots : Ty.parse "map<list_int,ö>" = .ok (.map (.named "list_int") (.named "ö")) := by decide +kernel
  have hname : Ty.parse "list<list_int>" = .ok (.list (.named "list_int")) := by decide +kernel
  have hlist : Ty.parse "list<list<int>>" = .ok (.list (.list .int)) := by decide +kernel
  have hsanitized : sanitize "é" = sanitize "ö" := by simp [sanitize, sanitizeChar]
  refine ⟨hacute, hdots, (mangle_eq_iff_mapNames_sanitize hacute hdots).1.2 ?_, fun heq => ?_⟩
  · simp only [Ty.mapNames, hsanitized]
  · have hsame := (mangle_eq_iff_mapNames_sanitize hname hlist).2 (by simp [Ty.HasAsciiNames, Ty.names])
      (by simp [Ty.HasAsciiNames, Ty.names, Ty.int]) heq
    cases hsame

end

end C

end ProtoScript
