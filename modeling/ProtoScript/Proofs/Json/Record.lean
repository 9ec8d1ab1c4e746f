import ProtoScript.Json.Record
import ProtoScript.Proofs.Lookup
import ProtoScript.Proofs.Number.Finite

set_option autoImplicit false

/-!
# Values and fields of records

What is claimed of all scalars of a value, and what is found in a record: fields under their names, and values with
the properties that their readers see to.
-/

namespace ProtoScript.Json

/-!
## Values made of scalars of a kind

`Within P depth` says that a value is nested at most `depth` times and that all its scalars have the
property `P`. Of the values that are read from a text the property is that a float is finite.
-/

mutual

/-- The value is nested at most `depth` times, and every scalar in it has the property `P`. -/
def Within (P : Json → Prop) (depth : Nat) : Json → Prop
  | arr items =>
    match depth with
    | 0 => False
    | depth + 1 => WithinItems P depth items
  | obj entries =>
    match depth with
    | 0 => False
    | depth + 1 => WithinEntries P depth entries
  | j => P j

def WithinItems (P : Json → Prop) (depth : Nat) : List Json → Prop
  | [] => True
  | j :: rest => Within P depth j ∧ WithinItems P depth rest

def WithinEntries (P : Json → Prop) (depth : Nat) : List (String × Json) → Prop
  | [] => True
  | (_, j) :: rest => Within P depth j ∧ WithinEntries P depth rest

end

variable {P : Json → Prop} {depth : Nat}

theorem withinItems_iff {items : List Json} :
    WithinItems P depth items ↔ ∀ j ∈ items, Within P depth j := by
  induction items with
  | nil => simp [WithinItems]
  | cons j rest ih => simp [WithinItems, ih]

theorem withinEntries_iff {entries : List (String × Json)} :
    WithinEntries P depth entries ↔ ∀ e ∈ entries, Within P depth e.2 := by
  induction entries with
  | nil => simp [WithinEntries]
  | cons e rest ih => simp [WithinEntries, ih]

@[simp] theorem within_arr {items : List Json} :
    Within P (depth + 1) (arr items) ↔ ∀ j ∈ items, Within P depth j := by
  rw [Within, withinItems_iff]

@[simp] theorem within_obj {entries : List (String × Json)} :
    Within P (depth + 1) (obj entries) ↔ ∀ e ∈ entries, Within P depth e.2 := by
  rw [Within, withinEntries_iff]

/-! ### Finite floats -/

/-- The scalar is no float, or a finite one. -/
def IsFinite : Json → Prop
  | float x => x.isFinite = true
  | _ => True

/-- Every float in the value is finite. -/
def AllFinite (j : Json) : Prop := ∃ depth, Within IsFinite depth j

theorem allFinite_arr {items : List Json} : AllFinite (arr items) → ∀ j ∈ items, AllFinite j := by
  rintro ⟨_ | depth, h⟩ j hj
  · cases h
  · exact ⟨depth, within_arr.1 h j hj⟩

/-- Every value in the fields has finite floats only. -/
def Fields.AllFinite (fields : Fields) : Prop := ∃ depth, ∀ e ∈ fields, Within IsFinite depth e.2

theorem allFinite_obj {fields : Fields} : AllFinite (obj fields) ↔ fields.AllFinite := by
  constructor
  · rintro ⟨_ | depth, h⟩
    · cases h
    · exact ⟨depth, within_obj.1 h⟩
  · rintro ⟨depth, h⟩
    exact ⟨depth + 1, within_obj.2 h⟩

/-!
## Fields of records

A field that is written under its name is found there, and its value is read back if its reader reads
back what its writer has written. In the other direction, what is read from a record whose floats are
finite has the properties that its parts have (`Yields`).
-/

/-! ### What is written -/

theorem lastUnder?_eq_none {name : String} {fields : Fields} (h : ∀ e ∈ fields, e.1 ≠ name) :
    lastUnder? name fields = none := by
  induction fields with
  | nil => rfl
  | cons e rest ih =>
      rw [lastUnder?, ih fun e he => h e (by simp [he])]
      exact if_neg (h e (by simp))

section Fields

variable {α : Type} {k name : String} {j : Json} {rest : Fields} {read : Json → Option α}

theorem need_cons_self (h : ∀ e ∈ rest, e.1 ≠ name) :
    Fields.need ((name, j) :: rest) name read = read j := by
  simp [Fields.need, lastUnder?, lastUnder?_eq_none h]

theorem need_cons_ne (h : k ≠ name) :
    Fields.need ((k, j) :: rest) name read = Fields.need rest name read := by
  simp only [Fields.need, lastUnder?, if_neg h]
  cases lastUnder? name rest <;> rfl

theorem opt_cons_ne (h : k ≠ name) :
    Fields.opt ((k, j) :: rest) name read = Fields.opt rest name read := by
  simp only [Fields.opt, lastUnder?, if_neg h]
  cases lastUnder? name rest <;> rfl

/-- An optional field is read back if its value is read back and not written as nothing. -/
theorem opt_cons_self {write : α → Json} {a? : Option α} (h : ∀ e ∈ rest, e.1 ≠ name)
    (hread : ∀ a ∈ a?, read (write a) = some a) (hnull : ∀ a, write a ≠ .null) :
    Fields.opt ((name, ofOption write a?) :: rest) name read = some a? := by
  cases a? with
  | none => simp [Fields.opt, lastUnder?, lastUnder?_eq_none h, ofOption]
  | some a =>
      have hfound : lastUnder? name ((name, ofOption write (some a)) :: rest) = some (write a) := by
        simp [lastUnder?, lastUnder?_eq_none h, ofOption]
      rw [Fields.opt, hfound]
      split
      · next heq => cases heq
      · next heq => exact absurd (Option.some.inj heq) (hnull a)
      · next heq =>
        rw [← Option.some.inj heq, hread a rfl]
        rfl

end Fields

theorem record?_obj (names : List String) (fields : Fields) :
    (obj fields).record? names = some fields := by
  rw [record?]

theorem list?_arr {α : Type} {read : Json → Option α} {write : α → Json} {xs : List α}
    (h : ∀ x ∈ xs, read (write x) = some x) : list? read (.arr (xs.map write)) = some xs := by
  rw [list?, arr?, Option.bind_some]
  induction xs with
  | nil => rfl
  | cons x xs ih =>
      rw [List.map_cons, List.mapM_cons, h x (by simp), ih fun y hy => h y (by simp [hy])]
      rfl

theorem natBelow?_ofNat {bound n : Nat} (h : n < bound) : natBelow? bound (ofNat n) = some n := by
  have hn : (n : Int) < bound := Int.ofNat_lt.2 h
  simp [natBelow?, ofNat, int?, hn]

theorem str?_str (s : String) : str? (.str s) = some s := by
  rw [str?]

/-- A record with a tag in front is taken apart if no field has the name of the tag. -/
theorem tagged?_obj {tag kind : String} {fields : Fields} (h : ∀ e ∈ fields, e.1 ≠ tag) :
    tagged? tag (.obj ((tag, .str kind) :: fields)) = some (kind, .obj fields) := by
  have hfilter : fields.filter (fun e => e.1 != tag) = fields :=
    List.filter_eq_self.2 fun e he => bne_iff_ne.2 (h e he)
  simp [tagged?, lastUnder?, lastUnder?_eq_none h, str?, hfilter]

/-! ### What is read -/

/-- Whatever the reader makes of a value with finite floats only has the property. -/
def Yields {α : Type} (read : Json → Option α) (Q : α → Prop) : Prop :=
  ∀ ⦃j : Json⦄ ⦃a : α⦄, AllFinite j → read j = some a → Q a

theorem mem_of_lastUnder? {name : String} {fields : Fields} {j : Json}
    (h : lastUnder? name fields = some j) : ∃ k, (k, j) ∈ fields := by
  induction fields with
  | nil => cases h
  | cons e rest ih =>
      rw [lastUnder?] at h
      split at h
      · next found hfound =>
        obtain ⟨k, hk⟩ := ih (hfound.trans h)
        exact ⟨k, List.mem_cons_of_mem _ hk⟩
      · split at h
        · cases h
          exact ⟨_, List.mem_cons_self⟩
        · cases h

section Yields

variable {α β : Type} {read : Json → Option α} {Q : α → Prop} {fields : Fields} {name : String}

theorem Fields.AllFinite.value (h : fields.AllFinite) {j : Json}
    (hj : lastUnder? name fields = some j) : Json.AllFinite j := by
  obtain ⟨depth, hdepth⟩ := h
  obtain ⟨k, hk⟩ := mem_of_lastUnder? hj
  exact ⟨depth, hdepth _ hk⟩

theorem allFinite_get? {j k : Json} (hj : AllFinite j) (h : j.get? name = some k) :
    AllFinite k := by
  unfold get? at h
  split at h
  · exact (allFinite_obj.1 hj).value h
  · cases h

theorem Yields.need (hread : Yields read Q) (h : fields.AllFinite) {a : α}
    (ha : fields.need name read = some a) : Q a := by
  obtain ⟨j, hj, hja⟩ := Option.bind_eq_some_iff.1 ha
  exact hread (h.value hj) hja

theorem Yields.opt (hread : Yields read Q) (h : fields.AllFinite) {a? : Option α}
    (ha : fields.opt name read = some a?) : ∀ a ∈ a?, Q a := by
  rintro a ⟨⟩
  rw [Fields.opt] at ha
  split at ha
  · cases ha
  · cases ha
  · next j hj =>
    obtain ⟨b, hb, hba⟩ := Option.map_eq_some_iff.1 ha
    cases hba
    exact hread (h.value hj) hb

theorem Yields.list (hread : Yields read Q) : Yields (list? read) fun as => ∀ a ∈ as, Q a := by
  intro j as hj has a ha
  obtain ⟨items, hitems, hmap⟩ := Option.bind_eq_some_iff.1 has
  obtain ⟨k, hk, hka⟩ := exists_of_forall₂ (forall₂_of_mapM hmap) ha
  have harr : j = arr items := by
    unfold arr? at hitems
    split at hitems
    · cases hitems
      rfl
    · cases hitems
  subst harr
  exact hread (allFinite_arr hj k hk) hka

theorem Yields.pair {first : Json → Option α} {second : Json → Option β} {R : β → Prop}
    (hfirst : Yields first Q) (hsecond : Yields second R) :
    Yields (pair? first second) fun p => Q p.1 ∧ R p.2 := by
  intro j p hj hp
  unfold pair? at hp
  split at hp
  · obtain ⟨a, ha, hp⟩ := Option.bind_eq_some_iff.1 hp
    obtain ⟨b, hb, hp⟩ := Option.bind_eq_some_iff.1 hp
    cases hp
    exact ⟨hfirst (allFinite_arr hj _ (by simp)) ha, hsecond (allFinite_arr hj _ (by simp)) hb⟩
  · cases hp

theorem allFinite_record {names : List String} {j : Json} (hj : AllFinite j)
    (h : j.record? names = some fields) : fields.AllFinite := by
  unfold record? at h
  split at h
  · cases h
    exact allFinite_obj.1 hj
  · split at h
    · cases h
      obtain ⟨_ | depth, hdepth⟩ := hj
      · cases hdepth
      · exact ⟨depth, fun e he => within_arr.1 hdepth e.2 (List.of_mem_zip he).2⟩
    · cases h
  · cases h

theorem allFinite_tagged {tag op : String} {j rest : Json} (hj : AllFinite j)
    (h : j.tagged? tag = some (op, rest)) : AllFinite rest := by
  unfold tagged? at h
  split at h
  · obtain ⟨kind, hkind, h⟩ := Option.bind_eq_some_iff.1 h
    cases h
    obtain ⟨depth, hdepth⟩ := allFinite_obj.1 hj
    exact allFinite_obj.2 ⟨depth, fun e he => hdepth e (List.mem_filter.1 he).1⟩
  · cases h
    obtain ⟨_ | depth, hdepth⟩ := hj
    · cases hdepth
    · exact ⟨depth + 1, within_arr.2 fun k hk => within_arr.1 hdepth k (List.mem_cons_of_mem _ hk)⟩
  · cases h

theorem yields_float : Yields float? fun x => x.isFinite = true := by
  intro j x hj h
  unfold float? at h
  split at h
  · cases h
    obtain ⟨_ | depth, hfinite⟩ := hj <;> exact hfinite
  · split at h <;> cases h
    · exact isFinite_ofUInt64 _
    · exact isFinite_neg (isFinite_ofUInt64 _)
  · cases h

end Yields

end ProtoScript.Json
