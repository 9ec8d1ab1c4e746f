import Mathlib.Data.List.Induction
import ProtoScript.C.Emit

set_option autoImplicit false

/-!
# The order of registered containers

A call for the C type of a type registers the containers it is built from, each behind those inside it. A call
that meets `void` fails where it stands and leaves what it has registered so far. In whatever way calls
succeed and fail, a container stands behind everything that it needs (`Ordered`), so that the definitions
can be written in the order of registration.
-/

namespace ProtoScript

namespace Ty

/-- The containers that occur in the type, with the type itself if it is one. -/
def containers : Ty → List Ty
  | prim _ | named _ => []
  | list t => list t :: t.containers
  | map k v => map k v :: (k.containers ++ v.containers)
  | view t => view t :: t.containers
  | slice t => slice t :: t.containers

/-- The containers that occur inside the type. -/
def inner (t : Ty) : List Ty := t.args.flatMap containers

theorem containers_eq_cons {t : Ty} (h : t.container?.isSome) : t.containers = t :: t.inner := by
  cases t with
  | prim p => cases h
  | named name => cases h
  | list t | view t | slice t => simp [containers, inner, args]
  | map k v => simp [containers, inner, args]

end Ty

namespace C

/-! ## Calls -/

/-- A step that may fail; what it has registered stays. -/
abbrev Registering := EStateM Error Containers

/-- The containers registered behind a step, whether it has failed or not. -/
def Registering.after {α : Type} (x : Registering α) (known : Containers) : Containers :=
  match x known with
  | .ok _ known | .error _ known => known

/-- What a step gives that finds no container registered. -/
def Registering.fresh {α : Type} (x : Registering α) : Except Error α :=
  match x [] with
  | .ok a _ => .ok a
  | .error e _ => .error e

/-- The call for an element type of a container; one that mentions `void` has no C type. -/
def requestElement (owner elem : Ty) (asked : Registering String) : Registering Unit := do
  if elem.containsVoid then throw (.unsupportedType owner)
  let _ ← asked

/-- Registers a container behind its element types. -/
def requestOwner (owner : Ty) : Registering String := do
  modify (Containers.insert · owner)
  return spell owner

/-- The call for the C type of a type: its element types are asked for one after another. -/
def request : Ty → Registering String
  | .prim p => return primitiveType p
  | .named name => return structName name ++ "*"
  | .list t => do
      requestElement (.list t) t (request t)
      requestOwner (.list t)
  | .view t => do
      requestElement (.view t) t (request t)
      requestOwner (.view t)
  | .slice t => do
      requestElement (.slice t) t (request t)
      requestOwner (.slice t)
  | .map k v => do
      requestElement (.map k v) k (request k)
      requestElement (.map k v) v (request v)
      requestOwner (.map k v)

section

variable {α β : Type} {x : Registering α} {f : α → Registering β} {known known' : Containers} {a : α}
  {e : Error}

theorem bind_of_ok (h : x known = .ok a known') : (x >>= f) known = f a known' := by
  show EStateM.bind x f known = _
  simp only [EStateM.bind, h]

theorem bind_of_error (h : x known = .error e known') : (x >>= f) known = .error e known' := by
  show EStateM.bind x f known = _
  simp only [EStateM.bind, h]

theorem requestElement_of_void {owner elem : Ty} {asked : Registering String} (h : elem.containsVoid = true) :
    requestElement owner elem asked known = .error (.unsupportedType owner) known := by
  simp only [requestElement, h]
  rfl

theorem requestElement_of_ok {owner elem : Ty} {asked : Registering String} {text : String}
    (h : elem.containsVoid = false) (hasked : asked known = .ok text known') :
    requestElement owner elem asked known = .ok () known' := by
  simp only [requestElement, h]
  exact bind_of_ok hasked

end

theorem isRepresentable_of_containsVoid {t : Ty} (h : t.containsVoid = false) : isRepresentable t := by
  cases t with
  | prim p | named name => rfl
  | list t | view t | slice t =>
      have hvoid : t.containsVoid = false := h
      simp [isRepresentable, Ty.args, hvoid]
  | map k v =>
      obtain ⟨hk, hv⟩ := Bool.or_eq_false_iff.1 h
      simp [isRepresentable, Ty.args, hk, hv]

/-- What a call gives: the C type, if there is one, and what is registered behind it. -/
theorem request_eq (t : Ty) (known : Containers) :
    request t known =
      if isRepresentable t then .ok (spell t) (known.register t)
      else .error (.unsupportedType t) (known.register t) := by
  induction t generalizing known with
  | prim p => rfl
  | named name => rfl
  | list t ih | view t ih | slice t ih =>
      cases hvoid : t.containsVoid with
      | true =>
          rw [request, bind_of_error (requestElement_of_void hvoid)]
          simp [isRepresentable, Ty.args, Containers.register, hvoid]
      | false =>
          have hasked := (ih known).trans (if_pos (isRepresentable_of_containsVoid hvoid))
          rw [request, bind_of_ok (requestElement_of_ok hvoid hasked)]
          simp [isRepresentable, Ty.args, Containers.register, hvoid]
          rfl
  | map k v ihk ihv =>
      cases hk : k.containsVoid with
      | true =>
          rw [request, bind_of_error (requestElement_of_void hk)]
          simp [isRepresentable, Ty.args, Containers.register, hk]
      | false =>
          have hkey := (ihk known).trans (if_pos (isRepresentable_of_containsVoid hk))
          rw [request, bind_of_ok (requestElement_of_ok hk hkey)]
          cases hv : v.containsVoid with
          | true =>
              rw [bind_of_error (requestElement_of_void hv)]
              simp [isRepresentable, Ty.args, Containers.register, hk, hv]
          | false =>
              have hvalue := (ihv (known.register k)).trans (if_pos (isRepresentable_of_containsVoid hv))
              rw [bind_of_ok (requestElement_of_ok hv hvalue)]
              simp [isRepresentable, Ty.args, Containers.register, hk, hv]
              rfl

theorem request_of_ok {t : Ty} (h : isRepresentable t) (known : Containers) :
    request t known = .ok (spell t) (known.register t) := by
  rw [request_eq, if_pos h]

theorem after_request (t : Ty) (known : Containers) : (request t).after known = known.register t := by
  rw [Registering.after, request_eq]
  cases isRepresentable t <;> rfl

/-- A type has no C type if it is a container with `void` somewhere inside it. -/
theorem isRepresentable_eq_false_iff {t : Ty} :
    isRepresentable t = false ↔ t.container?.isSome ∧ t.containsVoid := by
  cases t with
  | prim p | named name => simp [isRepresentable, Ty.args, Ty.container?]
  | list t | view t | slice t => simp [isRepresentable, Ty.args, Ty.container?, Ty.containsVoid]
  | map k v => cases hk : k.containsVoid <;> simp [isRepresentable, Ty.args, Ty.container?, Ty.containsVoid, hk]

/-! ## Order -/

/-- Containers without `void`, no two of them the same, each behind those inside it. -/
inductive Ordered : Containers → Prop where
  | nil : Ordered []
  | snoc {known : Containers} {t : Ty} : Ordered known → t ∉ known → t.container?.isSome →
      t.containsVoid = false → (∀ u ∈ t.inner, u ∈ known) → Ordered (known ++ [t])

namespace Ordered

variable {known : Containers}

theorem nodup (h : Ordered known) : known.Nodup := by
  induction h with
  | nil => exact List.nodup_nil
  | snoc _ hnew _ _ _ ih => exact (List.perm_append_singleton _ _).nodup_iff.2 (List.nodup_cons.2 ⟨hnew, ih⟩)

theorem mem (h : Ordered known) : ∀ t ∈ known, t.container?.isSome ∧ t.containsVoid = false := by
  induction h with
  | nil => exact fun t ht => absurd ht List.not_mem_nil
  | snoc _ _ hcontainer hvoid _ ih =>
      exact List.forall_mem_append.2 ⟨ih, List.forall_mem_singleton.2 ⟨hcontainer, hvoid⟩⟩

/-- What stands inside a container is registered before it. -/
theorem before (h : Ordered known) {front back : Containers} {t : Ty} (hsplit : known = front ++ t :: back) :
    ∀ u ∈ t.inner, u ∈ front := by
  induction h generalizing back with
  | nil => simp at hsplit
  | @snoc known last _ _ _ _ hinner ih =>
      rcases List.eq_nil_or_concat back with rfl | ⟨back, last', rfl⟩
      · obtain ⟨rfl, hlast⟩ := List.append_inj' hsplit rfl
        cases hlast
        exact hinner
      · rw [List.concat_eq_append, ← List.cons_append, ← List.append_assoc] at hsplit
        obtain ⟨hknown, -⟩ := List.append_inj' hsplit rfl
        exact ih hknown

theorem containers_mem (h : Ordered known) {t : Ty} (ht : t ∈ known) : ∀ u ∈ t.containers, u ∈ known := by
  obtain ⟨front, back, rfl⟩ := List.append_of_mem ht
  rw [Ty.containers_eq_cons (h.mem t ht).1]
  refine List.forall_mem_cons.2 ⟨ht, fun u hu => List.mem_append_left _ (h.before rfl u hu)⟩

theorem insert (h : Ordered known) {t : Ty} (hcontainer : t.container?.isSome) (hvoid : t.containsVoid = false)
    (hinner : ∀ u ∈ t.inner, u ∈ known) : Ordered (known.insert t) := by
  unfold Containers.insert
  split
  · exact h
  · next hnew => exact h.snoc hnew hcontainer hvoid hinner

end Ordered

theorem prefix_insert (known : Containers) (t : Ty) : known <+: known.insert t := by
  unfold Containers.insert
  split
  · exact List.prefix_refl known
  · exact List.prefix_append known [t]

theorem mem_insert (known : Containers) (t : Ty) : t ∈ known.insert t := by
  unfold Containers.insert
  split
  · assumption
  · exact List.mem_append_right _ (List.mem_singleton_self t)

/-- What a call registers: the order is kept, what was registered stays where it is, and behind a call that
succeeds every container of the type is there. -/
structure Registers (t : Ty) (known known' : Containers) : Prop where
  ordered : Ordered known'
  grows : known <+: known'
  complete : isRepresentable t → ∀ u ∈ t.containers, u ∈ known'

/-- Behind its elements, a container can be registered. -/
theorem registers_insert {t : Ty} {known known' : Containers} (hcontainer : t.container?.isSome)
    (hvoid : t.containsVoid = false) (hordered : Ordered known') (hgrows : known <+: known')
    (hinner : ∀ u ∈ t.inner, u ∈ known') : Registers t known (known'.insert t) := by
  have hinsert := hordered.insert hcontainer hvoid hinner
  exact ⟨hinsert, hgrows.trans (prefix_insert known' t), fun _ => hinsert.containers_mem (mem_insert known' t)⟩

theorem registers_register (t : Ty) {known : Containers} (h : Ordered known) :
    Registers t known (known.register t) := by
  induction t generalizing known with
  | prim p | named name => exact ⟨h, List.prefix_refl known, fun _ _ hu => absurd hu List.not_mem_nil⟩
  | list t ih | view t ih | slice t ih =>
      unfold Containers.register
      split
      · next hvoid =>
          exact ⟨h, List.prefix_refl known, by simp [isRepresentable, Ty.args, hvoid]⟩
      · next hvoid =>
          rw [Bool.not_eq_true] at hvoid
          obtain ⟨hordered, hgrows, hcomplete⟩ := ih h
          refine registers_insert rfl hvoid hordered hgrows ?_
          simpa [Ty.inner, Ty.args] using hcomplete (isRepresentable_of_containsVoid hvoid)
  | map k v ihk ihv =>
      unfold Containers.register
      obtain ⟨hordered, hgrows, hcomplete⟩ := ihk h
      split
      · next hk => exact ⟨h, List.prefix_refl known, by simp [isRepresentable, Ty.args, hk]⟩
      split
      · next hv => exact ⟨hordered, hgrows, by simp [isRepresentable, Ty.args, hv]⟩
      · next hk hv =>
          rw [Bool.not_eq_true] at hk hv
          obtain ⟨hordered', hgrows', hcomplete'⟩ := ihv hordered
          refine registers_insert rfl (Bool.or_eq_false_iff.2 ⟨hk, hv⟩) hordered' (hgrows.trans hgrows') ?_
          simp only [Ty.inner, Ty.args, List.flatMap_cons, List.flatMap_nil, List.append_nil,
            List.forall_mem_append]
          exact ⟨fun u hu => hgrows'.subset (hcomplete (isRepresentable_of_containsVoid hk) u hu),
            hcomplete' (isRepresentable_of_containsVoid hv)⟩

/-! ## Calls one after another -/

/-- The containers registered behind calls for the C types of some types, whether they succeed or fail. -/
def registered (types : List Ty) : Containers :=
  types.foldl (fun known t => (request t).after known) []

theorem registered_append (types types' : List Ty) :
    registered (types ++ types') = types'.foldl (fun known t => (request t).after known) (registered types) :=
  List.foldl_append

theorem ordered_registered (types : List Ty) : Ordered (registered types) := by
  induction types using List.reverseRecOn with
  | nil => exact .nil
  | append_singleton types t ih =>
      rw [registered_append, List.foldl_cons, List.foldl_nil, after_request]
      exact (registers_register t ih).ordered

/-! ## Definitions -/

/-- The lines for a registered type, whose elements are asked for once more where nothing is registered. -/
def renderContainer (t : Ty) : Registering Lines :=
  match t with
  | .list e => do return listText (containerName t) (← request e)
  | .view e | .slice e => do return windowText (containerName t) (← request e)
  | .map k v => do
      let key ← request k
      let value ← request v
      return mapText (containerName t) key value
        (if k.isString then "ps_str_eq(m->keys[i], k)" else "m->keys[i] == k")
  | .prim _ | .named _ => return []

/-- The lines for registered types, or why there are none. -/
def renderContainers : Containers → Except Error Lines
  | [] => return []
  | t :: rest => do
      let lines ← (renderContainer t).fresh
      return lines ++ (← renderContainers rest)

theorem fresh_renderContainer {t : Ty} (h : t.containsVoid = false) :
    (renderContainer t).fresh = .ok (containerText t) := by
  unfold renderContainer Registering.fresh
  cases t with
  | prim p | named name => rfl
  | list e | view e | slice e =>
      have hvoid : e.containsVoid = false := h
      have hasked := request_of_ok (isRepresentable_of_containsVoid hvoid) []
      simp only [bind_of_ok hasked]
      rfl
  | map k v =>
      obtain ⟨hk, hv⟩ := Bool.or_eq_false_iff.1 h
      have hkey := request_of_ok (isRepresentable_of_containsVoid hk) []
      have hvalue := request_of_ok (isRepresentable_of_containsVoid hv) (Containers.register [] k)
      simp only [bind_of_ok hkey, bind_of_ok hvalue]
      rfl

theorem renderContainers_eq_text {known : Containers} (h : ∀ t ∈ known, t.containsVoid = false) :
    renderContainers known = .ok known.text := by
  induction known with
  | nil => rfl
  | cons t rest ih =>
      obtain ⟨ht, hrest⟩ := List.forall_mem_cons.1 h
      rw [renderContainers, fresh_renderContainer ht, ih hrest]
      rfl

/-- The line starts the definition of a type. -/
def definesType (line : String) : Bool := "typedef struct ".toList.isPrefixOf line.toList

/-- The fields of the struct of a container. -/
def structFields : Ty → String
  | .list e => spell e ++ "* ptr; int64_t len; int64_t cap;"
  | .view e | .slice e => spell e ++ "* ptr; int64_t len;"
  | .map k v => spell k ++ "* keys; " ++ spell v ++ "* values; int64_t len; int64_t cap;"
  | .prim _ | .named _ => ""

/-- The definition of the struct of a container. -/
def structDefinition (t : Ty) : String := structType (containerName t) (structFields t)

theorem definesType_eq_false {line : String} (h : line.toList.head? ≠ some 't') : definesType line = false := by
  unfold definesType
  cases hline : line.toList with
  | nil => rfl
  | cons c rest =>
      have hc : 't' ≠ c := fun heq => h (by rw [hline, heq]; rfl)
      have htypedef : "typedef struct ".toList = 't' :: "ypedef struct ".toList := by decide
      rw [htypedef, List.isPrefixOf_cons_cons, beq_false_of_ne hc, Bool.false_and]

theorem definesType_structType (name fields : String) : definesType (structType name fields) = true := by
  have hstart : structType name fields = "typedef struct " ++
      (name ++ (" " ++ (braces fields ++ (" " ++ (name ++ ";"))))) := by
    unfold structType
    simp only [String.append_assoc]
  rw [hstart, definesType, String.toList_append]
  generalize "typedef struct ".toList = start
  exact List.isPrefixOf_iff_prefix.2 (List.prefix_append start _)

theorem definesType_append {head : String} (h : head.toList.head?.any (· != 't')) (rest : String) :
    definesType (head ++ rest) = false := by
  refine definesType_eq_false ?_
  rw [String.toList_append, List.head?_append]
  cases hhead : head.toList.head? with
  | none => simp [hhead] at h
  | some c => simpa [hhead] using h

theorem filter_block {head : String} (h : definesType (head ++ " \x7b") = false) (body : Lines) :
    (block head body).filter definesType = [] := by
  refine List.filter_eq_nil_iff.2 fun line hline => ?_
  rw [Bool.not_eq_true]
  rcases List.mem_cons.1 hline with rfl | hline
  · exact h
  rcases List.mem_append.1 hline with hline | hline
  · obtain ⟨text, -, rfl⟩ := List.mem_map.1 hline
    exact definesType_append rfl text
  · obtain rfl := List.mem_singleton.1 hline
    exact definesType_eq_false (by decide)

theorem filter_listText (n e : String) :
    (listText n e).filter definesType = [structType n (e ++ "* ptr; int64_t len; int64_t cap;")] := by
  have hempty : definesType "" = false := rfl
  have hstatic : ∀ rest, definesType ("static " ++ rest) = false := definesType_append rfl
  have hvoid : ∀ rest, definesType ("static void " ++ rest) = false := definesType_append rfl
  simp [listText, definesType_structType, filter_block, String.append_assoc, hstatic, hvoid, hempty]

theorem filter_windowText (n e : String) :
    (windowText n e).filter definesType = [structType n (e ++ "* ptr; int64_t len;")] := by
  have hempty : definesType "" = false := rfl
  simp [windowText, definesType_structType, hempty]

theorem filter_mapText (n k v eq : String) :
    (mapText n k v eq).filter definesType =
      [structType n (k ++ "* keys; " ++ v ++ "* values; int64_t len; int64_t cap;")] := by
  have hempty : definesType "" = false := rfl
  have hstatic : ∀ rest, definesType ("static " ++ rest) = false := definesType_append rfl
  have hvoid : ∀ rest, definesType ("static void " ++ rest) = false := definesType_append rfl
  have hint : ∀ rest, definesType ("static int64_t " ++ rest) = false := definesType_append rfl
  have hbool : ∀ rest, definesType ("static bool " ++ rest) = false := definesType_append rfl
  simp [mapText, definesType_structType, filter_block, String.append_assoc, hstatic, hvoid, hint, hbool, hempty]

theorem filter_containerText {t : Ty} (h : t.container?.isSome) :
    (containerText t).filter definesType = [structDefinition t] := by
  cases t with
  | prim p => cases h
  | named name => cases h
  | list e => exact filter_listText _ _
  | view e => exact filter_windowText _ _
  | slice e => exact filter_windowText _ _
  | map k v => exact filter_mapText _ _ _ _

/-- The definitions stand in the order of registration. -/
theorem filter_text {known : Containers} (h : ∀ t ∈ known, t.container?.isSome) :
    known.text.filter definesType = known.map structDefinition := by
  induction known with
  | nil => rfl
  | cons t rest ih =>
      obtain ⟨ht, hrest⟩ := List.forall_mem_cons.1 h
      rw [Containers.text, List.flatMap_cons, List.filter_append, filter_containerText ht, ← Containers.text,
        ih hrest, List.map_cons, List.singleton_append]

/-- **Containers are registered in the order in which they can be defined.** Behind any calls for C types,
whether they succeed or fail: no container is registered twice, none mentions `void`, and what stands inside one
stands before it. A call fails exactly if the type is a container with `void` somewhere inside it, and one that
succeeds leaves every container of its type registered. The definitions can always be written: one for each
registered container, in their order. -/
theorem registered_inOrder (types : List Ty) :
    (registered types).Nodup ∧
    (∀ t ∈ registered types, t.containsVoid = false) ∧
    (∀ front t back, registered types = front ++ t :: back → ∀ u ∈ t.inner, u ∈ front) ∧
    (∀ t, (∃ e known, request t (registered types) = .error e known) ↔ t.container?.isSome ∧ t.containsVoid) ∧
    (∀ t text known, request t (registered types) = .ok text known → ∀ u ∈ t.containers, u ∈ known) ∧
    renderContainers (registered types) = .ok (registered types).text ∧
    (registered types).text.filter definesType = (registered types).map structDefinition := by
  have hordered := ordered_registered types
  refine ⟨hordered.nodup, fun t ht => (hordered.mem t ht).2, fun front t back hsplit => hordered.before hsplit,
    fun t => ?_, fun t text known hcall => ?_, renderContainers_eq_text fun t ht => (hordered.mem t ht).2,
    filter_text fun t ht => (hordered.mem t ht).1⟩
  · rw [← isRepresentable_eq_false_iff, request_eq]
    cases isRepresentable t <;> simp
  · rw [request_eq] at hcall
    split at hcall
    · next hrepresentable =>
        cases hcall
        exact (registers_register t hordered).complete hrepresentable
    · cases hcall

end C

end ProtoScript
