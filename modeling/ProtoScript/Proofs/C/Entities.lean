import ProtoScript.C.Prelude
import ProtoScript.Proofs.C.Dispatch
import ProtoScript.Proofs.C.Mangled

set_option autoImplicit false

/-!
# When two things of a C file have one name

Names at file scope are put together from the names of the program. Five beginnings keep functions, methods,
dispatchers, foreign functions and everything else apart (`spaces_prefixFree`); within each of them a name
is cut in two by underscores, which names may hold themselves, and the structs of prototypes share their
beginning with those of containers and with the run-time support. Functions outside the program come from the
modules of the library and from the sealed built-in prototypes, and nothing in a name tells from which.
`cName_eq_iff_of_isClean` says exactly which things have one name: the ones in `Entity.Clash`, and no others.
-/

namespace ProtoScript.C

/-! ## Things with names -/

/-- The identifiers in a line, and what stands between them. -/
def words (line : String) : List String :=
  (line.toList.splitBy fun a b => (a.isAlphanum || a == '_') && (b.isAlphanum || b == '_')).map
    String.ofList

/-- The names that the run-time support defines. -/
def runtimeNames : List String :=
  (preludeText.flatMap words).filter fun word => "ps_".toList.isPrefixOf word.toList

/-- Who provides a function that runs outside the program. -/
inductive Provider where
  /-- A module of the library. -/
  | library
  /-- A sealed built-in prototype, whose methods have no body in C. -/
  | handle
  deriving DecidableEq, Repr

/-- A thing that has a name at file scope. -/
inductive Entity where
  /-- The struct of a prototype. -/
  | prototype (name : String)
  /-- The struct of a container type. -/
  | container (ty : Ty)
  | function (name : String)
  | method (proto name : String)
  | dispatcher (proto method : String)
  /-- A function of a module, or a method of a sealed prototype. -/
  | foreign (provider : Provider) (owner name : String)
  | runtime (name : String)
  deriving DecidableEq, Repr

namespace Entity

def cName : Entity → String
  | prototype name => structName name
  | container t => containerName t
  | function name => functionName name
  | method proto name => functionName (Ir.methodName proto name)
  | dispatcher proto name => dispatcherName proto name
  | foreign _ owner name => foreignName owner name
  | runtime name => name

/-- The thing is named by identifiers. -/
def WellNamed : Entity → Prop
  | prototype name => isIdentifier name
  | container t => t.container?.isSome ∧ HasIdentifiers t
  | function name => isIdentifier name
  | method proto name | dispatcher proto name => isIdentifier proto ∧ isIdentifier name
  | foreign _ owner name => isIdentifier owner ∧ isIdentifier name
  | runtime name => name ∈ runtimeNames

end Entity

/-! ## Names cut in two -/

/-- Two names with two underscores between them, cut at another place farther to the right. -/
inductive Recut : String → String → String → String → Prop
  /-- Of three underscores in a row, the first belongs to the name in front. -/
  | edge (left right : String) : Recut left ("_" ++ right) (left ++ "_") right
  | inner (left middle right : String) :
      Recut left (middle ++ "__" ++ right) (left ++ "__" ++ middle) right

section

variable {left right left' right' : String}

theorem Recut.join_eq (h : Recut left right left' right') :
    left ++ "__" ++ right = left' ++ "__" ++ right' := by
  cases h with
  | edge => exact String.toList_injective (by simp)
  | inner => exact String.toList_injective (by simp)

/-- Where the cut is farther to the right, the name in front ends in what the other one starts with. -/
theorem recut_of_append {s : List Char} (hleft : left'.toList = left.toList ++ s)
    (hright : '_' :: '_' :: right.toList = s ++ '_' :: '_' :: right'.toList) :
    (left = left' ∧ right = right') ∨ Recut left right left' right' := by
  match s with
  | [] =>
      simp only [List.nil_append, List.append_nil, List.cons.injEq, true_and] at hleft hright
      exact .inl ⟨(String.toList_injective hleft).symm, String.toList_injective hright⟩
  | [c] =>
      simp only [List.cons_append, List.nil_append, List.cons.injEq, true_and] at hright
      obtain ⟨rfl, hright⟩ := hright
      obtain rfl : right = "_" ++ right' := String.toList_injective (by simp [hright])
      obtain rfl : left' = left ++ "_" := String.toList_injective (by simp [hleft])
      exact .inr (.edge left right')
  | c :: c' :: middle =>
      simp only [List.cons_append, List.cons.injEq] at hright
      obtain ⟨rfl, rfl, hright⟩ := hright
      obtain rfl : right = String.ofList middle ++ "__" ++ right' :=
        String.toList_injective (by simp [hright])
      obtain rfl : left' = left ++ "__" ++ String.ofList middle :=
        String.toList_injective (by simp [hleft])
      exact .inr (.inner left (String.ofList middle) right')

/-- Names with two underscores between them are the same, or cut at different places. -/
theorem join_eq_iff : left ++ "__" ++ right = left' ++ "__" ++ right' ↔
    (left = left' ∧ right = right') ∨ Recut left right left' right' ∨ Recut left' right' left right := by
  constructor
  · intro h
    have hchars := congrArg String.toList h
    simp only [String.toList_append, List.append_assoc] at hchars
    rcases List.append_eq_append_iff.1 hchars with ⟨s, hleft, hright⟩ | ⟨s, hleft, hright⟩
    · exact (recut_of_append hleft hright).imp_right .inl
    · rcases recut_of_append hleft hright with ⟨rfl, rfl⟩ | hrecut
      · exact .inl ⟨rfl, rfl⟩
      · exact .inr (.inr hrecut)
  · rintro (⟨rfl, rfl⟩ | h | h)
    · rfl
    · exact h.join_eq
    · exact h.join_eq.symm

end

/-! ## Things with one name -/

namespace Entity

/-- Two things have one name. -/
inductive Clash : Entity → Entity → Prop
  /-- The prototype is called as a container type is written. -/
  | container (t : Ty) : Clash (prototype (mangle t)) (container t)
  /-- The prototype is called as a part of the run-time support. -/
  | runtime (name : String) : Clash (prototype name) (runtime ("ps_" ++ name))
  | method {proto name proto' name' : String} : Recut proto name proto' name' →
      Clash (method proto name) (method proto' name')
  | dispatcher {proto method proto' method' : String} : Recut proto method proto' method' →
      Clash (dispatcher proto method) (dispatcher proto' method')
  /-- A module is called as a sealed prototype, and a function of it as a method. -/
  | provider (owner name : String) : Clash (foreign .library owner name) (foreign .handle owner name)
  /-- An underscore in the name of an owner or function is taken for the one between them. -/
  | foreign (provider provider' : Provider) (owner middle name : String) :
      Clash (foreign provider owner (middle ++ "_" ++ name))
        (foreign provider' (owner ++ "_" ++ middle) name)

/-- The five beginnings of names. -/
inductive Space where
  | types
  | functions
  | methods
  | dispatchers
  | foreign
  deriving DecidableEq

/-- Every beginning. -/
def Space.all : List Space := [types, functions, methods, dispatchers, foreign]

def Space.text : Space → String
  | types => "ps_"
  | functions => "psf_"
  | methods => "psm_"
  | dispatchers => "psd_"
  | foreign => "psx_"

/-- A thing that is named by identifiers, with the beginning of its name and the rest. -/
inductive Shape : Entity → Space → String → Prop
  | prototype {name : String} : isIdentifier name → Shape (prototype name) .types name
  | container {t : Ty} : t.container?.isSome → HasIdentifiers t → Shape (container t) .types (mangle t)
  | runtime {name : String} : "ps_" ++ name ∈ runtimeNames → Shape (runtime ("ps_" ++ name)) .types name
  | function {name : String} : isIdentifier name → Shape (function name) .functions name
  | method {proto method : String} : isIdentifier proto → isIdentifier method →
      Shape (.method proto method) .methods (proto ++ "__" ++ method)
  | dispatcher {proto method : String} : isIdentifier proto → isIdentifier method →
      Shape (dispatcher proto method) .dispatchers (proto ++ "__" ++ method)
  | foreign {provider : Provider} {owner name : String} : isIdentifier owner → isIdentifier name →
      Shape (foreign provider owner name) .foreign (owner ++ "_" ++ name)

section

variable {a b : Entity} {space space' : Space} {rest rest' : String}

theorem shape_of_wellNamed (h : a.WellNamed) : ∃ space rest, Shape a space rest := by
  cases a with
  | prototype name => exact ⟨_, _, .prototype h⟩
  | container t => exact ⟨_, _, .container h.1 h.2⟩
  | function name => exact ⟨_, _, .function h⟩
  | method proto name => exact ⟨_, _, .method h.1 h.2⟩
  | dispatcher proto method => exact ⟨_, _, .dispatcher h.1 h.2⟩
  | foreign provider owner name => exact ⟨_, _, .foreign h.1 h.2⟩
  | runtime name =>
      obtain ⟨rest, hrest⟩ := List.isPrefixOf_iff_prefix.1 (List.mem_filter.1 h).2
      obtain rfl : name = "ps_" ++ String.ofList rest := String.toList_injective (by simp [← hrest])
      exact ⟨_, _, .runtime h⟩

theorem Shape.cName_eq (h : Shape a space rest) : a.cName = space.text ++ rest := by
  cases h with
  | prototype h => rw [cName, structName, sanitize_of_isIdentifier h]; rfl
  | container _ h => rfl
  | runtime h => rfl
  | function h => exact functionName_of_isIdentifier h
  | method hproto hmethod =>
      rw [cName, functionName_methodName (colon_notMem hproto), memberOf, sanitize_of_isIdentifier hproto,
        sanitize_of_isIdentifier hmethod]
      simp only [Space.text, String.append_assoc]
  | dispatcher hproto hmethod =>
      rw [cName, dispatcherName, memberOf, sanitize_of_isIdentifier hproto,
        sanitize_of_isIdentifier hmethod]
      simp only [Space.text, String.append_assoc]
  | foreign howner hname =>
      rw [cName, foreignName, sanitize_of_isIdentifier howner, sanitize_of_isIdentifier hname]
      simp only [Space.text, String.append_assoc]

/-- No beginning of names is that of another. -/
theorem spaces_prefixFree : ∀ a ∈ Space.all, ∀ b ∈ Space.all,
    a.text.toList.isPrefixOf b.text.toList → a = b := by
  decide +kernel

theorem space_append_inj (h : space.text ++ rest = space'.text ++ rest') :
    space = space' ∧ rest = rest' := by
  have hchars := congrArg String.toList h
  simp only [String.toList_append] at hchars
  have hmem : ∀ space : Space, space ∈ Space.all := fun space => by
    cases space <;> decide
  obtain ⟨hspace, hrest⟩ := mark_append_inj spaces_prefixFree (hmem space) (hmem space') hchars
  exact ⟨hspace, String.toList_injective hrest⟩

/-- The characters of a text that is put together from others. They are found without taking the text
itself apart, which is slow. -/
inductive Spells : String → List Char → Prop
  | text (cs : List Char) : Spells (String.ofList cs) cs
  | append {s t : String} {cs ds : List Char} : Spells s cs → Spells t ds → Spells (s ++ t) (cs ++ ds)

theorem Spells.toList_eq {s : String} {cs : List Char} (h : Spells s cs) : s.toList = cs := by
  induction h with
  | text cs => exact String.toList_ofList
  | append _ _ ih ih' => rw [String.toList_append, ih, ih']

/-- The characters do not begin as the name of a container type. -/
def beginsNoContainer (cs : List Char) : Bool :=
  !(['p', 's', '_'].isPrefixOf cs) ||
    Container.all.all fun k => !(k.name.toList ++ ['_']).isPrefixOf (cs.drop 3)

theorem all_of_spells {lines : Lines} {css : List (List Char)} (h : List.Forall₂ Spells lines css)
    (hcss : css.all fun cs => cs.tails.all beginsNoContainer) :
    ∀ line ∈ lines, ∀ cs ∈ line.toList.tails, beginsNoContainer cs := by
  induction h with
  | nil => exact nofun
  | cons hs _ ih =>
      obtain ⟨hfirst, hrest⟩ := Bool.and_eq_true_iff.1 hcss
      refine List.forall_mem_cons.2 ⟨?_, ih hrest⟩
      rw [hs.toList_eq]
      exact List.all_eq_true.1 hfirst

/-- Nowhere in the run-time support does the name of a container type begin. -/
theorem beginsNoContainer_prelude :
    ∀ line ∈ preludeText, ∀ cs ∈ line.toList.tails, beginsNoContainer cs := by
  simp only [preludeText, preludeTypes, preludeMemory, preludeChecks, preludeNumbers, preludeStrings,
    preludePrinting, allocation, block, blockThen, C.failure, checkFunction, conversion, indent,
    shortFunction, encodedByte, braces, walkBytes, choices, List.intercalate, List.intersperse,
    List.cons_append, List.nil_append, List.map_cons, List.map_nil, List.flatten_cons,
    List.flatten_nil, List.append_nil]
  apply all_of_spells
  · repeat' first
      | apply List.Forall₂.cons
      | exact .nil
      | apply Spells.append
      | exact Spells.text _
  · decide +kernel

/-- No part of the run-time support is called as a container type. -/
theorem runtime_ne_container : ∀ name ∈ runtimeNames, ∀ k ∈ Container.all,
    ¬ ("ps_" ++ k.name ++ "_").toList.isPrefixOf name.toList := by
  intro name hname k hk hprefix
  obtain ⟨hname, _⟩ := List.mem_filter.1 hname
  obtain ⟨line, hline, hword⟩ := List.mem_flatMap.1 hname
  obtain ⟨cs, hcs, rfl⟩ := List.mem_map.1 hword
  obtain ⟨before, behind, hsplit⟩ := List.append_of_mem hcs
  -- The word begins a tail of its line.
  have htail : cs ++ behind.flatten ∈ line.toList.tails := by
    have hflat := congrArg List.flatten hsplit
    rw [List.flatten_splitBy, List.flatten_append, List.flatten_cons] at hflat
    exact (List.mem_tails _ _).2 ⟨before.flatten, hflat.symm⟩
  have hnone := beginsNoContainer_prelude line hline _ htail
  have hps : "ps_".toList = ['p', 's', '_'] := String.toList_ofList
  have hbar : "_".toList = ['_'] := String.toList_ofList
  rw [String.toList_ofList, List.isPrefixOf_iff_prefix, String.toList_append, String.toList_append, hps,
    hbar] at hprefix
  obtain ⟨rest, rfl⟩ := hprefix
  have hbegins : beginsNoContainer
      ('p' :: 's' :: '_' :: ((k.name.toList ++ ['_']) ++ (rest ++ behind.flatten))) := by
    simpa using hnone
  have hmark := List.all_eq_true.1 hbegins k hk
  rw [List.drop_succ_cons, List.drop_succ_cons, List.drop_succ_cons, List.drop_zero] at hmark
  have hself := List.isPrefixOf_iff_prefix.2 (List.prefix_append (k.name.toList ++ ['_']) (rest ++ behind.flatten))
  rw [hself] at hmark
  cases hmark

theorem structName_ne_runtime {t : Ty} {name : String} (ht : t.container?.isSome)
    (hname : "ps_" ++ name ∈ runtimeNames) : mangle t ≠ name := by
  rintro rfl
  obtain ⟨k, hk⟩ := Option.isSome_iff_exists.1 ht
  have hprim : t.primitive? = none := by
    cases t <;> first | rfl | cases ht
  refine runtime_ne_container _ hname k (by cases k <;> decide) ?_
  rw [List.isPrefixOf_iff_prefix]
  refine ⟨behindMark t, ?_⟩
  simp [toList_mangle, kind, hk, hprim, mark]

theorem foreign_cases {owner name owner' name' : String}
    (h : owner ++ "_" ++ name = owner' ++ "_" ++ name') :
    (owner = owner' ∧ name = name') ∨
      (∃ middle, owner' = owner ++ "_" ++ middle ∧ name = middle ++ "_" ++ name') ∨
      ∃ middle, owner = owner' ++ "_" ++ middle ∧ name' = middle ++ "_" ++ name := by
  have hpart : ∀ {left right left' right' : String} {s : List Char},
      left'.toList = left.toList ++ s → '_' :: right.toList = s ++ '_' :: right'.toList →
      (left = left' ∧ right = right') ∨
        ∃ middle, left' = left ++ "_" ++ middle ∧ right = middle ++ "_" ++ right' := by
    intro left right left' right' s hleft hright
    cases s with
    | nil =>
        simp only [List.nil_append, List.append_nil, List.cons.injEq, true_and] at hleft hright
        exact .inl ⟨(String.toList_injective hleft).symm, String.toList_injective hright⟩
    | cons c middle =>
        simp only [List.cons_append, List.cons.injEq] at hright
        obtain ⟨rfl, hright⟩ := hright
        exact .inr ⟨String.ofList middle, String.toList_injective (by simp [hleft]),
          String.toList_injective (by simp [hright])⟩
  have hchars := congrArg String.toList h
  simp only [String.toList_append, List.append_assoc] at hchars
  rcases List.append_eq_append_iff.1 hchars with ⟨s, hleft, hright⟩ | ⟨s, hleft, hright⟩
  · exact (hpart hleft hright).imp_right .inl
  · rcases hpart hleft hright with ⟨rfl, rfl⟩ | hmiddle
    · exact .inl ⟨rfl, rfl⟩
    · exact .inr (.inr hmiddle)

/-- Functions of one owner and name are the same, or one of each provider. -/
theorem provider_cases (provider provider' : Provider) (owner name : String) :
    foreign provider owner name = foreign provider' owner name ∨
      Clash (foreign provider owner name) (foreign provider' owner name) ∨
      Clash (foreign provider' owner name) (foreign provider owner name) := by
  cases provider <;> cases provider'
  · exact .inl rfl
  · exact .inr (.inl (.provider owner name))
  · exact .inr (.inr (.provider owner name))
  · exact .inl rfl

/-- In one space, two things with one name are the same or clash. -/
theorem Shape.eq_or_clash (ha : Shape a space rest) (hb : Shape b space rest') (h : rest = rest') :
    a = b ∨ Clash a b ∨ Clash b a := by
  cases ha with
  | prototype ha =>
      cases hb with
      | prototype hb =>
          subst h
          exact .inl rfl
      | container hkb hb =>
          subst h
          exact .inr (.inl (.container _))
      | runtime hb =>
          subst h
          exact .inr (.inl (.runtime _))
  | container hka ha =>
      cases hb with
      | prototype hb =>
          subst h
          exact .inr (.inr (.container _))
      | container hkb hb =>
          exact .inl (congrArg Entity.container (containerName_inj ha hb (congrArg ("ps_" ++ ·) h)))
      | runtime hb => exact absurd h (structName_ne_runtime hka hb)
  | runtime ha =>
      cases hb with
      | prototype hb =>
          subst h
          exact .inr (.inr (.runtime _))
      | container hkb hb => exact absurd h.symm (structName_ne_runtime hkb ha)
      | runtime hb =>
          subst h
          exact .inl rfl
  | function ha =>
      cases hb
      subst h
      exact .inl rfl
  | method hpa hma =>
      cases hb with
      | method hpb hmb =>
          rcases join_eq_iff.1 h with ⟨rfl, rfl⟩ | hrecut | hrecut
          · exact .inl rfl
          · exact .inr (.inl (.method hrecut))
          · exact .inr (.inr (.method hrecut))
  | dispatcher hpa hma =>
      cases hb with
      | dispatcher hpb hmb =>
          rcases join_eq_iff.1 h with ⟨rfl, rfl⟩ | hrecut | hrecut
          · exact .inl rfl
          · exact .inr (.inl (.dispatcher hrecut))
          · exact .inr (.inr (.dispatcher hrecut))
  | foreign hoa hna =>
      cases hb with
      | foreign hob hnb =>
          rcases foreign_cases h with ⟨rfl, rfl⟩ | ⟨middle, rfl, rfl⟩ | ⟨middle, rfl, rfl⟩
          · exact provider_cases _ _ _ _
          · exact .inr (.inl (.foreign _ _ _ _ _))
          · exact .inr (.inr (.foreign _ _ _ _ _))

theorem Clash.cName_eq (h : Clash a b) (ha : a.WellNamed) (hb : b.WellNamed) : a.cName = b.cName := by
  cases h with
  | container t => exact (Shape.prototype ha).cName_eq
  | runtime name => exact (Shape.prototype ha).cName_eq
  | method h =>
      rw [(Shape.method ha.1 ha.2).cName_eq, (Shape.method hb.1 hb.2).cName_eq, h.join_eq]
  | dispatcher h =>
      rw [(Shape.dispatcher ha.1 ha.2).cName_eq, (Shape.dispatcher hb.1 hb.2).cName_eq, h.join_eq]
  | provider owner name => rfl
  | foreign provider provider' owner middle name =>
      rw [(Shape.foreign ha.1 ha.2).cName_eq, (Shape.foreign hb.1 hb.2).cName_eq]
      simp only [String.append_assoc]

/-- Things that are named by identifiers have one name exactly if they clash. -/
theorem cName_eq_iff (ha : a.WellNamed) (hb : b.WellNamed) :
    a.cName = b.cName ↔ a = b ∨ Clash a b ∨ Clash b a := by
  constructor
  · intro h
    obtain ⟨space, rest, hsa⟩ := shape_of_wellNamed ha
    obtain ⟨space', rest', hsb⟩ := shape_of_wellNamed hb
    rw [hsa.cName_eq, hsb.cName_eq] at h
    obtain ⟨rfl, hrest⟩ := space_append_inj h
    exact hsa.eq_or_clash hsb hrest
  · rintro (rfl | h | h)
    · rfl
    · exact h.cName_eq ha hb
    · exact (h.cName_eq hb ha).symm

end

/-! ## The things of a program -/

/-- The prototype can be named in the C file of a program: the program knows it, or a function of the library
takes or returns it. -/
def Nameable (p : Program) (library : Library) (name : String) : Prop :=
  p.hierarchy.1.contains name ∨
    ∃ l ∈ library.modules, ∃ f ∈ l.functions, ∃ t ∈ f.ret :: f.params, name ∈ t.names

/-- The thing is one that the C file of a program can name: a prototype, function or method of the program, a
built-in method with a body in C, a dispatcher for a method of a prototype, a container of prototypes that the
program or the library names, a function of the library, a method of a sealed built-in prototype, or a part of
the run-time support. -/
inductive Of (p : Program) (library : Library) : Entity → Prop
  | prototype {name : String} : Nameable p library name → Of p library (prototype name)
  | container {t : Ty} : t.container?.isSome → (∀ name ∈ t.names, Nameable p library name) →
      Of p library (container t)
  | function {f : FunctionDecl} : (none, f) ∈ p.bodies → Of p library (function f.name)
  | method {proto : String} {f : FunctionDecl} : (some proto, f) ∈ p.bodies →
      Of p library (method proto f.name)
  | default (d : DefaultMethod) : Of p library (method d.owner d.name)
  | dispatcher {proto name : String} : (p.hierarchy.1.method? proto name).isSome →
      Of p library (dispatcher proto name)
  | foreign {l : LibraryModule} {f : LibraryFunction} : l ∈ library.modules → f ∈ l.functions →
      Of p library (foreign .library l.name f.name)
  | handle {b : BuiltinPrototype} {m : BuiltinMethod} : b ∈ Builtin.prototypes → b.isSealed →
      m ∈ b.methods → Of p library (foreign .handle b.name m.name)
  | runtime {name : String} : name ∈ runtimeNames → Of p library (runtime name)

/-- The modules of the library, their functions and the prototypes that these take or return are named by
identifiers. -/
def NamedLibrary (library : Library) : Prop :=
  ∀ l ∈ library.modules, isIdentifier l.name ∧ ∀ f ∈ l.functions,
    isIdentifier f.name ∧ ∀ t ∈ f.ret :: f.params, ∀ name ∈ t.names, isIdentifier name

section

variable {p : Program} {library : Library} {a b : Entity}

theorem hasIdentifiers_of_names {t : Ty} (h : ∀ name ∈ t.names, isIdentifier name) : HasIdentifiers t := by
  induction t with
  | prim _ => trivial
  | named name => exact h name (List.mem_singleton_self name)
  | list t ih | view t ih | slice t ih => exact ih h
  | map k v ihk ihv =>
      obtain ⟨hk, hv⟩ := List.forall_mem_append.1 h
      exact ⟨ihk hk, ihv hv⟩

theorem method_mem_declaredNames {proto : String} {f : FunctionDecl} (hf : (some proto, f) ∈ p.bodies) :
    f.name ∈ p.declaredNames := by
  obtain ⟨d, hd, rfl, md, hmd, rfl⟩ := mem_bodies.1 hf
  exact List.mem_append_right _ (List.mem_flatMap.2 ⟨d, hd, List.mem_cons_of_mem _ (List.mem_map_of_mem hmd)⟩)

theorem isIdentifier_builtins : ∀ b ∈ Builtin.prototypes, isIdentifier b.name ∧
    ∀ m ∈ b.methods, isIdentifier m.name := by
  decide +kernel

/-- The names of methods are identifiers. -/
theorem isIdentifier_of_method? (hclean : (p.analyze library).isClean)
    (hnames : ∀ x ∈ p.declaredNames, isIdentifier x) {proto name : String} {q : Prototype} {info : MethodInfo}
    (hget : (p.analyze library).hierarchy.get? proto = some q) (hinfo : q.method? name = some info) :
    isIdentifier name := by
  cases hbuiltin : q.isBuiltin with
  | true =>
      obtain ⟨hq, _⟩ := Hierarchy.of_get? hget
      obtain ⟨hmem, rfl⟩ := Hierarchy.of_method? hinfo
      obtain ⟨b, hb, rfl⟩ := List.mem_map.1 (Hierarchy.builtin_of_isBuiltin hq hbuiltin)
      obtain ⟨m, hm, rfl⟩ := List.mem_map.1 hmem
      exact (isIdentifier_builtins b hb).2 m hm
  | false =>
      obtain ⟨f, hf, rfl, _⟩ := body_of_method? hclean hget hbuiltin hinfo
      exact hnames _ (method_mem_declaredNames hf)

theorem isIdentifier_of_contains (hclean : (p.analyze library).isClean)
    (hnames : ∀ x ∈ p.declaredNames, isIdentifier x) {name : String} (hname : p.hierarchy.1.contains name) :
    isIdentifier name := by
  obtain ⟨q, hget⟩ := Hierarchy.get?_of_contains hname
  exact isIdentifier_of_get? hclean hnames hget

theorem Nameable.isIdentifier (hclean : (p.analyze library).isClean)
    (hnames : ∀ x ∈ p.declaredNames, isIdentifier x) (hlibrary : NamedLibrary library) {name : String}
    (h : Nameable p library name) : isIdentifier name := by
  rcases h with h | ⟨l, hl, f, hf, t, ht, hname⟩
  · exact isIdentifier_of_contains hclean hnames h
  · exact ((hlibrary l hl).2 f hf).2 t ht name hname

theorem isIdentifier_default (d : DefaultMethod) : isIdentifier d.owner ∧ isIdentifier d.name := by
  cases d <;> decide +kernel

theorem Of.wellNamed (hclean : (p.analyze library).isClean)
    (hnames : ∀ x ∈ p.declaredNames, isIdentifier x) (hlibrary : NamedLibrary library)
    (h : a.Of p library) : a.WellNamed := by
  cases h with
  | prototype h => exact h.isIdentifier hclean hnames hlibrary
  | container hk ht =>
      exact ⟨hk, hasIdentifiers_of_names fun name hname => (ht name hname).isIdentifier hclean hnames hlibrary⟩
  | function hf =>
      exact hnames _ (List.mem_append_left _ (List.mem_map_of_mem (mem_bodies_none.1 hf)))
  | method hf => exact ⟨hnames _ (mem_declaredNames hf), hnames _ (method_mem_declaredNames hf)⟩
  | dispatcher h =>
      obtain ⟨info, hinfo⟩ := Option.isSome_iff_exists.1 h
      obtain ⟨q, hq, hown⟩ := List.exists_of_findSome?_eq_some hinfo
      refine ⟨isIdentifier_of_contains hclean hnames ?_, isIdentifier_of_method? hclean hnames (Hierarchy.get?_of_mem_ancestors hq).1 hown⟩
      by_contra hnot
      have hnone := Option.not_isSome_iff_eq_none.1 hnot
      rw [Hierarchy.ancestors_of_get?_eq_none hnone] at hq
      cases hq
  | default d => exact isIdentifier_default d
  | foreign hl hf => exact ⟨(hlibrary _ hl).1, ((hlibrary _ hl).2 _ hf).1⟩
  | handle hb _ hm => exact ⟨(isIdentifier_builtins _ hb).1, (isIdentifier_builtins _ hb).2 _ hm⟩
  | runtime h => exact h

/-- In a program without problems whose names are identifiers, two things have one name at file scope exactly if
they clash: if a prototype is called as a container type is written or as a part of the run-time support, if a
module is called as a sealed prototype and a function of it as one of its methods, or if an underscore in the
name of a prototype, method, module or function is taken for one between two names. -/
theorem cName_eq_iff_of_isClean (hclean : (p.analyze library).isClean)
    (hnames : ∀ x ∈ p.declaredNames, isIdentifier x) (hlibrary : NamedLibrary library)
    (ha : a.Of p library) (hb : b.Of p library) :
    a.cName = b.cName ↔ a = b ∨ Clash a b ∨ Clash b a :=
  cName_eq_iff (ha.wellNamed hclean hnames hlibrary) (hb.wellNamed hclean hnames hlibrary)

end

end Entity

/-- A program that uses lists of numbers and has a prototype with the name of their struct. -/
def numbers : Program where
  file := "numbers.pss"
  imports := []
  decls :=
    [ .prototype ⟨"list_int", none, false, [], [], .origin⟩,
      .function
        { name := "numbers", params := [], ret := .list .int
          body := [.ret .origin (some (.list {} [.literal {} (.int 1)]))] } ]

/-- A library whose only module is called as a sealed prototype. -/
def paths : Library := ⟨[{ name := "Path", functions := [⟨"name", [], .string⟩] }]⟩

/-- The struct of the prototype and that of the lists have one name, and so have the function of the module and the
method of the sealed prototype; the function of the program has a name of its own. -/
theorem cName_eq_numbers :
    (numbers.analyze paths).isClean ∧
      (Entity.prototype "list_int").cName = (Entity.container (.list .int)).cName ∧
      (Entity.foreign .library "Path" "name").cName = (Entity.foreign .handle "Path" "name").cName ∧
      (Entity.prototype "list_int").cName ≠ (Entity.function "numbers").cName := by
  have hclean : (numbers.analyze paths).isClean := by decide +kernel
  have hnames : ∀ x ∈ numbers.declaredNames, isIdentifier x := by decide +kernel
  have hlibrary : Entity.NamedLibrary paths := by
    unfold Entity.NamedLibrary
    decide +kernel
  have hproto : (Entity.prototype "list_int").Of numbers paths := .prototype (.inl (by decide +kernel))
  have hlist : (Entity.container (.list .int)).Of numbers paths := .container rfl nofun
  have hmodule : (Entity.foreign .library "Path" "name").Of numbers paths :=
    Entity.Of.foreign (l := { name := "Path", functions := [⟨"name", [], .string⟩] })
      (f := ⟨"name", [], .string⟩) (List.mem_singleton_self _) (List.mem_singleton_self _)
  have hhandle : (Entity.foreign .handle "Path" "name").Of numbers paths := by
    have hsealed : ∃ b ∈ Builtin.prototypes, b.isSealed ∧ b.name = "Path" ∧
        ∃ m ∈ b.methods, m.name = "name" := by decide +kernel
    obtain ⟨b, hb, hseal, hname, m, hm, hmethod⟩ := hsealed
    exact hname ▸ hmethod ▸ .handle hb hseal hm
  have hbody : ∃ f, (none, f) ∈ numbers.bodies ∧ f.name = "numbers" :=
    ⟨_, List.mem_singleton_self _, rfl⟩
  have hfunction : (Entity.function "numbers").Of numbers paths := by
    obtain ⟨f, hf, hname⟩ := hbody
    exact hname ▸ .function hf
  have hclash : Entity.Clash (.prototype "list_int") (.container (.list .int)) :=
    Entity.Clash.container (.list .int)
  have hapart : ∀ x y, ¬ Entity.Clash (.prototype x) (.function y) ∧
      ¬ Entity.Clash (.function y) (.prototype x) := fun _ _ => ⟨nofun, nofun⟩
  refine ⟨hclean, ?_, ?_, fun h => ?_⟩
  · exact (Entity.cName_eq_iff_of_isClean hclean hnames hlibrary hproto hlist).2 (.inr (.inl hclash))
  · exact (Entity.cName_eq_iff_of_isClean hclean hnames hlibrary hmodule hhandle).2
      (.inr (.inl (.provider "Path" "name")))
  · rcases (Entity.cName_eq_iff_of_isClean hclean hnames hlibrary hproto hfunction).1 h with h | h | h
    · cases h
    · exact (hapart _ _).1 h
    · exact (hapart _ _).2 h

end ProtoScript.C
