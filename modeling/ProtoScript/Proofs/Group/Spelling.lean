import ProtoScript.Proofs.Constant.Evaluate
import ProtoScript.Proofs.Group.Table

set_option autoImplicit false

/-!
# Members by name and by value

A member of a group whose value is a literal can be named behind its declaration, or the literal can be written
instead of the name. The group is the same, whatever the values are in which the member is named
(`Group.ofDecl_of_writesOut`). A whole number is an `int` where it is written, and a member of a group of bytes is
a `byte`. So in such a group the literal is written with a cast (`Expr.written`).

The walk over the members carries what an environment has to say about the two spellings (`ConstEnv.Binds`). Within
it an expression has the same value in either form (`Expr.WritesOut.agree`).
-/

namespace ProtoScript

/-- Both spellings of a member of a group are bound to a value, and the name is not that of an owner of
constants. -/
structure ConstEnv.Binds (env : ConstEnv) (group member : String) (v : Constant) : Prop where
  bare : env.get? member = some v
  full : env.get? (qualified group member) = some v
  owner : ∀ x, env.get? (qualified member x) = none

namespace Expr

/-- A literal as an expression that has the value of a member with the literal. There is no literal for a
`byte`. -/
def written (base : Ty) (value : Literal) (note : Note) : Expr :=
  if base = .byte then .cast note (.literal note value) .byte else .literal note value

/-- The second expression is the first one with another expression at some of the places where a member of a group
is named. The note at such a place may be another one. -/
inductive WritesOut (group member : String) (value : Note → Expr) : Expr → Expr → Prop where
  | same (e : Expr) : WritesOut group member value e e
  | bare (note note' : Note) : WritesOut group member value (.ident note member) (value note')
  | full (note owner note' : Note) :
    WritesOut group member value (.member note (.ident owner group) member) (value note')
  | unary {e e' : Expr} (note : Note) (op : UnaryOp) (operand : WritesOut group member value e e') :
    WritesOut group member value (.unary note op e) (.unary note op e')
  | binary {l l' r r' : Expr} (note : Note) (op : BinaryOp) (left : WritesOut group member value l l')
    (right : WritesOut group member value r r') :
    WritesOut group member value (.binary note op l r) (.binary note op l' r')
  | ternary {c c' a a' b b' : Expr} (note : Note) (condition : WritesOut group member value c c')
    (thenValue : WritesOut group member value a a') (elseValue : WritesOut group member value b b') :
    WritesOut group member value (.ternary note c a b) (.ternary note c' a' b')
  | call {args args' : List Expr} (note : Note) (callee : String)
    (all : List.Forall₂ (WritesOut group member value) args args') :
    WritesOut group member value (.call note callee args) (.call note callee args')
  | methodCall {e e' : Expr} {args args' : List Expr} (note : Note) (method : String)
    (receiver : WritesOut group member value e e') (all : List.Forall₂ (WritesOut group member value) args args') :
    WritesOut group member value (.methodCall note e method args) (.methodCall note e' method args')
  | member {e e' : Expr} (note : Note) (name : String) (object : WritesOut group member value e e') :
    WritesOut group member value (.member note e name) (.member note e' name)
  | index {e e' i i' : Expr} (note : Note) (object : WritesOut group member value e e')
    (position : WritesOut group member value i i') :
    WritesOut group member value (.index note e i) (.index note e' i')
  | cast {e e' : Expr} (note : Note) (target : Ty) (operand : WritesOut group member value e e') :
    WritesOut group member value (.cast note e target) (.cast note e' target)
  | list {items items' : List Expr} (note : Note)
    (all : List.Forall₂ (WritesOut group member value) items items') :
    WritesOut group member value (.list note items) (.list note items')
  | map {entries entries' : List (Expr × Expr)} (note : Note)
    (keys : List.Forall₂ (WritesOut group member value) (entries.map Prod.fst) (entries'.map Prod.fst))
    (values : List.Forall₂ (WritesOut group member value) (entries.map Prod.snd) (entries'.map Prod.snd)) :
    WritesOut group member value (.map note entries) (.map note entries')

/-- Both expressions are constants, or neither, and they have the same value. -/
def Agree (env : ConstEnv) (e e' : Expr) : Prop :=
  e'.isConstant env = e.isConstant env ∧ e'.constantValue? env = e.constantValue? env

theorem Agree.evaluate? {env : ConstEnv} {e e' : Expr} (h : Agree env e e') :
    e'.evaluate? env = e.evaluate? env := by
  refine Option.ext fun c => ?_
  rw [evaluate?_eq_some_iff, evaluate?_eq_some_iff, h.1, h.2]

/-- Only members of names are constants. -/
theorem not_isConstant_member (env : ConstEnv) {e : Expr} (h : e.ident? = none) (note : Note) (name : String) :
    (Expr.member note e name).isConstant env = false ∧ (Expr.member note e name).constantValue? env = none := by
  cases e with
  | ident => cases h
  | _ => exact ⟨rfl, rfl⟩

namespace WritesOut

variable {env : ConstEnv} {group member : String} {value : Note → Expr} {v : Constant}

/-- What is written is a constant with the value of the member. -/
structure Means (env : ConstEnv) (value : Note → Expr) (v : Constant) : Prop where
  isConstant : ∀ note, (value note).isConstant env
  constantValue : ∀ note, (value note).constantValue? env = some v
  ident : ∀ note, (value note).ident? = none

/-- A constant in front of a dot is not the name of an owner. -/
theorem agree_member (hbinds : env.Binds group member v) (hvalue : Means env value v) {e e' : Expr}
    (h : WritesOut group member value e e') (note : Note) (name : String) :
    Agree env (.member note e name) (.member note e' name) := by
  have hneither (he : e.ident? = none) (he' : e'.ident? = none) :
      Agree env (.member note e name) (.member note e' name) := by
    obtain ⟨hconst, hval⟩ := not_isConstant_member env he note name
    obtain ⟨hconst', hval'⟩ := not_isConstant_member env he' note name
    exact ⟨hconst'.trans hconst.symm, hval'.trans hval.symm⟩
  cases h with
  | same => exact ⟨rfl, rfl⟩
  | bare _ note' =>
      obtain ⟨hconst, hval⟩ := not_isConstant_member env (hvalue.ident note') note name
      refine ⟨?_, ?_⟩
      · rw [hconst, isConstant, hbinds.owner]
        rfl
      · rw [hval, constantValue?, hbinds.owner]
  | full _ _ note' => exact hneither rfl (hvalue.ident note')
  | _ => exact hneither rfl rfl

/-- In an environment that binds the member, writing it out changes nothing. -/
theorem agree (hbinds : env.Binds group member v) (hvalue : Means env value v) {e e' : Expr}
    (h : WritesOut group member value e e') : Agree env e e' := by
  cases h with
  | same => exact ⟨rfl, rfl⟩
  | bare _ note' =>
      refine ⟨?_, ?_⟩
      · rw [hvalue.isConstant note', isConstant, hbinds.bare]
        rfl
      · rw [hvalue.constantValue note', constantValue?, hbinds.bare]
  | full _ _ note' =>
      refine ⟨?_, ?_⟩
      · rw [hvalue.isConstant note', isConstant, hbinds.full]
        rfl
      · rw [hvalue.constantValue note', constantValue?, hbinds.full]
  | unary _ op operand =>
      obtain ⟨hconst, hval⟩ := agree hbinds hvalue operand
      simp only [Agree, isConstant, constantValue?, hconst, hval, and_self]
  | binary _ op left right =>
      obtain ⟨hconst, hval⟩ := agree hbinds hvalue left
      obtain ⟨hconst', hval'⟩ := agree hbinds hvalue right
      simp only [Agree, isConstant, constantValue?, hconst, hval, hconst', hval', and_self]
  | ternary _ condition thenValue elseValue =>
      obtain ⟨hconst, hval⟩ := agree hbinds hvalue condition
      obtain ⟨hconst', hval'⟩ := agree hbinds hvalue thenValue
      obtain ⟨hconst'', hval''⟩ := agree hbinds hvalue elseValue
      simp only [Agree, isConstant, constantValue?, hconst, hval, hconst', hval', hconst'', hval'', and_self]
  | cast _ target operand =>
      obtain ⟨hconst, hval⟩ := agree hbinds hvalue operand
      simp only [Agree, isConstant, constantValue?, hconst, hval, and_self]
  | member note name object => exact agree_member hbinds hvalue object note name
  | call | methodCall | index | list | map =>
      -- None of these is a constant, whatever its parts are.
      exact ⟨rfl, rfl⟩

/-- Either the member is all there is, or the expression stays where it is, and a name stays a name. -/
theorem evaluate?_or_same (hbinds : env.Binds group member v) {e e' : Expr} (h : WritesOut group member value e e') :
    e.evaluate? env = some v ∨ (e'.span = e.span ∧ e'.ident? = e.ident?) := by
  cases h with
  | bare note => exact .inl (evaluate?_ident hbinds.bare note)
  | full note note' => exact .inl (evaluate?_member hbinds.full note note')
  | _ => exact .inr ⟨rfl, rfl⟩

end WritesOut

end Expr

namespace Group

/-- Only for a `byte` another value is kept than is written. -/
theorem eq_of_stored? {base : Ty} {w v : Constant} (hbase : base ≠ .byte) (h : stored? base w = some v) : w = v := by
  unfold stored? at h
  split at h
  case isTrue =>
    unfold coerce? at h
    split at h
    case h_1 => exact absurd rfl hbase
    case h_2 =>
      split at h
      case isTrue => exact Option.some.inj h
      case isFalse => cases h
  case isFalse => exact Option.some.inj h

/-- What is kept of a value is a value of which all is kept. -/
theorem stored?_stored {base : Ty} {w v : Constant} (h : stored? base w = some v) : stored? base v = some v := by
  by_cases hscalar : base.isScalar
  · rw [stored?, if_pos hscalar] at h ⊢
    have hty := ty_of_coerce? h
    unfold coerce?
    split
    case h_1 => cases hty
    case h_2 => exact if_pos hty
  · rw [stored?, if_neg hscalar]

/-- A literal is written with the value that is kept of it. -/
theorem means_written {base : Ty} {value : Literal} {v : Constant} (h : stored? base value.toConstant = some v)
    (env : ConstEnv) : Expr.WritesOut.Means env (Expr.written base value) v := by
  by_cases hbase : base = .byte
  · subst hbase
    refine ⟨fun note => rfl, fun note => ?_, fun note => rfl⟩
    cases value with
    | int k => exact h
    | _ => cases h
  · have hv : value.toConstant = v := eq_of_stored? hbase h
    have hwritten : Expr.written base value = fun note => .literal note value := by
      funext note
      exact if_neg hbase
    rw [hwritten]
    exact ⟨fun note => rfl, fun note => congrArg some hv, fun note => rfl⟩

end Group

/-! ## The members behind a literal -/

/-- A declaration with the same name in the same place, in the value of which a member of a group may be written
out. -/
structure GroupMemberDecl.WritesOut (group member : String) (value : Note → Expr) (k k' : GroupMemberDecl) :
    Prop where
  name : k'.name = k.name
  span : k'.span = k.span
  value : k.value.WritesOut group member value k'.value

/-- The name of a member stands for nothing else: it is not that of an owner of constants, and no other spelling of a
member of the group is the same. -/
structure GroupDecl.OnlyMember (env : ConstEnv) (d : GroupDecl) (name : String) : Prop where
  owner : ∀ x, env.get? (qualified name x) = none
  bare : ∀ k ∈ d.members, qualified d.name k.name ≠ name
  full : ∀ k ∈ d.members, k.name ≠ qualified d.name name
  member : ∀ k ∈ d.members, ∀ x, k.name ≠ qualified name x ∧ qualified d.name k.name ≠ qualified name x

/-- Among names without dots it is enough that the name is not that of the group or of another owner. -/
theorem GroupDecl.OnlyMember.of_dotless {env : ConstEnv} {d : GroupDecl} {name : String} (hgroup : Dotless d.name)
    (hmembers : ∀ k ∈ d.members, Dotless k.name) (hname : Dotless name) (hne : d.name ≠ name)
    (howner : ∀ x, env.get? (qualified name x) = none) : d.OnlyMember env name where
  owner := howner
  bare k _ := (hname.ne_qualified d.name k.name).symm
  full k hk := (hmembers k hk).ne_qualified d.name name
  member k hk x := by
    refine ⟨(hmembers k hk).ne_qualified name x, fun heq => ?_⟩
    exact hne (qualified_inj hgroup hname heq).1

namespace Group

namespace Partial

variable {file : String} {env : ConstEnv} {d : GroupDecl} {q : Partial} {k k' : GroupMemberDecl} {name : String}
  {v : Constant}

theorem get?_keep (group member key : String) (v : Constant) :
    (q.keep group member v).env.get? key =
      if key = qualified group member ∨ key = member then some v else q.env.get? key := by
  show ((q.env.insert member v).insert (qualified group member) v).get? key = _
  rw [ConstEnv.get?_insert, ConstEnv.get?_insert]
  by_cases hfull : key = qualified group member
  · rw [if_pos hfull, if_pos (.inl hfull)]
  · rw [if_neg hfull]
    by_cases hbare : key = member
    · rw [if_pos hbare, if_pos (.inr hbare)]
    · rw [if_neg hbare, if_neg (by simp [hfull, hbare])]

/-- A declaration binds only its own spellings. -/
theorem get?_add {key : String} (hfull : key ≠ qualified d.name k.name) (hbare : key ≠ k.name) :
    (q.add file d k).1.env.get? key = q.env.get? key := by
  rcases add_cases file d q k with ⟨w, u, _, _, _, hadd⟩ | ⟨seen, _, _, _, hadd⟩
  · rw [hadd]
    show (Partial.keep _ d.name k.name u).env.get? key = q.env.get? key
    rw [get?_keep, if_neg (by simp [hfull, hbare])]
  · rw [hadd]

theorem owner_add (hfree : d.OnlyMember env name) (hk : k ∈ d.members)
    (h : ∀ x, q.env.get? (qualified name x) = none) (x : String) :
    (q.add file d k).1.env.get? (qualified name x) = none := by
  obtain ⟨hbare, hfull⟩ := hfree.member k hk x
  rw [get?_add hfull.symm hbare.symm, h]

/-- The first declaration of a name that is kept binds its spellings. -/
theorem binds_keep (hfree : d.OnlyMember env name) (hk : k ∈ d.members) (hname : k.name = name)
    (h : ∀ x, q.env.get? (qualified name x) = none) (v : Constant) :
    (q.keep d.name k.name v).env.Binds d.name name v := by
  subst hname
  refine ⟨?_, ?_, fun x => ?_⟩
  · rw [get?_keep, if_pos (.inr rfl)]
  · rw [get?_keep, if_pos (.inl rfl)]
  · obtain ⟨hbare, hfull⟩ := hfree.member k hk x
    rw [get?_keep, if_neg (by simp [hfull.symm, hbare.symm]), h]

/-- Every other declaration leaves them bound. -/
theorem binds_add (hfree : d.OnlyMember env name) (hk : k ∈ d.members) (hseen : name ∈ q.seen)
    (h : q.env.Binds d.name name v) : (q.add file d k).1.env.Binds d.name name v := by
  by_cases hname : k.name = name
  · -- The name is taken, so nothing is bound.
    rw [add, if_pos (hname ▸ hseen)]
    exact h
  · refine ⟨?_, ?_, owner_add hfree hk h.owner⟩
    · rw [get?_add (hfree.bare k hk).symm (Ne.symm hname)]
      exact h.bare
    · rw [get?_add (fun heq => hname (qualified_right_inj heq).symm) (hfree.full k hk).symm]
      exact h.full

theorem mem_seen_add (h : name ∈ q.seen) (k : GroupMemberDecl) : name ∈ (q.add file d k).1.seen := by
  rcases add_cases file d q k with ⟨_, _, _, _, _, hadd⟩ | ⟨_, _, hseen, _, hadd⟩
  · rw [hadd]
    exact List.mem_cons_of_mem k.name h
  · rw [hadd]
    exact (hseen name).2 (.inr h)

/-- A declaration in which the member is written out does what the declaration does that names it. -/
theorem add_of_writesOut {value : Note → Expr} (hbinds : q.env.Binds d.name name v)
    (hvalue : Expr.WritesOut.Means q.env value v) (hstored : stored? d.base v = some v)
    (h : k.WritesOut d.name name value k') : q.add file d k' = q.add file d k := by
  have heval : k'.value.evaluate? q.env = k.value.evaluate? q.env := (h.value.agree hbinds hvalue).evaluate?
  by_cases hseen : k.name ∈ q.seen
  · rw [add, add, h.name, h.span, if_pos hseen, if_pos hseen]
  · rcases h.value.evaluate?_or_same hbinds with hmember | ⟨hspan, hident⟩
    · rw [add_of_stored file hseen hmember hstored,
        add_of_stored file (h.name ▸ hseen) (heval.trans hmember) hstored, h.name]
    · rw [add, add, h.name, h.span, if_neg hseen, if_neg hseen]
      dsimp only
      rw [heval, hspan, hident]

theorem addAll_of_writesOut (file : String) {value : Note → Expr} (hfree : d.OnlyMember env name)
    (hvalue : ∀ env, Expr.WritesOut.Means env value v) (hstored : stored? d.base v = some v)
    {ks ks' : List GroupMemberDecl} (hks : ∀ k ∈ ks, k ∈ d.members) (hseen : name ∈ q.seen)
    (hbinds : q.env.Binds d.name name v) (h : List.Forall₂ (GroupMemberDecl.WritesOut d.name name value) ks ks') :
    addAll file d q ks' = addAll file d q ks := by
  induction h generalizing q with
  | nil => rfl
  | @cons k k' ks ks' hk _ ih =>
      have hmem : k ∈ d.members := hks k List.mem_cons_self
      have hrest := ih (q := (q.add file d k).1) (fun k hk => hks k (List.mem_cons_of_mem _ hk))
        (mem_seen_add hseen k) (binds_add hfree hmem hseen hbinds)
      rw [addAll_cons, addAll_cons, add_of_writesOut hbinds (hvalue q.env) hstored hk, hrest]

theorem owner_addAll (file : String) (hfree : d.OnlyMember env name) (ks : List GroupMemberDecl)
    (hks : ∀ k ∈ ks, k ∈ d.members) (h : ∀ x, q.env.get? (qualified name x) = none) (x : String) :
    (addAll file d q ks).1.env.get? (qualified name x) = none := by
  induction ks generalizing q with
  | nil => exact h x
  | cons k rest ih =>
      have hmem : k ∈ d.members := hks k List.mem_cons_self
      exact ih (fun k hk => hks k (List.mem_cons_of_mem _ hk)) (owner_add hfree hmem h)

/-- Only the name and the base type of a group matter for its members. -/
theorem addAll_members (file : String) (d : GroupDecl) (q : Partial) (members ks : List GroupMemberDecl) :
    addAll file { d with members } q ks = addAll file d q ks := by
  induction ks generalizing q with
  | nil => rfl
  | cons k rest ih =>
      rw [addAll_cons, addAll_cons, ih]
      rfl

end Partial

/-- If a member is kept, something is kept of the value of its first declaration. -/
theorem stored?_of_kept {file : String} {env : ConstEnv} {d : GroupDecl} {m : GroupMemberDecl} {w : Constant}
    (hkept : m.name ∈ (ofDecl file env d).1.memberNames)
    (hdecl : d.members.find? (fun k => k.name == m.name) = some m)
    (heval : ∀ env, m.value.evaluate? env = some w) : ∃ v, stored? d.base w = some v := by
  obtain ⟨⟨_, v⟩, hentry, rfl⟩ := List.mem_map.1 hkept
  obtain ⟨i, hi⟩ := List.getElem?_of_mem hentry
  obtain ⟨decl, w', hdecl', heval', hstored⟩ := (evaluated_ofDecl file env d).value i _ v hi
  rw [hdecl] at hdecl'
  cases hdecl'
  rw [heval] at heval'
  cases heval'
  exact ⟨v, hstored⟩

/-- Behind a member with a literal that is kept, the literal can be written wherever the member is named. The members
of the group, their values and the diagnostics are the same. -/
theorem ofDecl_of_writesOut {file : String} {env : ConstEnv} {d : GroupDecl} {before rest rest' : List GroupMemberDecl}
    {m : GroupMemberDecl} {note : Note} {value : Literal} (hmembers : d.members = before ++ m :: rest)
    (hvalue : m.value = .literal note value) (hfirst : m.name ∉ before.map GroupMemberDecl.name)
    (hkept : m.name ∈ (ofDecl file env d).1.memberNames) (hfree : d.OnlyMember env m.name)
    (hrest : List.Forall₂ (GroupMemberDecl.WritesOut d.name m.name (Expr.written d.base value)) rest rest') :
    ofDecl file env { d with members := before ++ m :: rest' } = ofDecl file env d := by
  have hmem : ∀ k ∈ before ++ m :: rest, k ∈ d.members := fun k hk => hmembers ▸ hk
  have hrestMem : ∀ k ∈ rest, k ∈ d.members := by
    intro k hk
    exact hmem k (List.mem_append_right before (List.mem_cons_of_mem m hk))
  have hliteral : ∀ env, m.value.evaluate? env = some value.toConstant := by
    intro env
    rw [hvalue, Expr.evaluate?_literal]
  have hdecl : d.members.find? (fun k => k.name == m.name) = some m := by
    rw [hmembers]
    exact find?_first GroupMemberDecl.name hfirst
  obtain ⟨v, hstored⟩ := stored?_of_kept hkept hdecl hliteral
  -- Up to the literal both groups are the same, and nothing is bound yet under a name with its name in front.
  have hbefore := Partial.Sound.addAll (.start env d) file before
  have howner := Partial.owner_addAll (q := { env }) file hfree before
    (fun k hk => hmem k (List.mem_append_left _ hk)) hfree.owner
  generalize hq : (Partial.addAll file d { env } before).1 = q at hbefore howner
  have hnew : m.name ∉ q.seen := fun hseen => hfirst ((hbefore.seen _).1 hseen)
  have hadd := Partial.add_of_stored file hnew (hliteral q.env) hstored
  -- The literal binds the member, and the members behind it are walked with the member bound.
  have hbinds := Partial.binds_keep (q := { q with seen := m.name :: q.seen }) hfree
    (hmem m (List.mem_append_right before List.mem_cons_self)) rfl howner v
  have hbehind := Partial.addAll_of_writesOut file hfree (means_written hstored) (stored?_stored hstored)
    hrestMem List.mem_cons_self hbinds hrest
  have hsame : Partial.addAll file d { env } (before ++ m :: rest') =
      Partial.addAll file d { env } (before ++ m :: rest) := by
    rw [Partial.addAll_append, Partial.addAll_append, hq, Partial.addAll_cons, Partial.addAll_cons, hadd, hbehind]
  unfold ofDecl
  rw [hmembers, Partial.addAll_members, hsame]

/-- Bytes of which the second is the complement of an expression, and the third is the union of an expression and the
second. -/
def masks (complemented united : Expr) : GroupDecl where
  name := "Mask"
  base := .byte
  members :=
    [ { name := "Low", value := .literal {} (.int 15) },
      { name := "High", value := .unary {} .bitNot complemented },
      { name := "All", value := .binary {} .bitOr united (.ident {} "High") } ]

/-- `~Low` and `Mask.Low | High` with the first member named. -/
def namedMasks : GroupDecl := masks (.ident {} "Low") (.member {} (.ident {} "Mask") "Low")

theorem onlyMember_namedMasks : namedMasks.OnlyMember [] "Low" :=
  .of_dotless (by decide +kernel) (by decide +kernel) (by decide +kernel) (by decide +kernel) fun _ => rfl

/-- With the literal written as `15 as byte` the group is the same. -/
theorem ofDecl_of_writesOut_masks :
    (ofDecl "masks.ptsc" [] namedMasks).1.members = [("Low", .byte 15), ("High", .byte 240), ("All", .byte 255)] ∧
      namedMasks.OnlyMember [] "Low" ∧
      ofDecl "masks.ptsc" []
          (masks (.cast {} (.literal {} (.int 15)) .byte) (.cast {} (.literal {} (.int 15)) .byte)) =
        ofDecl "masks.ptsc" [] namedMasks := by
  have hmembers : (ofDecl "masks.ptsc" [] namedMasks).1.members =
      [("Low", .byte 15), ("High", .byte 240), ("All", .byte 255)] := rfl
  refine ⟨hmembers, onlyMember_namedMasks, ?_⟩
  have hparts : namedMasks.members =
      [] ++ { name := "Low", value := .literal {} (.int 15) } :: namedMasks.members.tail := rfl
  refine ofDecl_of_writesOut hparts rfl List.not_mem_nil ?_ onlyMember_namedMasks ?_
  · rw [memberNames, hmembers]
    exact List.mem_cons_self
  · refine .cons ⟨rfl, rfl, .unary {} .bitNot (.bare {} {})⟩ (.cons ⟨rfl, rfl, ?_⟩ .nil)
    exact .binary {} .bitOr (.full {} {} {}) (.same _)

/-- Without the cast it is not: `~15` is an `int` below zero, and `15 | High` has operands of two types. -/
theorem ofDecl_masks_literal :
    namedMasks.OnlyMember [] "Low" ∧
      List.Forall₂ (GroupMemberDecl.WritesOut "Mask" "Low" fun note => .literal note (.int 15))
        namedMasks.members (masks (.literal {} (.int 15)) (.literal {} (.int 15))).members ∧
      (ofDecl "masks.ptsc" [] namedMasks).1.members = [("Low", .byte 15), ("High", .byte 240), ("All", .byte 255)] ∧
      (ofDecl "masks.ptsc" [] namedMasks).2 = [] ∧
      (ofDecl "masks.ptsc" [] (masks (.literal {} (.int 15)) (.literal {} (.int 15)))).1.members =
        [("Low", .byte 15)] ∧
      (ofDecl "masks.ptsc" [] (masks (.literal {} (.int 15)) (.literal {} (.int 15)))).2.length = 2 := by
  refine ⟨onlyMember_namedMasks, ?_, rfl, rfl, rfl, rfl⟩
  refine .cons ⟨rfl, rfl, .same _⟩ (.cons ⟨rfl, rfl, .unary {} .bitNot (.bare {} {})⟩ (.cons ⟨rfl, rfl, ?_⟩ .nil))
  exact .binary {} .bitOr (.full {} {} {}) (.same _)

end Group

end ProtoScript
