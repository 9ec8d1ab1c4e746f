import Mathlib.Data.List.Nodup
import ProtoScript.Proofs.Analysis.Globals
import ProtoScript.Proofs.Constant.Environment
import ProtoScript.Proofs.Lookup

set_option autoImplicit false

/-!
# The groups of a program

Two environments grow while groups are evaluated. The members of one group are bound in an environment of its
own, under both of their spellings; behind the group they are bound for all groups to come, under their
qualified names. A declaration that is refused takes its name and binds nothing.

The state of either loop is described without the loop: the environment is the first one with what was kept
inserted in order, and the name of what was kept is that of the first declaration that has it (`Partial.Sound`,
`GroupTable.Sound`). Side by side with what is kept stand the diagnostics, one for each declaration of a member
that is not kept (`Group.Accounts`, `GroupTable.Accounts`).
-/

namespace ProtoScript

namespace Group

/-- What is kept of an initial value: a value of the base type if that is scalar, otherwise the value as it
is. -/
def stored? (base : Ty) (value : Constant) : Option Constant :=
  if base.isScalar then coerce? base value else some value

/-- Members under both of their spellings, as the members behind them know them. -/
def spellings (group : String) (members : List (String × Constant)) : List (String × Constant) :=
  members.flatMap fun m => [(m.1, m.2), (qualified group m.1, m.2)]

theorem spellings_concat (group : String) (members : List (String × Constant)) (m : String × Constant) :
    spellings group (members ++ [m]) = spellings group members ++ [(m.1, m.2), (qualified group m.1, m.2)] := by
  simp [spellings]

/-- The members under their qualified names, as all that stands behind the group knows them. -/
def entries (g : Group) : List (String × Constant) := g.members.map fun m => (qualified g.name m.1, m.2)

theorem insertAll_entries (env : ConstEnv) (g : Group) :
    env.insertAll g.entries = g.members.foldl (fun env (m, v) => env.insert (qualified g.name m) v) env := by
  rw [entries, ConstEnv.insertAll, List.foldl_map]

/-- The members of the group that some declarations have named. -/
def namedBy (g : Group) (before : List GroupMemberDecl) : List (String × Constant) :=
  g.members.filter fun m => m.1 ∈ before.map GroupMemberDecl.name

/-- The group has the members of the declaration that could be evaluated: names are different, values are of
the base type, and each value is that of the first declaration of the name, evaluated in the environment with
the members before it. No first declaration of a name is left out of which a value can be kept. -/
structure Evaluated (env : ConstEnv) (d : GroupDecl) (g : Group) : Prop where
  name : g.name = d.name
  base : g.base = d.base
  nodup : (g.members.map Prod.fst).Nodup
  typed : g.base.isScalar → g.WellTyped
  value : ∀ i m v, g.members[i]? = some (m, v) → ∃ decl w,
    d.members.find? (fun k => k.name == m) = some decl ∧
      decl.value.evaluate? (env.insertAll (spellings g.name (g.members.take i))) = some w ∧
      stored? g.base w = some v
  complete : ∀ before k behind w v, d.members = before ++ k :: behind →
    k.name ∉ before.map GroupMemberDecl.name →
    k.value.evaluate? (env.insertAll (spellings g.name (g.namedBy before))) = some w →
    stored? g.base w = some v → (k.name, v) ∈ g.members

/-- Every declaration of a member is accounted for: it is kept, or there is one diagnostic at the declaration or
at its value. -/
inductive Accounts : List GroupMemberDecl → List (String × Constant) → List Diagnostic → Prop where
  | nil : Accounts [] [] []
  | kept {m : GroupMemberDecl} {v : Constant} {ms : List GroupMemberDecl}
    {members : List (String × Constant)} {found : List Diagnostic} (rest : Accounts ms members found) :
    Accounts (m :: ms) ((m.name, v) :: members) found
  | reported {m : GroupMemberDecl} {diagnostic : Diagnostic} {ms : List GroupMemberDecl}
    {members : List (String × Constant)} {found : List Diagnostic}
    (place : diagnostic.span = m.span ∨ diagnostic.span = m.value.span) (rest : Accounts ms members found) :
    Accounts (m :: ms) members (diagnostic :: found)

/-! ## One member after the other -/

namespace Partial

variable {file : String} {env : ConstEnv} {d : GroupDecl} {before : List GroupMemberDecl} {q : Partial}

theorem add_of_stored (file : String) {m : GroupMemberDecl} {w v : Constant} (hnew : m.name ∉ q.seen)
    (heval : m.value.evaluate? q.env = some w) (hstored : stored? d.base w = some v) :
    q.add file d m = (({ q with seen := m.name :: q.seen } : Partial).keep d.name m.name v, []) := by
  unfold stored? at hstored
  rw [add, if_neg hnew]
  dsimp only
  rw [heval]
  dsimp only
  by_cases hscalar : d.base.isScalar
  · rw [if_pos hscalar] at hstored ⊢
    rw [hstored]
  · rw [if_neg hscalar] at hstored ⊢
    cases hstored
    rfl

/-- A member that is new and has a value of the right type is kept. Of any other one only the name is
remembered, and there is one diagnostic. -/
theorem add_cases (file : String) (d : GroupDecl) (q : Partial) (m : GroupMemberDecl) :
    (∃ w v, m.name ∉ q.seen ∧ m.value.evaluate? q.env = some w ∧ stored? d.base w = some v ∧
      q.add file d m = (({ q with seen := m.name :: q.seen } : Partial).keep d.name m.name v, [])) ∨
    ∃ seen diagnostic, (∀ x, x ∈ seen ↔ x = m.name ∨ x ∈ q.seen) ∧
      (diagnostic.span = m.span ∨ diagnostic.span = m.value.span) ∧
      q.add file d m = ({ q with seen }, [diagnostic]) := by
  have hseen : ∀ x, x ∈ m.name :: q.seen ↔ x = m.name ∨ x ∈ q.seen := fun x => List.mem_cons
  by_cases hold : m.name ∈ q.seen
  · rw [add, if_pos hold]
    refine .inr ⟨q.seen, _, fun x => ⟨.inr, ?_⟩, .inl rfl, rfl⟩
    rintro (rfl | hx)
    · exact hold
    · exact hx
  · cases heval : m.value.evaluate? q.env with
    | none =>
        rw [add, if_neg hold]
        dsimp only
        rw [heval]
        cases m.value.ident? with
        | some name => exact .inr ⟨_, _, hseen, .inr rfl, rfl⟩
        | none => exact .inr ⟨_, _, hseen, .inr rfl, rfl⟩
    | some w =>
        cases hstored : stored? d.base w with
        | some v => exact .inl ⟨w, v, hold, rfl, hstored, add_of_stored file hold heval hstored⟩
        | none =>
            have hscalar : d.base.isScalar := by
              by_contra hscalar
              rw [stored?, if_neg hscalar] at hstored
              cases hstored
            rw [stored?, if_pos hscalar] at hstored
            rw [add, if_neg hold]
            dsimp only
            rw [heval]
            dsimp only
            rw [if_pos hscalar, hstored]
            exact .inr ⟨_, _, hseen, .inr rfl, rfl⟩

/-- What is known behind some declarations: which names were met, and where the members come from. -/
structure Sound (env : ConstEnv) (d : GroupDecl) (before : List GroupMemberDecl) (q : Partial) : Prop where
  seen : ∀ x, x ∈ q.seen ↔ x ∈ before.map GroupMemberDecl.name
  bound : q.env = env.insertAll (spellings d.name q.members)
  nodup : (q.members.map Prod.fst).Nodup
  declared : ∀ m ∈ q.members, m.1 ∈ before.map GroupMemberDecl.name
  value : ∀ i m v, q.members[i]? = some (m, v) → ∃ decl w,
    before.find? (fun k => k.name == m) = some decl ∧
      decl.value.evaluate? (env.insertAll (spellings d.name (q.members.take i))) = some w ∧
      stored? d.base w = some v

theorem Sound.start (env : ConstEnv) (d : GroupDecl) : Sound env d [] { env } where
  seen x := by simp
  bound := rfl
  nodup := List.nodup_nil
  declared := nofun
  value := nofun

/-- The value of a new name is kept. -/
theorem Sound.kept (h : q.Sound env d before) {m : GroupMemberDecl} {w v : Constant} (hnew : m.name ∉ q.seen)
    (heval : m.value.evaluate? q.env = some w) (hstored : stored? d.base w = some v) :
    (({ q with seen := m.name :: q.seen } : Partial).keep d.name m.name v).Sound env d (before ++ [m]) := by
  have hnot : m.name ∉ before.map GroupMemberDecl.name := fun hm => hnew ((h.seen _).2 hm)
  refine ⟨fun x => ?_, ?_, ?_, fun p hp => ?_, fun i x u hi => ?_⟩
  · rw [List.map_append, List.mem_append, ← h.seen]
    show x ∈ m.name :: q.seen ↔ x ∈ q.seen ∨ x ∈ [m.name]
    rw [List.mem_cons, List.mem_singleton, or_comm]
  · show (q.env.insert m.name v).insert (qualified d.name m.name) v = _
    rw [h.bound, keep, spellings_concat, ConstEnv.insertAll_append]
    rfl
  · have hfree : m.name ∉ q.members.map Prod.fst := by
      intro hmem
      obtain ⟨p, hp, hname⟩ := List.mem_map.1 hmem
      exact hnot (hname ▸ h.declared p hp)
    show ((q.members ++ [(m.name, v)]).map Prod.fst).Nodup
    rw [List.map_append, List.map_singleton, ← List.concat_eq_append]
    exact h.nodup.concat hfree
  · rw [List.map_append, List.mem_append]
    rcases List.mem_append.1 hp with hp | hp
    · exact .inl (h.declared p hp)
    · rw [List.mem_singleton.1 hp]
      exact .inr List.mem_cons_self
  · simp only [keep] at hi ⊢
    rcases of_getElem?_concat hi with ⟨hlt, hi⟩ | ⟨rfl, heq⟩
    · -- The member was there before.
      obtain ⟨decl, w', hdecl, heval', hstored'⟩ := h.value i x u hi
      rw [List.take_append_of_le_length (Nat.le_of_lt hlt)]
      exact ⟨decl, w', find?_append_of_some hdecl [m], heval', hstored'⟩
    · obtain ⟨rfl, rfl⟩ := Prod.mk.inj heq
      refine ⟨m, w, find?_first GroupMemberDecl.name hnot, ?_, hstored⟩
      rw [List.take_left, ← h.bound]
      exact heval

/-- Of a declaration that is refused only the name is remembered. -/
theorem Sound.refused (h : q.Sound env d before) {m : GroupMemberDecl} {seen : List String}
    (hseen : ∀ x, x ∈ seen ↔ x = m.name ∨ x ∈ q.seen) :
    ({ q with seen } : Partial).Sound env d (before ++ [m]) := by
  refine ⟨fun x => ?_, h.bound, h.nodup, fun p hp => ?_, fun i x u hi => ?_⟩
  · simp only [hseen, h.seen, List.map_append, List.mem_append, List.map_cons, List.map_nil, List.mem_singleton,
      or_comm]
  · rw [List.map_append, List.mem_append]
    exact .inl (h.declared p hp)
  · obtain ⟨decl, w, hdecl, hrest⟩ := h.value i x u hi
    exact ⟨decl, w, find?_append_of_some hdecl [m], hrest⟩

theorem Sound.add (h : q.Sound env d before) (file : String) (m : GroupMemberDecl) :
    (q.add file d m).1.Sound env d (before ++ [m]) := by
  rcases add_cases file d q m with ⟨w, v, hnew, heval, hstored, hadd⟩ | ⟨seen, _, hseen, _, hadd⟩
  · rw [hadd]
    exact h.kept hnew heval hstored
  · rw [hadd]
    exact h.refused hseen

theorem Sound.addAll (h : q.Sound env d before) (file : String) (ms : List GroupMemberDecl) :
    (addAll file d q ms).1.Sound env d (before ++ ms) := by
  induction ms generalizing before q with
  | nil =>
      rw [List.append_nil]
      exact h
  | cons m rest ih =>
      have hrest := ih (h.add file m)
      rw [List.append_assoc] at hrest
      exact hrest

theorem addAll_cons (file : String) (d : GroupDecl) (q : Partial) (m : GroupMemberDecl) (ms : List GroupMemberDecl) :
    addAll file d q (m :: ms) =
      ((addAll file d (q.add file d m).1 ms).1, (q.add file d m).2 ++ (addAll file d (q.add file d m).1 ms).2) := rfl

theorem addAll_append (file : String) (d : GroupDecl) (q : Partial) (ms ms' : List GroupMemberDecl) :
    addAll file d q (ms ++ ms') =
      ((addAll file d (addAll file d q ms).1 ms').1,
        (addAll file d q ms).2 ++ (addAll file d (addAll file d q ms).1 ms').2) := by
  induction ms generalizing q with
  | nil => rfl
  | cons m rest ih => rw [List.cons_append, addAll_cons, addAll_cons, ih, List.append_assoc]

/-- Members are added behind those there are, under new names, and every declaration is accounted for. -/
theorem accounts_addAll (file : String) (d : GroupDecl) (q : Partial) (ms : List GroupMemberDecl) :
    ∃ members, (addAll file d q ms).1.members = q.members ++ members ∧ (∀ m ∈ members, m.1 ∉ q.seen) ∧
      Accounts ms members (addAll file d q ms).2 := by
  induction ms generalizing q with
  | nil => exact ⟨[], (List.append_nil _).symm, nofun, .nil⟩
  | cons m rest ih =>
      rw [addAll_cons]
      obtain ⟨members, hmembers, hfresh, haccounts⟩ := ih (q.add file d m).1
      rcases add_cases file d q m with ⟨w, v, hnew, _, _, hadd⟩ | ⟨seen, diagnostic, hseen, hplace, hadd⟩
      · rw [hadd] at hmembers hfresh haccounts ⊢
        refine ⟨(m.name, v) :: members, ?_, List.forall_mem_cons.2 ⟨hnew, fun x hx hold => ?_⟩, .kept haccounts⟩
        · rw [List.append_cons]
          exact hmembers
        · exact hfresh x hx (List.mem_cons_of_mem m.name hold)
      · rw [hadd] at hmembers hfresh haccounts ⊢
        refine ⟨members, hmembers, fun x hx hold => ?_, .reported hplace haccounts⟩
        exact hfresh x hx ((hseen x.1).2 (.inr hold))

end Partial

/-- The members that stood there when a declaration was met are those that the declarations before it named. -/
theorem namedBy_ofDecl (file : String) (env : ConstEnv) {d : GroupDecl} {before behind : List GroupMemberDecl}
    (hmembers : d.members = before ++ behind) :
    (ofDecl file env d).1.namedBy before = (Partial.addAll file d { env } before).1.members := by
  have hsound := (Partial.Sound.start env d).addAll file before
  rw [List.nil_append] at hsound
  obtain ⟨members, hbehind, hfresh, _⟩ :=
    Partial.accounts_addAll file d (Partial.addAll file d { env } before).1 behind
  have hall : (ofDecl file env d).1.members =
      (Partial.addAll file d { env } before).1.members ++ members := by
    show (Partial.addAll file d { env } d.members).1.members = _
    rw [hmembers, Partial.addAll_append, hbehind]
  rw [namedBy, hall, List.filter_append]
  have hnamed := List.filter_eq_self.2 fun m hm => decide_eq_true (hsound.declared m hm)
  have hothers : members.filter (fun m => decide (m.1 ∈ before.map GroupMemberDecl.name)) = [] :=
    List.filter_eq_nil_iff.2 fun m hm hname =>
      hfresh m hm ((hsound.seen m.1).2 (of_decide_eq_true hname))
  rw [hnamed, hothers, List.append_nil]

/-- A new name of which a value can be kept is kept. -/
theorem complete_ofDecl (file : String) (env : ConstEnv) {d : GroupDecl} {before behind : List GroupMemberDecl}
    {k : GroupMemberDecl} {w v : Constant} (hmembers : d.members = before ++ k :: behind)
    (hnew : k.name ∉ before.map GroupMemberDecl.name)
    (heval : k.value.evaluate? (env.insertAll (spellings d.name ((ofDecl file env d).1.namedBy before))) = some w)
    (hstored : stored? d.base w = some v) : (k.name, v) ∈ (ofDecl file env d).1.members := by
  rw [namedBy_ofDecl file env hmembers] at heval
  have hsound := (Partial.Sound.start env d).addAll file before
  rw [List.nil_append] at hsound
  show (k.name, v) ∈ (Partial.addAll file d { env } d.members).1.members
  rw [hmembers, Partial.addAll_append, Partial.addAll_cons]
  generalize (Partial.addAll file d { env } before).1 = q at hsound heval ⊢
  rw [← hsound.bound] at heval
  have hadd := Partial.add_of_stored file (fun hseen => hnew ((hsound.seen _).1 hseen)) heval hstored
  obtain ⟨members, hbehind, _, _⟩ := Partial.accounts_addAll file d (q.add file d k).1 behind
  rw [hadd] at hbehind ⊢
  rw [hbehind]
  exact List.mem_append_left members (List.mem_append_right q.members List.mem_cons_self)

theorem evaluated_ofDecl (file : String) (env : ConstEnv) (d : GroupDecl) :
    (ofDecl file env d).1.Evaluated env d := by
  have hsound := (Partial.Sound.start env d).addAll file d.members
  rw [List.nil_append] at hsound
  refine ⟨rfl, rfl, hsound.nodup, fun hbase => Partial.addAll_wellTyped hbase d.members nofun, hsound.value, ?_⟩
  intro before k behind w v hmembers hnew heval hstored
  exact complete_ofDecl file env hmembers hnew heval hstored

/-- What is wrong with the base type of a group. -/
def baseProblems (file : String) (d : GroupDecl) : List Diagnostic :=
  if d.base.isScalar then [] else [(Problem.groupBase d.name d.base).diagnose file d.span]

theorem accounts_ofDecl (file : String) (env : ConstEnv) (d : GroupDecl) :
    ∃ found, (ofDecl file env d).2 = baseProblems file d ++ found ∧
      Accounts d.members (ofDecl file env d).1.members found := by
  obtain ⟨members, hmembers, _, haccounts⟩ := Partial.accounts_addAll file d { env } d.members
  refine ⟨_, rfl, ?_⟩
  rw [List.nil_append] at hmembers
  show Accounts d.members (Partial.addAll file d { env } d.members).1.members _
  rw [hmembers]
  exact haccounts

end Group

/-! ## One group after the other -/

namespace GroupTable

variable {file : String} {env : ConstEnv} {t : GroupTable} {before : List GroupDecl}

theorem contains_iff (t : GroupTable) (name : String) : t.contains name ↔ name ∈ t.groups.map Group.name := by
  rw [contains, get?, List.find?_isSome, List.mem_map]
  simp only [beq_iff_eq]

/-- What is known behind some declarations: a group for every name, evaluated from its first declaration in the
environment with the groups before it. -/
structure Sound (env : ConstEnv) (before : List GroupDecl) (t : GroupTable) : Prop where
  names : ∀ x, t.contains x ↔ x ∈ before.map GroupDecl.name
  nodup : (t.groups.map Group.name).Nodup
  evaluated : ∀ i (g : Group), t.groups[i]? = some g → ∃ d, before.find? (fun k => k.name == g.name) = some d ∧
    g.Evaluated (env.insertAll ((t.groups.take i).flatMap Group.entries)) d

theorem Sound.start (env : ConstEnv) : Sound env [] {} where
  names x := by simp [contains_iff]
  nodup := List.nodup_nil
  evaluated := nofun

/-- A declaration that repeats a name adds nothing. -/
theorem Sound.repeated (h : t.Sound env before) {d : GroupDecl} (hd : t.contains d.name) :
    t.Sound env (before ++ [d]) := by
  refine ⟨fun x => ?_, h.nodup, fun i g hi => ?_⟩
  · rw [h.names, List.map_append, List.mem_append]
    refine ⟨.inl, ?_⟩
    rintro (hx | hx)
    · exact hx
    · rw [List.mem_singleton.1 hx]
      exact (h.names _).1 hd
  · obtain ⟨d', hd', hg⟩ := h.evaluated i g hi
    exact ⟨d', find?_append_of_some hd' [d], hg⟩

/-- The first declaration of a name adds its group. -/
theorem Sound.first (h : t.Sound env before) {d : GroupDecl} (hd : ¬ t.contains d.name) {g : Group}
    (hg : g.Evaluated (env.insertAll (t.groups.flatMap Group.entries)) d) :
    Sound env (before ++ [d]) ⟨t.groups ++ [g]⟩ := by
  have hnot : d.name ∉ before.map GroupDecl.name := fun hx => hd ((h.names _).2 hx)
  have hnames : ∀ x, x ∈ t.groups.map Group.name ↔ x ∈ before.map GroupDecl.name := by
    intro x
    rw [← t.contains_iff, h.names]
  refine ⟨fun x => ?_, ?_, fun i g' hi => ?_⟩
  · simp only [contains_iff, List.map_append, List.mem_append, hnames, List.map_cons, List.map_nil,
      List.mem_singleton, hg.name]
  · have hfree : g.name ∉ t.groups.map Group.name := by
      rw [hg.name, hnames]
      exact hnot
    show ((t.groups ++ [g]).map Group.name).Nodup
    rw [List.map_append, List.map_singleton, ← List.concat_eq_append]
    exact h.nodup.concat hfree
  · show ∃ d', _ ∧ g'.Evaluated (env.insertAll (((t.groups ++ [g]).take i).flatMap Group.entries)) d'
    rcases of_getElem?_concat hi with ⟨hlt, hi⟩ | ⟨rfl, rfl⟩
    · obtain ⟨d', hd', hg'⟩ := h.evaluated i g' hi
      rw [List.take_append_of_le_length (Nat.le_of_lt hlt)]
      exact ⟨d', find?_append_of_some hd' [d], hg'⟩
    · rw [List.take_left]
      refine ⟨d, ?_, hg⟩
      rw [hg.name]
      exact find?_first GroupDecl.name hnot

theorem Sound.addAll (h : t.Sound env before) (file : String) (ds : List GroupDecl) :
    (addAll file t (env.insertAll (t.groups.flatMap Group.entries)) ds).1.Sound env (before ++ ds) ∧
      (addAll file t (env.insertAll (t.groups.flatMap Group.entries)) ds).2.1 =
        env.insertAll ((addAll file t (env.insertAll (t.groups.flatMap Group.entries)) ds).1.groups.flatMap
          Group.entries) := by
  induction ds generalizing before t with
  | nil =>
      rw [List.append_nil]
      exact ⟨h, rfl⟩
  | cons d rest ih =>
      rw [List.append_cons]
      by_cases hd : t.contains d.name
      · rw [GroupTable.addAll, if_pos hd]
        exact ih (h.repeated hd)
      · rw [GroupTable.addAll, if_neg hd]
        have hgroup := Group.evaluated_ofDecl file (env.insertAll (t.groups.flatMap Group.entries)) d
        have hrest := ih (h.first hd hgroup)
        -- The members of the group are bound for the groups behind it.
        rw [List.flatMap_append, ConstEnv.insertAll_append, List.flatMap_singleton,
          Group.insertAll_entries] at hrest
        exact hrest

/-- All declarations are accounted for: a group for the first one of a name, of which the members are accounted
for, and one diagnostic for every other one. -/
inductive Accounts (file : String) : List String → List GroupDecl → List Group → List Diagnostic → Prop where
  | nil {taken : List String} : Accounts file taken [] [] []
  | repeated {taken : List String} {d : GroupDecl} {ds : List GroupDecl} {groups : List Group}
    {found : List Diagnostic} (taken' : d.name ∈ taken) (rest : Accounts file taken ds groups found) :
    Accounts file taken (d :: ds) groups ((Problem.duplicateGroup d.name).diagnose file d.span :: found)
  | first {taken : List String} {d : GroupDecl} {g : Group} {ds : List GroupDecl} {groups : List Group}
    {found more : List Diagnostic} (free : d.name ∉ taken) (name : g.name = d.name) (base : g.base = d.base)
    (members : Group.Accounts d.members g.members found)
    (rest : Accounts file (taken ++ [d.name]) ds groups more) :
    Accounts file taken (d :: ds) (g :: groups) (Group.baseProblems file d ++ found ++ more)

theorem accounts_addAll (file : String) (env : ConstEnv) {taken : List String}
    (htaken : ∀ x, t.contains x ↔ x ∈ taken) (ds : List GroupDecl) :
    ∃ groups, (addAll file t env ds).1.groups = t.groups ++ groups ∧
      Accounts file taken ds groups (addAll file t env ds).2.2 := by
  induction ds generalizing taken t env with
  | nil => exact ⟨[], (List.append_nil _).symm, .nil⟩
  | cons d rest ih =>
      by_cases hd : t.contains d.name
      · rw [addAll, if_pos hd]
        obtain ⟨groups, hgroups, haccounts⟩ := ih env htaken
        exact ⟨groups, hgroups, .repeated ((htaken _).1 hd) haccounts⟩
      · rw [addAll, if_neg hd]
        obtain ⟨found, hfound, hmembers⟩ := Group.accounts_ofDecl file env d
        have htaken' : ∀ x, GroupTable.contains ⟨t.groups ++ [(Group.ofDecl file env d).1]⟩ x ↔
            x ∈ taken ++ [d.name] := by
          intro x
          rw [contains_iff, List.map_append, List.mem_append, List.mem_append, ← contains_iff, htaken]
          rfl
        obtain ⟨groups, hgroups, haccounts⟩ := ih ((Group.ofDecl file env d).1.members.foldl
          (fun env m => env.insert (qualified (Group.ofDecl file env d).1.name m.1) m.2) env) htaken'
        refine ⟨(Group.ofDecl file env d).1 :: groups, ?_, ?_⟩
        · rw [List.append_cons]
          exact hgroups
        · dsimp only
          rw [hfound]
          exact .first (fun hx => hd ((htaken _).2 hx)) rfl rfl hmembers haccounts

theorem Sound.declared (h : t.Sound env before) {g : Group} (hg : g ∈ t.groups) :
    ∃ d ∈ before, g.name = d.name ∧ (g.members.map Prod.fst).Nodup := by
  obtain ⟨i, hi⟩ := List.getElem?_of_mem hg
  obtain ⟨d, hd, heval⟩ := h.evaluated i g hi
  exact ⟨d, List.mem_of_find?_eq_some hd, heval.name, heval.nodup⟩

/-- The groups have different names, so every member is bound behind them under its qualified name. -/
theorem Sound.get?_entries (h : t.Sound env before) (hplain : ∀ d ∈ before, Dotless d.name) {g : Group}
    (hg : g ∈ t.groups) {m : String} {v : Constant} (hm : (m, v) ∈ g.members) :
    (env.insertAll (t.groups.flatMap Group.entries)).get? (qualified g.name m) = some v := by
  refine ConstEnv.get?_insertAll_of_mem ?_ ?_
  · exact List.mem_flatMap.2 ⟨g, hg, List.mem_map.2 ⟨(m, v), hm, rfl⟩⟩
  · intro w hw
    obtain ⟨g', hg', hw⟩ := List.mem_flatMap.1 hw
    obtain ⟨⟨m', w'⟩, hm', heq⟩ := List.mem_map.1 hw
    obtain ⟨hname, rfl⟩ := Prod.mk.inj heq
    obtain ⟨d, hd, hgd, hnodup⟩ := h.declared hg
    obtain ⟨d', hd', hgd', _⟩ := h.declared hg'
    obtain ⟨hgroup, rfl⟩ := qualified_inj (hgd' ▸ hplain d' hd') (hgd ▸ hplain d hd) hname
    cases List.inj_on_of_nodup_map h.nodup hg' hg hgroup
    have hpair := List.inj_on_of_nodup_map hnodup hm' hm rfl
    exact (Prod.mk.inj hpair).2

/-- Nothing else is bound. -/
theorem get?_insertAll_entries_of_ne {groups : List Group} {key : String}
    (hkey : ∀ g ∈ groups, ∀ m ∈ g.members, key ≠ qualified g.name m.1) :
    (env.insertAll (groups.flatMap Group.entries)).get? key = env.get? key := by
  refine ConstEnv.get?_insertAll_of_notMem fun e he => ?_
  obtain ⟨g, hg, he⟩ := List.mem_flatMap.1 he
  obtain ⟨m, hm, rfl⟩ := List.mem_map.1 he
  exact (hkey g hg m hm).symm

end GroupTable

namespace Program

/-- The groups of a program are evaluated from their first declarations, and behind them their members are bound. -/
theorem sound_groupTable (p : Program) (env : ConstEnv) :
    (p.groupTable env).1.Sound env p.groups ∧
      (p.groupTable env).2.1 = env.insertAll ((p.groupTable env).1.groups.flatMap Group.entries) :=
  (GroupTable.Sound.start env).addAll p.file p.groups

/-- The groups of a program have different names, and each is evaluated from the first declaration of its name in
the environment with the members of the groups before it. Behind the groups their members are bound under their
qualified names, and all other names are bound as before. Every declaration is accounted for. -/
theorem groups_evaluated {p : Program} {env env' : ConstEnv} {t : GroupTable} {found : List Diagnostic}
    (hplain : ∀ d ∈ p.groups, Dotless d.name) (htable : p.groupTable env = (t, env', found)) :
    (t.groups.map Group.name).Nodup ∧
      (∀ i (g : Group), t.groups[i]? = some g → ∃ d, p.groups.find? (fun k => k.name == g.name) = some d ∧
        g.Evaluated (env.insertAll ((t.groups.take i).flatMap Group.entries)) d) ∧
      (∀ g ∈ t.groups, ∀ m v, (m, v) ∈ g.members → env'.get? (qualified g.name m) = some v) ∧
      (∀ key, (∀ g ∈ t.groups, ∀ m ∈ g.members, key ≠ qualified g.name m.1) → env'.get? key = env.get? key) ∧
      GroupTable.Accounts p.file [] p.groups t.groups found := by
  obtain ⟨hsound, henv⟩ := sound_groupTable p env
  obtain ⟨groups, hgroups, haccounts⟩ :=
    GroupTable.accounts_addAll p.file env (GroupTable.Sound.start env).names p.groups
  change GroupTable.addAll p.file {} env p.groups = (t, env', found) at htable
  rw [htable] at hgroups haccounts
  rw [groupTable, htable] at hsound henv
  dsimp only at hsound henv
  rw [List.nil_append] at hgroups
  subst hgroups
  refine ⟨hsound.nodup, hsound.evaluated, fun g hg m v hm => ?_, fun key hkey => ?_, haccounts⟩
  · rw [henv]
    exact hsound.get?_entries hplain hg hm
  · rw [henv, GroupTable.get?_insertAll_entries_of_ne hkey]

/-- A group of bytes, then one of the same name, then one of a type that a group cannot have, which has a member of
the first one. `2 * Level.Low` has no value since `2` is an `int`. -/
def levels : Program where
  file := "levels.ptsc"
  imports := []
  decls :=
    [ .group
        { name := "Level", base := .byte
          members :=
            [ { name := "Low", value := .literal {} (.int 1) },
              { name := "Twice", value := .binary {} .mul (.literal {} (.int 2)) (.ident {} "Low") },
              { name := "Low", value := .literal {} (.int 7) },
              { name := "Above", value := .literal {} (.int 256) },
              { name := "Top", value := .binary {} .add (.ident {} "Low") (.member {} (.ident {} "Level") "Low") } ] },
      .group { name := "Level", base := .int, members := [{ name := "Low", value := .literal {} (.int 9) }] },
      .group
        { name := "Kept", base := .void
          members := [{ name := "Copy", value := .member {} (.ident {} "Level") "Top" }] } ]

/-- Three members are kept, and there are five diagnostics. Behind the groups the members have their qualified names
only. -/
theorem groups_evaluated_levels :
    (∀ d ∈ levels.groups, Dotless d.name) ∧ ∃ t env found, levels.groupTable [("PI", .int 3)] = (t, env, found) ∧
      t.groups.map (fun g => (g.name, g.members)) =
        [("Level", [("Low", .byte 1), ("Top", .byte 2)]), ("Kept", [("Copy", .byte 2)])] ∧
      env.get? "Level.Top" = some (.byte 2) ∧ env.get? "PI" = some (.int 3) ∧ env.get? "Top" = none ∧
      found.length = 5 ∧ GroupTable.Accounts "levels.ptsc" [] levels.groups t.groups found := by
  have hplain : ∀ d ∈ levels.groups, Dotless d.name := by decide +kernel
  have htable := Prod.mk.eta (p := levels.groupTable [("PI", .int 3)])
  obtain ⟨_, _, hbound, hsame, haccounts⟩ := groups_evaluated hplain htable.symm
  refine ⟨hplain, _, _, _, rfl, rfl, ?_, ?_, ?_, rfl, haccounts⟩
  · exact hbound _ List.mem_cons_self "Top" (.byte 2) (List.mem_of_getElem? (i := 1) rfl)
  · exact hsame "PI" fun g _ m _ => Dotless.ne_qualified (by decide +kernel) g.name m.1
  · exact hsame "Top" fun g _ m _ => Dotless.ne_qualified (by decide +kernel) g.name m.1

end Program

end ProtoScript
