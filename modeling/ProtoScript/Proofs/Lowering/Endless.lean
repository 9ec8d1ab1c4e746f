import Mathlib.Data.Finset.Card
import Mathlib.Logic.Relation
import ProtoScript.Analysis.Program
import ProtoScript.Proofs.Lowering.FunctionSketch
import ProtoScript.Proofs.Lowering.Instances

set_option autoImplicit false

/-!
# Initial values within themselves

A new instance runs the initial values of its fields, which may need new instances again (`Needs`).
Where that comes to an end, it does within as many levels as the program has fields, because every level
uses up a field (`card_keysAhead_lt`), and lowering does the same at that depth and at any greater one
(`lowerFunction_ends`). Where it does not come to an end, lowering does not either: whatever the depth,
no instance is ever finished (`ends_of_newInstance`).
-/

namespace ProtoScript.Lowering

variable {α β : Type} {c : Context} {m : Lower α} {f : α → Lower β}

/-! ## Instances that were written -/

/-- A new instance of the prototype was written somewhere. -/
def Made (c : Context) (ni : String → Lower Ir.Temp) (proto : String) : Prop :=
  ∃ b t b', Runs c (ni proto) b t b'

/-- Wherever the step succeeds without a variable in sight, new instances of all given prototypes were
written. -/
def Asks (c : Context) (ni : String → Lower Ir.Temp) (protos : List String) (m : Lower α) : Prop :=
  ∀ b a b', Runs c m b a b' → b.scopes = [[]] → ∀ proto ∈ protos, Made c ni proto

section

variable {ni : String → Lower Ir.Temp} {ps qs : List String}

theorem asks_nil : Asks c ni [] m := fun _ _ _ _ _ => nofun

theorem Asks.first (hm : Asks c ni ps m) : Asks c ni ps (m >>= f) := by
  intro b d b' hrun hb
  obtain ⟨a, b₁, hm₁, _⟩ := hrun.of_bind
  exact hm b a b₁ hm₁ hb

theorem Asks.after (hm : Steady m) (hf : ∀ a, Asks c ni qs (f a)) : Asks c ni qs (m >>= f) := by
  intro b d b' hrun hb
  obtain ⟨a, b₁, hm₁, hf₁⟩ := hrun.of_bind
  exact hf a b₁ d b' hf₁ ((hm c b a b₁ hm₁).scopes.trans hb)

theorem Asks.bind (hm : Asks c ni ps m) (hsteady : Steady m) (hf : ∀ a, Asks c ni qs (f a)) :
    Asks c ni (ps ++ qs) (m >>= f) := by
  intro b d b' hrun hb proto hproto
  rcases List.mem_append.1 hproto with hproto | hproto
  · exact hm.first b d b' hrun hb proto hproto
  · exact (Asks.after hsteady hf) b d b' hrun hb proto hproto

theorem asks_new (proto : String) : Asks c ni [proto] (ni proto) := by
  intro b t b' hrun _ p hp
  rw [List.mem_singleton.1 hp]
  exact ⟨b, t, b', hrun⟩

/-- Without a variable in sight, a name stands for no variable. -/
theorem asks_varOf? {x : String} {f : Option String → Lower β} (h : Asks c ni ps (f none)) :
    Asks c ni ps (varOf? x >>= f) := by
  intro b d b' hrun hb
  obtain ⟨v, b₁, hv, hf⟩ := hrun.of_bind
  cases hv
  rw [hb] at hf
  exact h b d b' hf hb

theorem asks_emitTarget (name : String) (target : Option ValueTarget) :
    Asks c ni ((target.map ValueTarget.instances).getD []) (emitTarget ni name target) := by
  cases target with
  | none => exact asks_nil
  | some target =>
      cases target with
      | prototype proto => exact asks_new proto
      | field | constant => exact asks_nil

theorem asks_callOf {n : Note} {f : CallTarget × Bool → Lower β}
    (hf : ∀ target hasResult, n.call? = some target → Asks c ni ps (f (target, hasResult))) :
    Asks c ni ps (callOf n >>= f) := by
  intro b d b' hrun hb
  obtain ⟨r, b₁, hcall, hrest⟩ := hrun.of_bind
  have hsame := steady_callOf n c b r b₁ hcall
  exact hf r.1 r.2 (call_of_callOf hcall) b₁ d b' hrest (hsame.scopes.trans hb)

variable (hni : ∀ proto, Steady (ni proto))

include hni

theorem Asks.value {e : Expr} (he : Asks c ni ps (lowerExpr? ni e)) {f : Ir.Temp → Lower β}
    (hf : ∀ t, Asks c ni qs (f t)) :
    Asks c ni (ps ++ qs) (do let t ← valueOf e (← lowerExpr? ni e); f t) :=
  he.bind (steady_lowerExpr? hni e) fun _ => .after (steady_valueOf _ _) hf

mutual

/-- An expression that was written where no variable is in sight got every instance it asks for. -/
theorem asks_lowerExpr? : (e : Expr) → Asks c ni e.instances (lowerExpr? ni e)
  | .literal .. => by
      rw [Expr.instances]
      exact asks_nil
  | .ident n x => by
      rw [Expr.instances, lowerExpr?]
      exact asks_varOf? (asks_emitTarget x n.value?).first
  | .self _ => by
      rw [Expr.instances]
      exact asks_nil
  | .unary _ op e => by
      rw [Expr.instances, lowerExpr?]
      exact .after (steady_typeOf e) fun _ => (asks_lowerExpr? e).first
  | .binary _ op l r => by
      have hr := asks_lowerExpr? r
      rw [Expr.instances, lowerExpr?]
      split
      · refine (asks_lowerExpr? l).value hni fun a => .after (steady_isTrivial r) fun trivial => ?_
        cases trivial with
        | true => exact hr.first
        | false =>
            exact .after (steady_startLogical op a) fun _ => .after (steady_startBlock _) fun _ => hr.first
      · exact .after (steady_typeOf l) fun _ => (asks_lowerExpr? l).value hni fun _ => hr.first
  | .ternary n e x y => by
      rw [Expr.instances, lowerExpr?]
      refine .after (steady_typeOf _) fun _ => (asks_lowerExpr? e).value hni fun _ =>
        .after (steady_declareJoin _) fun _ => .after (steady_freshLabel _) fun _ =>
        .after (steady_freshLabel _) fun _ => .after (steady_freshLabel _) fun _ =>
        .after (steady_endWith _) fun _ => .after (steady_startBlock _) fun _ => ?_
      exact (asks_lowerExpr? x).value hni fun _ => .after (steady_emit _) fun _ =>
        .after (steady_jump _) fun _ => .after (steady_startBlock _) fun _ => (asks_lowerExpr? y).first
  | .call n name args => by
      have hargs := asks_lowerExprs args
      rw [Expr.instances, lowerExpr?]
      refine asks_callOf fun target hasResult hcall => ?_
      rw [hcall]
      cases target with
      | newInstance proto => exact (asks_new proto).first
      | function | print | foreign => exact hargs.first
      | method | copyInstance | container => exact fun _ _ _ hrun => by cases hrun
  | .methodCall n e name args => by
      have he := asks_lowerExpr? e
      have hargs := asks_lowerExprs args
      rw [Expr.instances, lowerExpr?]
      refine asks_callOf fun target hasResult hcall => ?_
      rw [hcall]
      cases target with
      | newInstance proto => exact (asks_new proto).first
      | function | print => exact hargs.first
      | foreign =>
          cases htype : e.type?.isSome with
          | true =>
              simp only [needsReceiver, needsArgs, htype, if_true]
              exact he.value hni fun _ => hargs.first
          | false =>
              simp only [needsReceiver, needsArgs, htype, Bool.false_eq_true, if_false, if_true,
                List.nil_append]
              exact hargs.first
      | copyInstance => exact he.value hni fun _ => asks_nil
      | method | container => exact he.value hni fun _ => hargs.first
  | .member n e name => by
      rw [Expr.instances, lowerExpr?]
      cases hvalue : n.value? with
      | none => exact asks_nil
      | some target =>
          cases target with
          | field => exact (asks_lowerExpr? e).first
          | constant | prototype => exact asks_nil
  | .index _ e i => by
      rw [Expr.instances, lowerExpr?]
      exact .after (steady_typeOf e) fun _ => (asks_lowerExpr? e).value hni fun _ =>
        (asks_lowerExpr? i).first
  | .cast _ e _ => by
      rw [Expr.instances, lowerExpr?]
      exact (asks_lowerExpr? e).first
  | .list _ items => by
      rw [Expr.instances, lowerExpr?]
      exact .after (steady_typeOf _) fun _ => (asks_lowerExprs items).first
  | .map _ entries => by
      rw [Expr.instances, lowerExpr?]
      exact .after (steady_typeOf _) fun _ => (asks_lowerEntries entries).first

theorem asks_lowerExprs : (es : List Expr) → Asks c ni (instancesOf es) (lowerExprs ni es)
  | [] => by
      rw [instancesOf]
      exact asks_nil
  | e :: rest => by
      rw [instancesOf, lowerExprs]
      exact (asks_lowerExpr? e).value hni fun _ => (asks_lowerExprs rest).first

theorem asks_lowerEntries : (entries : List (Expr × Expr)) →
    Asks c ni (instancesOfEntries entries) (lowerEntries ni entries)
  | [] => by
      rw [instancesOfEntries]
      exact asks_nil
  | (key, value) :: rest => by
      rw [instancesOfEntries, lowerEntries]
      exact (asks_lowerExpr? key).value hni fun _ => (asks_lowerExpr? value).value hni fun _ =>
        (asks_lowerEntries rest).first

end

end

/-! ## What new instances need -/

section

variable (h : Hierarchy) (ps : List PrototypeDecl)

/-- The fields of a new instance that get an initial value, those of the root first. -/
def initialized (proto : String) : List FieldInfo := (h.layout proto).filter (·.hasInit)

/-- A new instance of the first prototype needs one of the second for the initial value of a field. -/
def Needs (proto needed : String) : Prop :=
  ∃ f ∈ initialized h proto, ∃ e, initialValue? ps f = some e ∧ needed ∈ e.instances

/-- Going from new instances to those they need comes to an end. -/
def Ends (proto : String) : Prop := Acc (fun needed proto => Needs h ps proto needed) proto

/-- A field of the prototype with an initial value is known by the given names, its prototype's and its
own. -/
def HasKey (proto : String) (key : String × String) : Prop :=
  ∃ f ∈ initialized h proto, (f.owner, f.name) = key ∧ (initialValue? ps f).isSome

/-- The names of all fields. -/
def fieldKeys : List (String × String) := ps.flatMap fun d => d.fields.map fun f => (d.name, f.name)

open Classical in
/-- The names of the fields whose initial values a new instance may come to. -/
noncomputable def keysAhead (proto : String) : Finset (String × String) :=
  (fieldKeys ps).toFinset.filter fun key =>
    ∃ needed, Relation.ReflTransGen (Needs h ps) proto needed ∧ HasKey h ps needed key

end

section

variable {h : Hierarchy} {ps : List PrototypeDecl} {proto needed : String}

/-- The initial value of a field is found by its names. -/
theorem initialValue?_congr {f g : FieldInfo} (hkey : (f.owner, f.name) = (g.owner, g.name)) :
    initialValue? ps f = initialValue? ps g := by
  obtain ⟨howner, hname⟩ := Prod.mk.inj hkey
  unfold initialValue?
  rw [howner, hname]

theorem mem_fieldKeys {key : String × String} (hkey : HasKey h ps proto key) : key ∈ fieldKeys ps := by
  obtain ⟨f, _, rfl, hinit⟩ := hkey
  obtain ⟨e, he⟩ := Option.isSome_iff_exists.1 hinit
  obtain ⟨d, hd, hfield⟩ := Option.bind_eq_some_iff.1 he
  obtain ⟨g, hg, _⟩ := Option.bind_eq_some_iff.1 hfield
  have howner : d.name = f.owner := by simpa using List.find?_some hd
  have hname : g.name = f.name := by simpa using List.find?_some hg
  rw [← howner, ← hname]
  exact List.mem_flatMap.2 ⟨d, List.mem_of_find?_eq_some hd,
    List.mem_map_of_mem (List.mem_of_find?_eq_some hg)⟩

theorem mem_keysAhead {key : String × String} :
    key ∈ keysAhead h ps proto ↔
      ∃ needed, Relation.ReflTransGen (Needs h ps) proto needed ∧ HasKey h ps needed key := by
  classical
  rw [keysAhead, Finset.mem_filter, List.mem_toFinset]
  exact and_iff_right_of_imp fun ⟨_, _, hkey⟩ => mem_fieldKeys hkey

theorem length_fieldKeys : (fieldKeys ps).length = total (ps.map fun d => d.fields.length) := by
  induction ps with
  | nil => rfl
  | cons d rest ih =>
      have hcons : fieldKeys (d :: rest) = (d.fields.map fun f => (d.name, f.name)) ++ fieldKeys rest := rfl
      rw [hcons, List.length_append, List.length_map, ih]
      rfl

theorem card_keysAhead_lt_depthBound : (keysAhead h ps proto).card < depthBound ps := by
  classical
  have hfilter : (keysAhead h ps proto).card ≤ (fieldKeys ps).toFinset.card := Finset.card_filter_le _ _
  have hlist := (fieldKeys ps).toFinset_card_le
  rw [length_fieldKeys] at hlist
  exact Nat.lt_succ_of_le (hfilter.trans hlist)

/-- What comes to an end does not come back to itself. -/
theorem Ends.not_transGen (hends : Ends h ps proto) : ¬ Relation.TransGen (Needs h ps) proto proto := by
  induction hends with
  | intro proto _ ih =>
      intro hcycle
      obtain ⟨needed, hneeds, hback⟩ := Relation.TransGen.head'_iff.1 hcycle
      exact ih needed hneeds (Relation.TransGen.tail' hback hneeds)

/-- A field whose initial value is used on the way does not come up again. -/
theorem card_keysAhead_lt (hends : Ends h ps proto) (hneeds : Needs h ps proto needed) :
    (keysAhead h ps needed).card < (keysAhead h ps proto).card := by
  refine Finset.card_lt_card ((Finset.ssubset_iff_of_subset fun key hkey => ?_).2 ?_)
  · obtain ⟨last, hleads, hlast⟩ := mem_keysAhead.1 hkey
    exact mem_keysAhead.2 ⟨last, .head hneeds hleads, hlast⟩
  · obtain ⟨f, hf, e, he, hmem⟩ := hneeds
    refine ⟨(f.owner, f.name), mem_keysAhead.2 ⟨proto, .refl, f, hf, rfl, by rw [he]; rfl⟩, fun hagain => ?_⟩
    obtain ⟨last, hleads, g, hg, hkey, _⟩ := mem_keysAhead.1 hagain
    -- the prototype that has the field needs what its initial value needs
    have hlast : Needs h ps last needed := ⟨g, hg, e, (initialValue?_congr hkey).trans he, hmem⟩
    have hneeded : Ends h ps needed := hends.inv ⟨f, hf, e, he, hmem⟩
    exact hneeded.not_transGen (.tail' hleads hlast)

end

/-! ## Depths that agree -/

theorem Agrees.read {k : Comparison} {m m' : Context → Lower β} (h : Agrees k (m k.left) (m' k.right)) :
    Agrees k (read >>= m) (read >>= m') where
  same := h.same
  calm := h.calm

/-- Fields get their values alike if they have the same initial values, and these are written alike. -/
theorem agrees_initFields {k : Comparison} {ni ni' : String → Lower Ir.Temp} {proto : String}
    {object : Ir.Temp} {fields : List FieldInfo}
    (hvalue : initialValue? k.left.prototypes = initialValue? k.right.prototypes)
    (h : ∀ f ∈ fields, ∀ e, initialValue? k.left.prototypes f = some e → AgreeOn k ni ni' e.instances) :
    Agrees k (initFields ni proto object fields) (initFields ni' proto object fields) := by
  induction fields with
  | nil => exact (calm_pure _).agrees
  | cons f rest ih =>
      have hrest := ih fun g hg => h g (List.mem_cons_of_mem _ hg)
      rw [initFields, initFields]
      refine Agrees.read ?_
      rw [← hvalue]
      cases hinit : initialValue? k.left.prototypes f with
      | none => exact hrest
      | some e =>
          exact (agrees_lowerExpr e (h f List.mem_cons_self e hinit)).withoutLocals.bind fun _ =>
            (calm_emit _).before fun _ => hrest

/-- Depths agree on a new instance if they agree, one level less, on those it needs. -/
theorem agrees_newInstance_succ {k : Comparison} {proto : String} {d d' : Nat}
    (hlayout : k.left.hierarchy.layout = k.right.hierarchy.layout)
    (hvalue : initialValue? k.left.prototypes = initialValue? k.right.prototypes)
    (h : ∀ needed, Needs k.left.hierarchy k.left.prototypes proto needed →
      Agrees k (newInstance d needed) (newInstance d' needed)) :
    Agrees k (newInstance (d + 1) proto) (newInstance (d' + 1) proto) := by
  rw [newInstance, newInstance]
  refine (calm_emitValue _).before fun _ => Agrees.read (Agrees.bind ?_ fun _ => (calm_pure _).agrees)
  rw [← hlayout]
  exact agrees_initFields hvalue fun f hf e he needed hneeded => h needed ⟨f, hf, e, he, hneeded⟩

/-- Depths that leave a level for each field ahead agree. -/
theorem agrees_newInstance {proto : String} (hends : Ends c.hierarchy c.prototypes proto) {d d' : Nat}
    (hd : (keysAhead c.hierarchy c.prototypes proto).card < d)
    (hd' : (keysAhead c.hierarchy c.prototypes proto).card < d') :
    Agrees c (newInstance d proto) (newInstance d' proto) := by
  induction hends generalizing d d' with
  | intro proto hnext ih =>
      obtain ⟨d, rfl⟩ := Nat.exists_eq_add_one_of_ne_zero (Nat.ne_zero_of_lt hd)
      obtain ⟨d', rfl⟩ := Nat.exists_eq_add_one_of_ne_zero (Nat.ne_zero_of_lt hd')
      refine agrees_newInstance_succ rfl rfl fun needed hneeds => ?_
      have hlt := card_keysAhead_lt (Acc.intro proto hnext) hneeds
      exact ih needed hneeds (by omega) (by omega)

theorem agrees_lowerBody {k : Comparison} {f : FunctionDecl} {ni ni' : String → Lower Ir.Temp}
    (h : AgreeOn k ni ni' (stmtsInstances f.body)) : Agrees k (lowerBody ni f) (lowerBody ni' f) :=
  (agrees_lowerStmts f.body h).bind fun _ => (calm_endWith _).agrees

/-- A function whose new instances come to an end is lowered in the same way at every depth from that of
the program's fields on, and does not fail for an instance without end. -/
theorem lowerFunction_ends {h : Hierarchy} {ps : List PrototypeDecl} {f : FunctionDecl}
    (hends : ∀ proto ∈ stmtsInstances f.body, Ends h ps proto) (proto? : Option String) :
    (∀ depth, depthBound ps ≤ depth →
      lowerFunction h ps depth proto? f = lowerFunction h ps (depthBound ps) proto? f) ∧
    ∀ e, lowerFunction h ps (depthBound ps) proto? f = .error e →
      ∀ proto, e.cause ≠ .endlessInstance proto := by
  have hagrees : ∀ depth, depthBound ps ≤ depth →
      Agrees (contextOf h ps proto? f) (lowerBody (newInstance (depthBound ps)) f)
        (lowerBody (newInstance depth) f) := by
    intro depth hdepth
    refine agrees_lowerBody fun proto hproto => agrees_newInstance (hends proto hproto) ?_ ?_
    · exact card_keysAhead_lt_depthBound
    · exact Nat.lt_of_lt_of_le card_keysAhead_lt_depthBound hdepth
  refine ⟨fun depth hdepth => ?_, fun e he proto => ?_⟩
  · exact congrArg (· >>= _) ((hagrees depth hdepth).same (startOf proto? f)).symm
  · refine (hagrees _ (Nat.le_refl _)).calm (startOf proto? f) e proto ?_
    cases hrun : lowerBody (newInstance (depthBound ps)) f (contextOf h ps proto? f) (startOf proto? f) with
    | error e' =>
        have hfail : lowerFunction h ps (depthBound ps) proto? f = .error e' := congrArg (· >>= _) hrun
        cases hfail.symm.trans he
        rfl
    | ok r =>
        have hok : lowerFunction h ps (depthBound ps) proto? f = .ok _ := congrArg (· >>= _) hrun
        cases hok.symm.trans he

/-- A box with a pen in it, as the checker leaves their declarations. -/
def penBox : List PrototypeDecl :=
  [ ⟨"Pen", none, false,
      [⟨"width", .int, false, some (.literal ⟨.origin, some .int, none, none⟩ (.int 1)), .everyone, .origin⟩],
      [], .origin⟩,
    ⟨"Box", none, false,
      [⟨"pen", .named "Pen", false,
        some (.ident ⟨.origin, some (.named "Pen"), none, some (.prototype "Pen")⟩ "Pen"), .everyone, .origin⟩],
      [], .origin⟩ ]

/-- A function that makes a box. -/
def packBox : FunctionDecl where
  name := "pack"
  params := []
  ret := .void
  body :=
    [.varDecl .origin "box" (.named "Box") false
      (some (.ident ⟨.origin, some (.named "Box"), none, some (.prototype "Box")⟩ "Box"))]

/-- The hierarchy of the box and the pen. -/
def penBoxHierarchy : Hierarchy := (Hierarchy.build "box.ps" penBox).1

theorem ends_box : Ends penBoxHierarchy penBox "Box" := by
  have hbox : initialized penBoxHierarchy "Box" =
      [⟨"pen", .named "Pen", false, true, .everyone, "Box"⟩] := by decide +kernel
  have hpen : initialized penBoxHierarchy "Pen" =
      [⟨"width", .int, false, true, .everyone, "Pen"⟩] := by decide +kernel
  refine Acc.intro _ fun needed ⟨f, hf, e, he, hneeded⟩ => ?_
  rw [hbox, List.mem_singleton] at hf
  subst hf
  cases he
  rw [List.mem_singleton.1 (show needed ∈ ["Pen"] from hneeded)]
  refine Acc.intro _ fun needed ⟨f, hf, e, he, hneeded⟩ => ?_
  rw [hpen, List.mem_singleton] at hf
  subst hf
  cases he
  cases hneeded

theorem lowerFunction_ends_packBox :
    (∀ proto ∈ stmtsInstances packBox.body, Ends penBoxHierarchy penBox proto) ∧ depthBound penBox = 3 ∧
      (lowerFunction penBoxHierarchy penBox 3 none packBox).toOption.isSome ∧
      ∀ depth, 3 ≤ depth → lowerFunction penBoxHierarchy penBox depth none packBox =
        lowerFunction penBoxHierarchy penBox 3 none packBox := by
  have hends : ∀ proto ∈ stmtsInstances packBox.body, Ends penBoxHierarchy penBox proto := by
    intro proto hproto
    rw [List.mem_singleton.1 (show proto ∈ ["Box"] from hproto)]
    exact ends_box
  exact ⟨hends, rfl, by decide +kernel, (lowerFunction_ends hends none).1⟩

/-! ## Instances that are never finished -/

theorem made_of_initFields {ni : String → Lower Ir.Temp} (hni : ∀ proto, Steady (ni proto))
    {proto : String} {object : Ir.Temp} {fields : List FieldInfo} {b b' : Builder} {u : Unit}
    (hrun : Runs c (initFields ni proto object fields) b u b') {f : FieldInfo} (hf : f ∈ fields) {e : Expr}
    (he : initialValue? c.prototypes f = some e) {needed : String} (hneeded : needed ∈ e.instances) :
    Made c ni needed := by
  induction fields generalizing b with
  | nil => cases hf
  | cons g rest ih =>
      obtain ⟨_, b₀, hread, hrun⟩ := hrun.of_bind
      cases hread
      rcases List.mem_cons.1 hf with rfl | hf
      · dsimp only at hrun
        rw [he] at hrun
        obtain ⟨_, b₁, hlocals, _⟩ := hrun.of_bind
        obtain ⟨_, _, hget, hlocals⟩ := hlocals.of_bind
        obtain ⟨_, _, hset, hlocals⟩ := hlocals.of_bind
        obtain ⟨t, b₂, hvalue, _⟩ := hlocals.of_bind
        cases hget
        cases hset
        have hasks : Asks c ni e.instances (lowerExpr ni e) := (asks_lowerExpr? hni e).first
        exact hasks _ t b₂ hvalue rfl needed hneeded
      · have hrest : ∃ b₁, Runs c (initFields ni proto object rest) b₁ u b' := by
          dsimp only at hrun
          cases hinit : initialValue? c.prototypes g with
          | none =>
              rw [hinit] at hrun
              exact ⟨_, hrun⟩
          | some e' =>
              rw [hinit] at hrun
              obtain ⟨_, _, _, hrun⟩ := hrun.of_bind
              obtain ⟨_, b₁, _, hrun⟩ := hrun.of_bind
              exact ⟨b₁, hrun⟩
        obtain ⟨b₁, hrest⟩ := hrest
        exact ih hrest hf

/-- If a new instance was ever written, then what it needs comes to an end. -/
theorem ends_of_newInstance {proto : String} {depth : Nat} {b b' : Builder} {t : Ir.Temp}
    (hrun : Runs c (newInstance depth proto) b t b') : Ends c.hierarchy c.prototypes proto := by
  induction depth generalizing proto b t b' with
  | zero => cases hrun
  | succ depth ih =>
      refine Acc.intro proto fun needed hneeds => ?_
      obtain ⟨f, hf, e, he, hneeded⟩ := hneeds
      obtain ⟨_, _, _, hrun⟩ := hrun.of_bind
      obtain ⟨_, _, hread, hrun⟩ := hrun.of_bind
      obtain ⟨_, _, hfields, _⟩ := hrun.of_bind
      cases hread
      obtain ⟨b₁, t₁, b₂, hmade⟩ := made_of_initFields (steady_newInstance depth) hfields hf he hneeded
      exact ih hmade

/-- A link whose initial value for the next link is a new link. -/
def endlessLink : Program where
  file := "link.ps"
  imports := []
  decls :=
    [ .prototype ⟨"Link", none, false,
        [⟨"next", .named "Link", false, some (.ident {} "Link"), .everyone, .origin⟩], [], .origin⟩,
      .function ⟨"make", [], .void,
        [.varDecl .origin "link" (.named "Link") false (some (.ident {} "Link"))], .origin⟩ ]

/-- The checker finds no problem, but at no depth is a new link ever finished. -/
theorem endless_link :
    (endlessLink.analyze ⟨[]⟩).isClean ∧
      ∀ depth function b t b', ¬ Runs
        ⟨function, endlessLink.hierarchy.1, (endlessLink.analyze ⟨[]⟩).program.prototypes⟩
        (newInstance depth "Link") b t b' := by
  refine ⟨by decide +kernel, fun depth function b t b' hrun => ?_⟩
  refine (ends_of_newInstance hrun).not_transGen (.single ?_)
  have hfields : initialized endlessLink.hierarchy.1 "Link" =
      [⟨"next", .named "Link", false, true, .everyone, "Link"⟩] := by decide +kernel
  refine ⟨_, hfields ▸ List.mem_singleton_self _, _, rfl, ?_⟩
  exact List.mem_singleton_self _

end ProtoScript.Lowering
