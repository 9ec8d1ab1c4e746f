import ProtoScript.Proofs.Analysis.Keeps
import ProtoScript.Proofs.Source.Nodes

set_option autoImplicit false

/-!
# What the checker notes on nodes

The nodes of a checked program have a property if it holds of every node on which no constant is noted, and of every
name and member for which the context has the constant that is noted (`Establishes`). Nothing else can become of a
node, whatever is found wrong with the program (`Establishes.program`).

`Results` is the judgement that the result of a step has a property, whatever the state is. As opposed to
`Looks` it says nothing of the state behind the step, and holds where problems are reported too.
-/

namespace ProtoScript

/-- The note does not say that the node stands for a constant. -/
def Note.IsPlain (n : Note) : Prop := ∀ v, n.value? ≠ some (.constant v)

/-- On none of the nodes a constant is noted. -/
def ArePlain (nodes : List Expr) : Prop := ∀ e ∈ nodes, e.note.IsPlain

namespace Analysis

variable {c : Context}

section

variable {α β : Type} {p : α → Prop} {r : β → Prop} {m : Check α} {f : α → Check β}

/-- The result of the step has the property. -/
def Results (c : Context) (p : α → Prop) (m : Check α) : Prop := ∀ s, p (m c s).1

theorem results_pure {a : α} (h : p a) : Results c p (pure a) := fun _ => h

theorem Results.bind (hm : Results c p m) (hf : ∀ a, p a → Results c r (f a)) : Results c r (m >>= f) :=
  fun s => hf _ (hm s) _

/-- A step of which the result does not matter, and the steps behind it. -/
theorem results_then (hf : ∀ a, Results c r (f a)) : Results c r (m >>= f) := fun _ => hf _ _

theorem results_read {f : Context → Check β} (h : Results c r (f c)) : Results c r (read >>= f) := h

theorem results_withReader {g : Context → Context} (h : Results (g c) p m) : Results c p (withReader g m) := h

theorem Results.inScope (h : Results c p m) (kind : ScopeKind) : Results c p (inScope kind m) :=
  results_then fun _ => h.bind fun _ ha => results_then fun _ => results_pure ha

theorem Results.repeated (h : Results c p m) : Results c p (repeated m) :=
  results_then fun _ => results_then fun _ => h.bind fun _ ha =>
    results_then fun _ => results_then fun _ => results_pure ha

theorem results_mapM {l : List α} (hf : ∀ a ∈ l, Results c r (f a)) :
    Results c (fun bs => ∀ b ∈ bs, r b) (l.mapM f) := by
  induction l with
  | nil =>
      rw [List.mapM_nil]
      exact results_pure nofun
  | cons a rest ih =>
      rw [List.mapM_cons]
      refine (hf a List.mem_cons_self).bind fun _ hb => ?_
      refine (ih fun a ha => hf a (List.mem_cons_of_mem _ ha)).bind fun _ hbs => ?_
      exact results_pure (List.forall_mem_cons.2 ⟨hb, hbs⟩)

end

/-! ## Notes without constants -/

section

variable {n : Note}

theorem results_noteLiteral (hn : n.IsPlain) (v : Literal) (expected : Option Ty) :
    Results c Note.IsPlain (noteLiteral n v expected) := by
  unfold noteLiteral
  split
  · exact results_then fun _ => results_pure hn
  · exact results_pure hn

theorem results_noteSelf (hn : n.IsPlain) : Results c Note.IsPlain (noteSelf n) := by
  refine results_read ?_
  split
  · exact results_pure hn
  · exact results_then fun _ => results_pure hn

theorem results_noteUnary (hn : n.IsPlain) (op : UnaryOp) (operand : Option Ty) :
    Results c Note.IsPlain (noteUnary n op operand) := by
  unfold noteUnary
  split
  · exact results_pure hn
  · split
    · exact results_pure hn
    · exact results_then fun _ => results_pure hn

theorem results_noteBinary (hn : n.IsPlain) (op : BinaryOp) (left right : Option Ty) :
    Results c Note.IsPlain (noteBinary n op left right) := by
  unfold noteBinary
  split
  · exact results_then fun _ => results_pure hn
  · exact results_pure hn

theorem results_noteTernary (hn : n.IsPlain) (a b : Expr) : Results c Note.IsPlain (noteTernary n a b) := by
  unfold noteTernary
  split
  · refine results_then fun _ => ?_
    split
    · exact results_pure hn
    · refine results_then fun _ => ?_
      split
      · exact results_pure hn
      · exact results_then fun _ => results_pure hn
  · exact results_pure hn

theorem results_noteCast (hn : n.IsPlain) (e : Expr) (target : Ty) :
    Results c Note.IsPlain (noteCast n e target) := by
  unfold noteCast
  split
  · exact results_pure hn
  · split
    · exact results_then fun _ => results_pure hn
    · exact results_then fun _ => results_pure hn

theorem results_noteMember (hn : n.IsPlain) (object : Ty) (member : String) :
    Results c Note.IsPlain (noteMember n object member) := by
  unfold noteMember
  split
  · refine results_read ?_
    split
    · exact results_then fun _ => results_pure fun _ => nofun
    · split
      · exact results_then fun _ => results_pure hn
      · exact results_then fun _ => results_pure hn
  · exact results_then fun _ => results_pure hn

end

/-! ## Names and members -/

/-- The property holds of nodes without a constant, and of names and members of which the context has the
constant. -/
structure Establishes (c : Context) (p : Expr → Prop) : Prop where
  plain : ∀ e : Expr, e.note.IsPlain → p e
  imported : ∀ n name k v, importedConstant? c name = some k → k.toConstant? = some v →
    p (.ident (denotes n k.ty (.constant v)) name)
  groupMember : ∀ n note owner g name v, c.groups.get? owner = some g → g.member? name = some v →
    p (.member (denotes n g.base (.constant v)) (.ident note owner) name)
  moduleMember : ∀ n note owner module name k v, c.groups.get? owner = none →
    c.imports.namespace? owner = some module → c.library.constant? module name = some k → k.toConstant? = some v →
    p (.member (denotes n k.ty (.constant v)) (.ident note owner) name)

/-- What stands in front of a dot and is no value is the name of a group, or else that of a module. -/
def Owner.IsOf (c : Context) (e : Expr) : Owner → Prop
  | .group g => ∃ note owner, e = .ident note owner ∧ c.groups.get? owner = some g
  | .module m => ∃ note owner, e = .ident note owner ∧ c.groups.get? owner = none ∧ c.imports.namespace? owner = some m

theorem results_owner? (e : Expr) : Results c (fun o => ∀ owner ∈ o, owner.IsOf c e) (owner? e) := by
  unfold owner?
  split
  case h_1 note name =>
    refine results_then fun _ => ?_
    split
    · exact results_pure nofun
    · refine results_read ?_
      split
      · rename_i g hg
        refine results_pure ?_
        rintro _ ⟨⟩
        exact ⟨note, name, rfl, hg⟩
      · rename_i hg
        refine results_pure fun o ho => ?_
        obtain ⟨m, hm, rfl⟩ := Option.map_eq_some_iff.1 ho
        exact ⟨note, name, rfl, hg, hm⟩
  case h_2 => exact results_pure nofun

namespace Establishes

variable {p : Expr → Prop}

section

variable (h : Establishes c p)

include h

/-- The context may be that of another body of the same program. -/
theorem body (proto? : Option String) (ret : Ty) : Establishes { c with proto?, ret } p :=
  ⟨h.plain, h.imported, h.groupMember, h.moduleMember⟩

theorem noteLibraryConstant {n : Note} (hn : n.IsPlain) {k : LibraryConstant} {make : Note → Expr}
    (hmake : ∀ n, (make n).note = n)
    (hk : ∀ v, k.toConstant? = some v → p (make (denotes n k.ty (.constant v)))) :
    Results c (fun n => p (make n)) (noteLibraryConstant n k) := by
  unfold Analysis.noteLibraryConstant
  split
  · rename_i v hv
    exact results_pure (hk v hv)
  · refine results_then fun _ => results_pure (h.plain _ ?_)
    rw [hmake]
    exact hn

theorem noteGlobal {n : Note} (hn : n.IsPlain) (name : String) :
    Results c (fun n => p (.ident n name)) (noteGlobal n name) := by
  refine results_read ?_
  split
  · exact results_pure (h.plain _ fun _ => nofun)
  · split
    · rename_i k hk
      exact h.noteLibraryConstant hn (fun _ => rfl) fun v hv => h.imported n name k v hk hv
    · -- The name stands for something that is no value, or for nothing.
      split
      · exact results_then fun _ => results_pure (h.plain _ hn)
      · exact results_then fun _ => results_pure (h.plain _ hn)

theorem noteName {n : Note} (hn : n.IsPlain) (name : String) :
    Results c (fun n => p (.ident n name)) (noteName n name) := by
  refine results_then fun _ => ?_
  split
  · exact results_then fun _ => results_pure (h.plain _ hn)
  · exact h.noteGlobal hn name

theorem noteGroupMember {n : Note} (hn : n.IsPlain) {e : Expr} {g : Group} (hg : (Owner.group g).IsOf c e)
    (name : String) : Results c (fun n => p (.member n e name)) (noteGroupMember n g name) := by
  obtain ⟨note, owner, rfl, hg⟩ := hg
  unfold Analysis.noteGroupMember
  split
  · rename_i v hv
    exact results_pure (h.groupMember n note owner g name v hg hv)
  · exact results_then fun _ => results_pure (h.plain _ hn)

theorem noteModuleMember {n : Note} (hn : n.IsPlain) {e : Expr} {m : String} (hm : (Owner.module m).IsOf c e)
    (name : String) : Results c (fun n => p (.member n e name)) (noteModuleMember n m name) := by
  obtain ⟨note, owner, rfl, hg, hm⟩ := hm
  refine results_read ?_
  dsimp only
  split
  · rename_i k hk
    exact h.noteLibraryConstant hn (fun _ => rfl) fun v hv => h.moduleMember n note owner m name k v hg hm hk hv
  · split
    · exact results_then fun _ => results_pure (h.plain _ hn)
    · exact results_then fun _ => results_pure (h.plain _ hn)

/-! ## Expressions -/

/-- Nodes on which nothing was noted have the property. -/
theorem nodes {es : List Expr} (hes : ArePlain es) : ∀ e ∈ es, p e := fun e he => h.plain e (hes e he)

theorem untyped {e : Expr} (he : ArePlain e.nodes) : ∀ x ∈ e.untyped.nodes, p x := by
  refine h.nodes ?_
  cases e <;> exact List.forall_mem_cons.2 (List.forall_mem_cons.1 he)

end

mutual

/-- All nodes of a checked expression have the property. -/
theorem checkExpr (h : Establishes c p) : (expected : Option Ty) → (e : Expr) → ArePlain e.nodes →
    Results c (fun e => ∀ x ∈ e.nodes, p x) (checkExpr expected e)
  | expected, .literal n v, hp => by
      rw [Analysis.checkExpr]
      refine (results_noteLiteral (hp _ List.mem_cons_self) v expected).bind fun _ hn => ?_
      exact results_pure (List.forall_mem_singleton.2 (h.plain _ hn))
  | expected, .ident n x, hp => by
      rw [Analysis.checkExpr]
      refine (h.noteName (hp _ List.mem_cons_self) x).bind fun _ hn => ?_
      exact results_pure (List.forall_mem_singleton.2 hn)
  | expected, .self n, hp => by
      rw [Analysis.checkExpr]
      refine (results_noteSelf (hp _ List.mem_cons_self)).bind fun _ hn => ?_
      exact results_pure (List.forall_mem_singleton.2 (h.plain _ hn))
  | expected, .unary n op e, hp => by
      rw [Analysis.checkExpr]
      obtain ⟨hn, he⟩ := List.forall_mem_cons.1 hp
      refine (h.checkExpr _ e he).bind fun _ he => (results_noteUnary hn _ _).bind fun _ hn => ?_
      exact results_pure (List.forall_mem_cons.2 ⟨h.plain _ hn, he⟩)
  | expected, .binary n op l r, hp => by
      rw [Analysis.checkExpr]
      obtain ⟨hn, hp⟩ := List.forall_mem_cons.1 hp
      obtain ⟨hl, hr⟩ := List.forall_mem_append.1 hp
      -- A whole number on the left is checked after the right side, but stays in front of it.
      split
      · refine (h.checkExpr _ r hr).bind fun _ hr => (h.checkExpr _ l hl).bind fun _ hl => ?_
        refine (results_noteBinary hn _ _ _).bind fun _ hn => results_pure ?_
        exact List.forall_mem_cons.2 ⟨h.plain _ hn, List.forall_mem_append.2 ⟨hl, hr⟩⟩
      · refine (h.checkExpr _ l hl).bind fun _ hl => (h.checkExpr _ r hr).bind fun _ hr => ?_
        refine (results_noteBinary hn _ _ _).bind fun _ hn => results_pure ?_
        exact List.forall_mem_cons.2 ⟨h.plain _ hn, List.forall_mem_append.2 ⟨hl, hr⟩⟩
  | expected, .ternary n e a b, hp => by
      rw [Analysis.checkExpr]
      obtain ⟨hn, hp⟩ := List.forall_mem_cons.1 hp
      obtain ⟨he, hp⟩ := List.forall_mem_append.1 hp
      obtain ⟨ha, hb⟩ := List.forall_mem_append.1 hp
      refine (h.checkExpr _ e he).bind fun _ he => results_then fun _ => ?_
      refine (h.checkExpr _ a ha).bind fun _ ha => (h.checkExpr _ b hb).bind fun _ hb => ?_
      refine (results_noteTernary hn _ _).bind fun _ hn => results_pure (List.forall_mem_cons.2 ⟨h.plain _ hn, ?_⟩)
      exact List.forall_mem_append.2 ⟨he, List.forall_mem_append.2 ⟨ha, hb⟩⟩
  | expected, .call n name args, hp => by
      rw [Analysis.checkExpr]
      obtain ⟨hn, hargs⟩ := List.forall_mem_cons.1 hp
      refine results_then fun _ => ?_
      split
      · refine results_then fun _ => (h.checkArgs _ args hargs).bind fun _ hargs => results_pure ?_
        exact List.forall_mem_cons.2 ⟨h.plain _ hn, hargs⟩
      · split
        · refine results_then fun _ => (h.checkArgs _ args hargs).bind fun _ hargs => results_then fun _ => ?_
          exact results_pure (List.forall_mem_cons.2 ⟨h.plain _ hn, hargs⟩)
        · refine results_then fun _ => results_then fun _ => (h.checkArgs _ args hargs).bind fun _ hargs => ?_
          exact results_pure (List.forall_mem_cons.2 ⟨h.plain _ hn, hargs⟩)
  | expected, .methodCall n e method args, hp => by
      rw [Analysis.checkExpr]
      obtain ⟨hn, hparts⟩ := List.forall_mem_cons.1 hp
      obtain ⟨he, hargs⟩ := List.forall_mem_append.1 hparts
      -- The receiver is a module, a prototype, a group, or a value. Nothing below the call of a group is checked, nor
      -- are the arguments for a prototype.
      refine results_then fun _ => ?_
      split
      · refine results_then fun _ => results_then fun _ => (h.checkArgs _ args hargs).bind fun _ hargs => ?_
        refine results_pure (List.forall_mem_cons.2 ⟨h.plain _ hn, ?_⟩)
        exact List.forall_mem_append.2 ⟨h.untyped he, hargs⟩
      · refine results_then fun _ => (h.checkExpr _ e he).bind fun _ he => results_pure ?_
        exact List.forall_mem_cons.2 ⟨h.plain _ hn, List.forall_mem_append.2 ⟨he, h.nodes hargs⟩⟩
      · exact results_then fun _ => results_pure (h.nodes hp)
      · refine (h.checkExpr _ e he).bind fun _ he => ?_
        split
        · refine (h.checkArgs _ args hargs).bind fun _ hargs => results_pure ?_
          exact List.forall_mem_cons.2 ⟨h.plain _ hn, List.forall_mem_append.2 ⟨he, hargs⟩⟩
        · refine results_then fun _ => results_then fun _ => (h.checkArgs _ args hargs).bind fun _ hargs => ?_
          refine results_then fun _ => results_pure ?_
          exact List.forall_mem_cons.2 ⟨h.plain _ hn, List.forall_mem_append.2 ⟨he, hargs⟩⟩
  | expected, .member n e name, hp => by
      rw [Analysis.checkExpr]
      obtain ⟨hn, he⟩ := List.forall_mem_cons.1 hp
      -- The name of a group or of a module is not checked itself, so its node is as it was.
      refine (results_owner? e).bind fun o ho => ?_
      split
      · refine (h.noteGroupMember hn (ho _ rfl) name).bind fun _ hn => results_pure ?_
        exact List.forall_mem_cons.2 ⟨hn, h.nodes he⟩
      · refine (h.noteModuleMember hn (ho _ rfl) name).bind fun _ hn => results_pure ?_
        exact List.forall_mem_cons.2 ⟨hn, h.nodes he⟩
      · refine (h.checkExpr _ e he).bind fun _ he => ?_
        split
        · exact results_pure (List.forall_mem_cons.2 ⟨h.plain _ hn, he⟩)
        · refine (results_noteMember hn _ _).bind fun _ hn => results_pure ?_
          exact List.forall_mem_cons.2 ⟨h.plain _ hn, he⟩
  | expected, .index n e i, hp => by
      rw [Analysis.checkExpr]
      obtain ⟨hn, hp⟩ := List.forall_mem_cons.1 hp
      obtain ⟨he, hi⟩ := List.forall_mem_append.1 hp
      refine (h.checkExpr _ e he).bind fun _ he => ?_
      split
      · refine (h.checkExpr _ i hi).bind fun _ hi => results_pure ?_
        exact List.forall_mem_cons.2 ⟨h.plain _ hn, List.forall_mem_append.2 ⟨he, hi⟩⟩
      · refine (h.checkExpr _ i hi).bind fun _ hi => results_then fun _ => results_pure ?_
        exact List.forall_mem_cons.2 ⟨h.plain _ hn, List.forall_mem_append.2 ⟨he, hi⟩⟩
  | expected, .cast n e target, hp => by
      rw [Analysis.checkExpr]
      obtain ⟨hn, he⟩ := List.forall_mem_cons.1 hp
      refine (h.checkExpr _ e he).bind fun _ he => (results_noteCast hn _ _).bind fun _ hn => ?_
      exact results_pure (List.forall_mem_cons.2 ⟨h.plain _ hn, he⟩)
  | expected, .list n items, hp => by
      rw [Analysis.checkExpr]
      obtain ⟨hn, hitems⟩ := List.forall_mem_cons.1 hp
      refine (h.checkItems _ items hitems).bind fun _ hitems => results_pure ?_
      exact List.forall_mem_cons.2 ⟨h.plain _ hn, hitems⟩
  | expected, .map n entries, hp => by
      rw [Analysis.checkExpr]
      obtain ⟨hn, hentries⟩ := List.forall_mem_cons.1 hp
      refine (h.checkEntries _ _ entries hentries).bind fun _ hentries => results_pure ?_
      exact List.forall_mem_cons.2 ⟨h.plain _ hn, hentries⟩

theorem checkArgs (h : Establishes c p) : (params : List Ty) → (args : List Expr) → ArePlain (allNodes args) →
    Results c (fun args => ∀ x ∈ allNodes args, p x) (checkArgs params args)
  | _, [], _ => by
      rw [Analysis.checkArgs]
      exact results_pure nofun
  | [], e :: rest, hp => by
      rw [Analysis.checkArgs]
      obtain ⟨he, hrest⟩ := List.forall_mem_append.1 hp
      refine (h.checkExpr _ e he).bind fun _ he => (h.checkArgs _ rest hrest).bind fun _ hrest => ?_
      exact results_pure (List.forall_mem_append.2 ⟨he, hrest⟩)
  | ty :: params, e :: rest, hp => by
      rw [Analysis.checkArgs]
      obtain ⟨he, hrest⟩ := List.forall_mem_append.1 hp
      refine (h.checkExpr _ e he).bind fun _ he => results_then fun _ => results_then fun _ => ?_
      refine (h.checkArgs _ rest hrest).bind fun _ hrest => ?_
      exact results_pure (List.forall_mem_append.2 ⟨he, hrest⟩)

theorem checkItems (h : Establishes c p) : (elem : Option Ty) → (items : List Expr) → ArePlain (allNodes items) →
    Results c (fun r => ∀ x ∈ allNodes r.1, p x) (checkItems elem items)
  | _, [], _ => by
      rw [Analysis.checkItems]
      exact results_pure nofun
  | elem, e :: rest, hp => by
      rw [Analysis.checkItems]
      obtain ⟨he, hrest⟩ := List.forall_mem_append.1 hp
      refine (h.checkExpr _ e he).bind fun _ he => ?_
      split
      · refine results_then fun _ => (h.checkItems _ rest hrest).bind fun _ hrest => ?_
        exact results_pure (List.forall_mem_append.2 ⟨he, hrest⟩)
      · refine results_then fun _ => results_then fun _ => results_then fun _ => ?_
        refine (h.checkItems _ rest hrest).bind fun _ hrest => ?_
        exact results_pure (List.forall_mem_append.2 ⟨he, hrest⟩)

theorem checkEntries (h : Establishes c p) : (key value : Option Ty) → (entries : List (Expr × Expr)) →
    ArePlain (entryNodes entries) →
    Results c (fun r => ∀ x ∈ entryNodes r.1, p x) (checkEntries key value entries)
  | _, _, [], _ => by
      rw [Analysis.checkEntries]
      exact results_pure nofun
  | key, value, (k, v) :: rest, hp => by
      rw [Analysis.checkEntries]
      obtain ⟨hk, hp⟩ := List.forall_mem_append.1 hp
      obtain ⟨hv, hrest⟩ := List.forall_mem_append.1 hp
      -- What is done behind the key is the same whether the key has a type or not.
      have hvalue : ∀ (k' : Expr) (keyTy : Option Ty), (∀ x ∈ k'.nodes, p x) →
          Results c (fun r => ∀ x ∈ entryNodes r.1, p x) (Analysis.checkExpr value v >>= fun v' => do
            let valueTy ← match v'.type? with
              | none => pure value
              | some ty => unify value ty (.mapEntries .value · ty) v'.span
            escape v'
            let (rest, keyTy, valueTy) ← Analysis.checkEntries keyTy valueTy rest
            return ((k', v') :: rest, keyTy, valueTy)) := by
        intro k' keyTy hk
        refine (h.checkExpr _ v hv).bind fun v' hv => ?_
        split
        · refine results_then fun _ => results_then fun _ => (h.checkEntries _ _ rest hrest).bind fun _ hrest => ?_
          exact results_pure (List.forall_mem_append.2 ⟨hk, List.forall_mem_append.2 ⟨hv, hrest⟩⟩)
        · refine results_then fun _ => results_then fun _ => (h.checkEntries _ _ rest hrest).bind fun _ hrest => ?_
          exact results_pure (List.forall_mem_append.2 ⟨hk, List.forall_mem_append.2 ⟨hv, hrest⟩⟩)
      refine (h.checkExpr _ k hk).bind fun k' hk => ?_
      split
      · exact results_then fun _ => hvalue k' _ hk
      · exact results_then fun _ => results_then fun _ => hvalue k' _ hk

end

end Establishes

end Analysis

end ProtoScript
