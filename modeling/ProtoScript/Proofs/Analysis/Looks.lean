import ProtoScript.Proofs.Analysis.Knowledge
import ProtoScript.Proofs.Source.Nodes

set_option autoImplicit false

/-!
# What expressions look at

If the checker goes through an expression and reports nothing, every variable in it is known to have a value,
and there is a receiver if the expression looks at one (`looks_checkExpr`). Checking an expression
changes nothing but the known lengths of lists, so it does not matter where in the expression a name stands.

`Looks` is the judgement that the result of a step has a property if the step reports nothing. Its rule for
sequences hands on what is known of the results so far, so the proofs go along with the definitions of the
checker.
-/

namespace ProtoScript

/-- For each name, whether it is that of a variable, and whether the variable is known to have a value. -/
def Scopes.look (s : Scopes) (x : String) : Option Bool := (s.resolve? x).map Binding.initialized

theorem Scopes.look_forgetLengths (s : Scopes) : s.forgetLengths.look = s.look := by
  funext x
  unfold look
  rw [← find?_frames, ← find?_frames]
  induction s with
  | nil => rfl
  | cons scope outer ih =>
      have hlookup : (Scopes.frames (forgetLengths (scope :: outer))).head? = some
          (scope.bindings.map fun p => (p.1, { p.2 with length? := none })) := rfl
      show (Frames.find? ((scope.bindings.map fun p => (p.1, { p.2 with length? := none })) ::
        frames (forgetLengths outer)) x).map _ = (Frames.find? (scope.bindings :: frames outer) x).map _
      rw [Frames.find?_cons, Frames.find?_cons, lookup_map (f := fun _ b => { b with length? := none })]
      cases scope.bindings.lookup x with
      | some b => rfl
      | none => exact ih

namespace Analysis

variable {c : Context} {look : String → Option Bool}

/-- A variable of that name is known to have a value, and a receiver is that of a method. -/
def Settled (c : Context) (look : String → Option Bool) : Expr → Prop
  | .ident _ x => look x ≠ some false
  | .self _ => c.proto?.isSome
  | _ => True

section

variable {α β : Type} {p q : α → Prop} {r : β → Prop} {m : Check α} {f : α → Check β}

/-- The step changes nothing in the scopes but the known lengths of lists, and its result has the property
if it reports nothing. -/
structure Looks (c : Context) (look : String → Option Bool) (p : α → Prop) (m : Check α) : Prop where
  inspects : Inspects m
  holds : ∀ s : State, s.scopes.look = look → (m c s).2.count ≤ s.count → p (m c s).1

theorem Inspects.look_eq (hm : Inspects m) (c : Context) (s : State) :
    (m c s).2.scopes.look = s.scopes.look := by
  rw [← Scopes.look_forgetLengths, (hm c s).scopes, Scopes.look_forgetLengths]

theorem Looks.bind (hm : Looks c look p m) (hf : ∀ a, Looks c look (fun b => p a → r b) (f a)) :
    Looks c look r (m >>= f) := by
  refine ⟨hm.inspects.bind fun a => (hf a).inspects, fun s hs hsilent => ?_⟩
  have h₁ : s.count ≤ (m c s).2.count := hm.inspects.count_le rfl
  have h₂ : (m c s).2.count ≤ (f (m c s).1 c (m c s).2).2.count := (hf _).inspects.count_le rfl
  have hend : (f (m c s).1 c (m c s).2).2.count ≤ s.count := hsilent
  have hlook : (m c s).2.scopes.look = look := (hm.inspects.look_eq c s).trans hs
  exact (hf _).holds _ hlook (by omega) (hm.holds s hs (by omega))

theorem Looks.mono (hm : Looks c look p m) (h : ∀ a, p a → q a) : Looks c look q m :=
  ⟨hm.inspects, fun s hs hsilent => h _ (hm.holds s hs hsilent)⟩

theorem looks_pure {a : α} (h : p a) : Looks c look p (pure a) := ⟨inspects_pure a, fun _ _ _ => h⟩

/-- A step whose result has the property in any case. -/
theorem Inspects.looks (h : Inspects m) (hp : ∀ a, p a) : Looks c look p m := ⟨h, fun _ _ _ => hp _⟩

/-- A step of which nothing is used, and the steps behind it. -/
theorem Inspects.then (h : Inspects m) (hf : ∀ a, Looks c look r (f a)) : Looks c look r (m >>= f) :=
  (h.looks (p := fun _ => True) fun _ => trivial).bind fun a => (hf a).mono fun _ hb _ => hb

/-- What is done behind a report does not matter. -/
theorem looks_report_then {problem : Problem} {span : Span} {f : Unit → Check β} (hf : ∀ a, Inspects (f a)) :
    Looks c look r (report problem span >>= f) := by
  have hreport : Looks c look (fun _ => False) (report problem span) :=
    ⟨inspects_report problem span, fun _ _ hsilent => absurd hsilent (Nat.not_le.2 (count_lt_of_report rfl))⟩
  exact hreport.bind fun a => (hf a).looks fun _ => False.elim

theorem looks_reportName_then {problem : Problem} {span : Span} {name : String} {candidates : List String}
    {f : Unit → Check β} (hf : ∀ a, Inspects (f a)) :
    Looks c look r (reportName problem span name candidates >>= f) := by
  have hreport : Looks c look (fun _ => False) (reportName problem span name candidates) :=
    ⟨inspects_reportName _ _ _ _,
      fun _ _ hsilent => absurd hsilent (Nat.not_le.2 (count_lt_of_reportName rfl))⟩
  exact hreport.bind fun a => (hf a).looks fun _ => False.elim

theorem looks_expect (holds : Bool) (problem : Problem) (span : Span) :
    Looks c look (fun _ => holds) (expect holds problem span) :=
  ⟨namesKept.looks_expect holds problem span, fun _ _ hsilent => (expect_silent rfl hsilent).1⟩

/-- Where the context is read, it is the one at hand. -/
theorem looks_read {f : Context → Check β} (hf : ∀ c, Inspects (f c)) (h : Looks c look r (f c)) :
    Looks c look r (read >>= f) := by
  refine ⟨inspects_read.bind hf, fun s hs hsilent => h.holds s hs hsilent⟩

end

/-! ## Names -/

theorem looks_local? (x : String) :
    Looks c look (fun b => b.map Binding.initialized = look x) (local? x) :=
  ⟨namesKept.looks_local? x, fun _ hs _ => congrFun hs x⟩

theorem looks_noteName (n : Note) (x : String) : Looks c look (fun _ => look x ≠ some false) (noteName n x) := by
  refine (looks_local? x).bind fun b => ?_
  split
  · rename_i b
    refine (looks_expect _ _ _).bind fun _ => looks_pure fun hinit hx => ?_
    rw [← hx, Option.map_some, hinit]
    simp
  · refine (namesKept.looks_noteGlobal n x).looks fun _ hx => ?_
    rw [← hx]
    simp

theorem looks_noteSelf (n : Note) : Looks c look (fun _ => (c.proto?.isSome : Prop)) (noteSelf n) := by
  refine looks_read (fun c => ?_) ?_
  · split
    · exact inspects_pure _
    · exact (inspects_report _ _).bind fun _ => inspects_pure _
  · split
    · rename_i hproto
      exact looks_pure (by rw [hproto]; rfl)
    · exact looks_report_then fun _ => inspects_pure _

/-- What stands for no value is no variable. -/
theorem looks_owner? (e : Expr) :
    Looks c look (fun o => o.isSome → e.Leaves (Settled c look)) (owner? e) := by
  refine ⟨namesKept.looks_owner? e, fun s hs _ hsome => ?_⟩
  obtain ⟨o, ho⟩ := Option.isSome_iff_exists.1 hsome
  obtain ⟨n, x, rfl, hx, _⟩ := (owner?_eq rfl).2 o ho
  show look x ≠ some false
  rw [← hs, Scopes.look, hx]
  nofun

theorem looks_receiver? (e : Expr) (method : String) :
    Looks c look (fun o => o.isSome → e.Leaves (Settled c look)) (receiver? e method) := by
  refine ⟨namesKept.looks_receiver? e method, fun s hs _ hsome => ?_⟩
  obtain ⟨o, ho⟩ := Option.isSome_iff_exists.1 hsome
  obtain ⟨n, x, rfl, hx, _⟩ := (receiver?_eq rfl).2 o ho
  show look x ≠ some false
  rw [← hs, Scopes.look, hx]
  nofun

theorem leaves_untyped {e : Expr} (h : e.Leaves (Settled c look)) : e.untyped.Leaves (Settled c look) := by
  cases e <;> exact h

/-! ## Expressions -/

mutual

/-- In an expression that is checked silently all variables are known to have a value. -/
theorem looks_checkExpr : (expected : Option Ty) → (e : Expr) →
    Looks c look (Expr.Leaves (Settled c look)) (checkExpr expected e)
  | expected, .literal n v => by
      rw [checkExpr]
      exact (namesKept.looks_noteLiteral n v expected).then fun _ => looks_pure trivial
  | expected, .ident n x => by
      rw [checkExpr]
      exact (looks_noteName n x).bind fun _ => looks_pure fun hx => hx
  | expected, .self n => by
      rw [checkExpr]
      exact (looks_noteSelf n).bind fun _ => looks_pure fun hself => hself
  | expected, .unary n op e => by
      rw [checkExpr]
      refine (looks_checkExpr _ e).bind fun _ => ?_
      exact (namesKept.looks_noteUnary _ _ _).then fun _ => looks_pure fun he => he
  | expected, .binary n op l r => by
      rw [checkExpr]
      split
      · refine (looks_checkExpr _ r).bind fun _ => (looks_checkExpr _ l).bind fun _ => ?_
        exact (namesKept.looks_noteBinary _ _ _ _).then fun _ => looks_pure fun hl hr => ⟨hl, hr⟩
      · refine (looks_checkExpr _ l).bind fun _ => (looks_checkExpr _ r).bind fun _ => ?_
        exact (namesKept.looks_noteBinary _ _ _ _).then fun _ => looks_pure fun hr hl => ⟨hl, hr⟩
  | expected, .ternary n e a b => by
      rw [checkExpr]
      refine (looks_checkExpr _ e).bind fun _ => (namesKept.looks_expectCondition _).then fun _ => ?_
      refine (looks_checkExpr _ a).bind fun _ => (looks_checkExpr _ b).bind fun _ => ?_
      exact (namesKept.looks_noteTernary _ _ _).then fun _ => looks_pure fun hb ha he => ⟨he, ha, hb⟩
  | expected, .call n name args => by
      rw [checkExpr]
      refine (namesKept.looks_isNotCallable name).then fun _ => ?_
      split
      · exact looks_report_then fun _ => (namesKept.looks_checkArgs _ args).bind fun _ => inspects_pure _
      · split
        · refine (namesKept.looks_expect _ _ _).then fun _ => (looks_checkArgs _ args).bind fun _ => ?_
          exact (namesKept.looks_expectPrintable _).then fun _ => looks_pure fun hargs => hargs
        · refine (namesKept.looks_functionCallee? _ _).then fun _ => (namesKept.looks_expectedArgs _ _ _).then fun _ => ?_
          exact (looks_checkArgs _ args).bind fun _ => looks_pure fun hargs => hargs
  | expected, .methodCall n e method args => by
      rw [checkExpr]
      refine (looks_receiver? e method).bind fun receiver => ?_
      split
      · refine (namesKept.looks_moduleCallee? _ _ _).then fun _ => (namesKept.looks_expectedArgs _ _ _).then fun _ => ?_
        exact (looks_checkArgs _ args).bind fun _ =>
          looks_pure fun hargs he => ⟨leaves_untyped (he rfl), hargs⟩
      · refine (looks_expect _ _ _).bind fun _ => (looks_checkExpr _ e).bind fun _ => ?_
        refine looks_pure fun he hargs _ => ⟨he, ?_⟩
        rw [List.isEmpty_iff.1 hargs]
        trivial
      · exact looks_reportName_then fun _ => inspects_pure _
      · refine (looks_checkExpr _ e).bind fun _ => ?_
        split
        · exact (looks_checkArgs _ args).bind fun _ => looks_pure fun hargs he _ => ⟨he, hargs⟩
        · refine (namesKept.looks_methodCallee? _ _ _).then fun _ => (namesKept.looks_expectedArgs _ _ _).then fun _ => ?_
          refine (looks_checkArgs _ args).bind fun _ => ?_
          exact (namesKept.looks_trackLength _ _ _).then fun _ => looks_pure fun hargs he _ => ⟨he, hargs⟩
  | expected, .member n e name => by
      rw [checkExpr]
      refine (looks_owner? e).bind fun _ => ?_
      split
      · exact (namesKept.looks_noteGroupMember _ _ _).then fun _ => looks_pure fun he => he rfl
      · exact (namesKept.looks_noteModuleMember _ _ _).then fun _ => looks_pure fun he => he rfl
      · refine (looks_checkExpr _ e).bind fun _ => ?_
        split
        · exact looks_pure fun he _ => he
        · exact (namesKept.looks_noteMember _ _ _).then fun _ => looks_pure fun he _ => he
  | expected, .index n e i => by
      rw [checkExpr]
      refine (looks_checkExpr _ e).bind fun _ => ?_
      split
      · exact (looks_checkExpr _ i).bind fun _ => looks_pure fun hi he => ⟨he, hi⟩
      · refine (looks_checkExpr _ i).bind fun _ => ?_
        exact (namesKept.looks_elementAt? _ _ _).then fun _ => looks_pure fun hi he => ⟨he, hi⟩
  | expected, .cast n e target => by
      rw [checkExpr]
      refine (looks_checkExpr _ e).bind fun _ => ?_
      exact (namesKept.looks_noteCast _ _ _).then fun _ => looks_pure fun he => he
  | expected, .list n items => by
      rw [checkExpr]
      exact (looks_checkItems _ items).bind fun _ => looks_pure fun hitems => hitems
  | expected, .map n entries => by
      rw [checkExpr]
      exact (looks_checkEntries _ _ entries).bind fun _ => looks_pure fun hentries => hentries

theorem looks_checkArgs : (params : List Ty) → (args : List Expr) →
    Looks c look (AllLeaves (Settled c look)) (checkArgs params args)
  | _, [] => by
      rw [checkArgs]
      exact looks_pure trivial
  | [], e :: rest => by
      rw [checkArgs]
      refine (looks_checkExpr _ e).bind fun _ => (looks_checkArgs _ rest).bind fun _ => ?_
      exact looks_pure fun hrest he => ⟨he, hrest⟩
  | ty :: params, e :: rest => by
      rw [checkArgs]
      refine (looks_checkExpr _ e).bind fun _ => (namesKept.looks_expectAssignable _ _).then fun _ => ?_
      refine (namesKept.looks_escape _).then fun _ => (looks_checkArgs _ rest).bind fun _ => ?_
      exact looks_pure fun hrest he => ⟨he, hrest⟩

theorem looks_checkItems : (elem : Option Ty) → (items : List Expr) →
    Looks c look (fun r => AllLeaves (Settled c look) r.1) (checkItems elem items)
  | _, [] => by
      rw [checkItems]
      exact looks_pure trivial
  | elem, e :: rest => by
      rw [checkItems]
      refine (looks_checkExpr _ e).bind fun _ => ?_
      split
      · refine (inspects_pure _).then fun _ => (looks_checkItems _ rest).bind fun _ => ?_
        exact looks_pure fun hrest he => ⟨he, hrest⟩
      · refine (namesKept.looks_unify _ _ _ _).then fun _ => (namesKept.looks_escape _).then fun _ => ?_
        refine (inspects_pure _).then fun _ => (looks_checkItems _ rest).bind fun _ => ?_
        exact looks_pure fun hrest he => ⟨he, hrest⟩

theorem looks_checkEntries : (key value : Option Ty) → (entries : List (Expr × Expr)) →
    Looks c look (fun r => EntryLeaves (Settled c look) r.1) (checkEntries key value entries)
  | _, _, [] => by
      rw [checkEntries]
      exact looks_pure trivial
  | key, value, (k, v) :: rest => by
      rw [checkEntries]
      have hvalue : ∀ k' keyTy, Looks c look (fun r => k'.Leaves (Settled c look) →
          EntryLeaves (Settled c look) r.1) (checkExpr value v >>= fun v' => do
            let valueTy ← match v'.type? with
              | none => pure value
              | some ty => unify value ty (.mapEntries .value · ty) v'.span
            escape v'
            let (rest, keyTy, valueTy) ← checkEntries keyTy valueTy rest
            return ((k', v') :: rest, keyTy, valueTy)) := by
        intro k' keyTy
        refine (looks_checkExpr _ v).bind fun v' => ?_
        split
        · refine (inspects_pure _).then fun _ => (namesKept.looks_escape _).then fun _ => ?_
          exact (looks_checkEntries _ _ rest).bind fun _ => looks_pure fun hrest hv hk => ⟨hk, hv, hrest⟩
        · refine (namesKept.looks_unify _ _ _ _).then fun _ => (namesKept.looks_escape _).then fun _ => ?_
          exact (looks_checkEntries _ _ rest).bind fun _ => looks_pure fun hrest hv hk => ⟨hk, hv, hrest⟩
      refine (looks_checkExpr _ k).bind fun k' => ?_
      split
      · exact (inspects_pure _).then fun _ => hvalue k' _
      · exact (namesKept.looks_expect _ _ _).then fun _ => (namesKept.looks_unify _ _ _ _).then fun _ => hvalue k' _

end

/-! ## What statements look at -/

theorem looks_checkStored (ty : Ty) (e : Expr) :
    Looks c look (Expr.Leaves (Settled c look)) (checkStored ty e) :=
  (looks_checkExpr _ e).bind fun _ => (namesKept.looks_expectAssignable _ _).then fun _ => looks_pure fun he => he

theorem looks_checkCondition (e : Expr) :
    Looks c look (Expr.Leaves (Settled c look)) (checkCondition e) :=
  (looks_checkExpr _ e).bind fun _ => (namesKept.looks_expectCondition _).then fun _ => looks_pure fun he => he

theorem looks_checkAgainst (ty? : Option Ty) (e : Expr) :
    Looks c look (Expr.Leaves (Settled c look)) (checkAgainst ty? e) := by
  unfold checkAgainst
  split
  · exact looks_checkStored _ e
  · exact looks_checkExpr _ e

theorem looks_checkCondition? (e : Option Expr) :
    Looks c look (fun e' => ∀ e ∈ e', e.Leaves (Settled c look)) (checkCondition? e) := by
  cases e with
  | none => exact looks_pure (by simp)
  | some e => exact (looks_checkCondition e).bind fun _ => looks_pure (by simp)

theorem looks_checkTest (ty? : Option Ty) (e : Option Expr) :
    Looks c look (fun e' => ∀ e ∈ e', e.Leaves (Settled c look)) (checkTest ty? e) := by
  cases e with
  | none => exact looks_pure (by simp)
  | some e => exact (looks_checkAgainst ty? e).bind fun _ => looks_pure (by simp)

theorem looks_checkSwitched (e : Expr) :
    Looks c look (Expr.Leaves (Settled c look)) (checkSwitched e) := by
  refine (looks_checkExpr _ e).bind fun _ => ?_
  split
  · exact looks_pure fun he => he
  · exact (namesKept.looks_expect _ _ _).then fun _ => looks_pure fun he => he

theorem looks_checkThrow (span : Span) (e : Expr) :
    Looks c look (Expr.Leaves (Settled c look)) (checkThrow span e) := by
  refine (looks_checkExpr _ e).bind fun _ => ?_
  split
  · exact looks_pure fun he => he
  · exact inspects_read.then fun _ => (namesKept.looks_expect _ _ _).then fun _ => looks_pure fun he => he

theorem looks_checkReturned (span : Span) (ret : Ty) (e : Expr) :
    Looks c look (fun e' => ∀ e ∈ e', e.Leaves (Settled c look)) (checkReturned span ret e) := by
  unfold checkReturned
  split
  · refine (looks_checkExpr _ e).bind fun _ => (inspects_report _ _).then fun _ => ?_
    exact (namesKept.looks_escape _).then fun _ => looks_pure (by simp)
  · refine (looks_checkExpr _ e).bind fun _ => ?_
    split
    · exact (namesKept.looks_escape _).then fun _ => looks_pure (by simp)
    · refine (namesKept.looks_isAssignable _ _).then fun _ => (namesKept.looks_expect _ _ _).then fun _ => ?_
      exact (namesKept.looks_escape _).then fun _ => looks_pure (by simp)

theorem looks_checkReturn (span : Span) (value : Option Expr) :
    Looks c look (fun e' => ∀ e ∈ e', e.Leaves (Settled c look)) (checkReturn span value) := by
  refine inspects_read.then fun c' => ?_
  dsimp only
  split
  · exact (namesKept.looks_expect _ _ _).then fun _ => looks_pure (by simp)
  · refine inspects_read.then fun _ => ?_
    split
    · refine (namesKept.looks_aliasesSelf _).then fun _ => (namesKept.looks_expect _ _ _).then fun _ => ?_
      exact looks_checkReturned span c'.ret _
    · exact looks_checkReturned span c'.ret _

theorem looks_checkAssigned (span : Span) (target : Ty) (op : Option BinaryOp) (value : Expr) :
    Looks c look (Expr.Leaves (Settled c look)) (checkAssigned span target op value) := by
  unfold checkAssigned
  split
  · exact looks_checkStored _ value
  · refine (looks_checkExpr _ value).bind fun _ => ?_
    split
    · exact looks_pure fun he => he
    · refine (namesKept.looks_binaryResult? _ _ _ _).then fun _ => ?_
      split
      · exact looks_pure fun he => he
      · exact (namesKept.looks_expect _ _ _).then fun _ => looks_pure fun he => he

theorem looks_checkAssignMember (span : Span) (target : Expr) (op : Option BinaryOp) (value : Expr) :
    Looks c look (fun r => r.1.Leaves (Settled c look) ∧ r.2.Leaves (Settled c look))
      (checkAssignMember span target op value) := by
  refine (looks_checkExpr _ target).bind fun _ => ?_
  split
  · exact (looks_checkExpr _ value).bind fun _ => looks_pure fun hv ht => ⟨ht, hv⟩
  · refine (namesKept.looks_expectMutable _ _).then fun _ => (looks_checkAssigned _ _ _ value).bind fun _ => ?_
    exact (namesKept.looks_escape _).then fun _ => looks_pure fun hv ht => ⟨ht, hv⟩

theorem looks_checkAssignIndex (span : Span) (n : Note) (object index : Expr) (op : Option BinaryOp)
    (value : Expr) :
    Looks c look (fun r => r.1.Leaves (Settled c look) ∧ r.2.Leaves (Settled c look))
      (checkAssignIndex span n object index op value) := by
  refine (looks_checkExpr _ object).bind fun _ => ?_
  split
  · refine (looks_checkExpr _ index).bind fun _ => (looks_checkExpr _ value).bind fun _ => ?_
    exact looks_pure fun hv hi ho => ⟨⟨ho, hi⟩, hv⟩
  · split
    · refine (inspects_report _ _).then fun _ => (looks_checkExpr _ index).bind fun _ => ?_
      exact (looks_checkExpr _ value).bind fun _ => looks_pure fun hv hi ho => ⟨⟨ho, hi⟩, hv⟩
    · refine (looks_checkExpr _ index).bind fun _ => (namesKept.looks_elementAt? _ _ _).then fun _ => ?_
      split
      · refine (looks_checkAssigned _ _ _ value).bind fun _ => (namesKept.looks_escape _).then fun _ => ?_
        exact looks_pure fun hv hi ho => ⟨⟨ho, hi⟩, hv⟩
      · refine (looks_checkExpr _ value).bind fun _ => (namesKept.looks_escape _).then fun _ => ?_
        exact looks_pure fun hv hi ho => ⟨⟨ho, hi⟩, hv⟩

/-! ## Assignments -/

section

variable {α : Type} {p : α → Prop} {m : Check α} {a : α} {s s' : State}

/-- What the judgement says of a step that is taken silently. -/
theorem Passes.looks (h : Passes m c s a s') (hm : Looks c s.scopes.look p m) :
    p a ∧ s'.scopes.known = s.scopes.known := by
  have hrun := h.run
  have hholds := hm.holds s rfl
  have hscopes := (hm.inspects c s).scopes
  rw [hrun] at hholds hscopes
  exact ⟨hholds h.silent, Scopes.known_of_forgetLengths hscopes⟩

end

end Analysis

/-- What the expressions of a statement look at has the property, and so has a variable that is changed by an
operation. -/
def Stmt.Reads (p : Expr → Prop) : Stmt → Prop
  | .assign _ (.ident n x) op e => (op.isSome → p (.ident n x)) ∧ e.Leaves p
  | .assign _ target _ e => target.Leaves p ∧ e.Leaves p
  | .expr _ e => e.Leaves p
  | _ => True

theorem Stmt.reads_assign {p : Expr → Prop} {sp : Span} {target e : Expr} {op : Option BinaryOp}
    (htarget : target.Leaves p) (he : e.Leaves p) : (Stmt.assign sp target op e).Reads p := by
  cases target with
  | ident n x => exact ⟨fun _ => htarget, he⟩
  | _ => exact ⟨htarget, he⟩

end ProtoScript
