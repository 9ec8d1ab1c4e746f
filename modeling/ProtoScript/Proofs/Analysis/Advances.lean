import ProtoScript.Proofs.Analysis.Leaving
import ProtoScript.Proofs.Analysis.Looks
import ProtoScript.Proofs.Source.Jumps

set_option autoImplicit false

/-!
# What is known behind statements

Along checked statements knowledge advances: variables that have a value keep it, only those that are
assigned to in the statements get one, and only those that are declared in them without a value are new and
have none (`advances_stmts`). Where paths meet, no more is known than on each of them.
-/

namespace ProtoScript

namespace Knowledge

variable {A A' L L' : List String} {f g h : Knowledge} {k : Nat × String}

/-- There are variables at the same places. -/
def SamePlaces (f g : Knowledge) : Prop := ∀ k, (f k).isSome = (g k).isSome

/-- Whatever has a value by the first has one by the second. -/
def Below (f g : Knowledge) : Prop := ∀ k, f k = some true → g k = some true

/-- The second is known behind statements in front of which the first is known, if these assign to the names
in `A` and declare the names in `L` without a value. -/
structure Advances (A L : List String) (f g : Knowledge) : Prop where
  kept : f.Below g
  given : ∀ k, f k = some false → g k = some false ∨ g k = some true ∧ k.2 ∈ A
  opened : ∀ k, g k = some false → f k = some false ∨ k.2 ∈ L

theorem join_eq_true : f.join g k = some true ↔ f k = some true ∧ g k = some true := by
  unfold join
  cases f k with
  | none => simp
  | some x => cases g k <;> simp

theorem join_eq_false (h : f.join g k = some false) : f k = some false ∨ g k = some false := by
  unfold join at h
  cases hf : f k with
  | none => simp [hf] at h
  | some x =>
      cases hg : g k with
      | none => simp [hf, hg] at h
      | some y =>
          rw [hf, hg] at h
          cases x <;> cases y <;> simp_all

theorem isSome_join : (f.join g k).isSome = ((f k).isSome && (g k).isSome) := by
  unfold join
  cases f k with
  | none => rfl
  | some x => cases g k <;> rfl

theorem SamePlaces.trans (hf : SamePlaces f g) (hg : SamePlaces g h) : SamePlaces f h :=
  fun k => (hf k).trans (hg k)

theorem SamePlaces.join (hf : SamePlaces f h) (hg : SamePlaces g h) : SamePlaces (f.join g) h := by
  intro k
  rw [isSome_join, hf k, hg k, Bool.and_self]

theorem join_below_left : (f.join g).Below f := fun _ hk => (join_eq_true.1 hk).1

theorem join_below_right : (f.join g).Below g := fun _ hk => (join_eq_true.1 hk).2

namespace Advances

theorem refl (A L : List String) (f : Knowledge) : Advances A L f f :=
  ⟨fun _ hk => hk, fun _ hk => .inl hk, fun _ hk => .inl hk⟩

theorem of_eq (h : g = f) : Advances A L f g := h ▸ refl A L f

theorem trans (hf : Advances A L f g) (hg : Advances A L g h) : Advances A L f h := by
  refine ⟨fun k hk => hg.kept k (hf.kept k hk), fun k hk => ?_, fun k hk => ?_⟩
  · rcases hf.given k hk with hk | ⟨hk, hA⟩
    · exact hg.given k hk
    · exact .inr ⟨hg.kept k hk, hA⟩
  · rcases hg.opened k hk with hk | hL
    · exact hf.opened k hk
    · exact .inr hL

/-- What is not assigned to has a value behind only if it had one in front. -/
theorem unassigned (h : Advances A L f g) (hplaces : SamePlaces g f) (hA : f k = some false → k.2 ∉ A)
    (hk : g k = some true) : f k = some true := by
  have hsome : (f k).isSome := by rw [← hplaces k, hk]; rfl
  obtain ⟨b, hb⟩ := Option.isSome_iff_exists.1 hsome
  cases b with
  | true => exact hb
  | false =>
      rcases h.given k hb with hfalse | ⟨_, hmem⟩
      · rw [hk] at hfalse
        cases hfalse
      · exact absurd hmem (hA hb)

/-- Where nothing is given a value, no more is known behind than in front. -/
theorem below (h : Advances A L f g) (hplaces : SamePlaces g f) (hA : ∀ k, f k = some false → k.2 ∉ A) :
    g.Below f := fun k hk => h.unassigned hplaces (hA k) hk

/-- Where two paths meet. -/
theorem join (hg : Advances A L f g) (hh : Advances A L f h) : Advances A L f (g.join h) := by
  refine ⟨fun k hk => join_eq_true.2 ⟨hg.kept k hk, hh.kept k hk⟩, fun k hk => ?_, fun k hk => ?_⟩
  · rcases hg.given k hk with hgk | ⟨hgk, hA⟩ <;> rcases hh.given k hk with hhk | ⟨hhk, _⟩
    · simp [Knowledge.join, hgk, hhk]
    · simp [Knowledge.join, hgk, hhk]
    · simp [Knowledge.join, hgk, hhk]
    · exact .inr ⟨join_eq_true.2 ⟨hgk, hhk⟩, hA⟩
  · rcases join_eq_false hk with hk | hk
    · exact hg.opened k hk
    · exact hh.opened k hk

/-- Variables that were there before are not lost with a scope inside of theirs. -/
theorem leave {s s' : Scopes} (h : Advances A L s.known s'.known) (hlength : s.length = s'.leave.length) :
    Advances A L s.known s'.leave.known := by
  have hold : ∀ {k b}, s.known k = some b → s'.leave.known k = s'.known k := by
    intro k b hk
    obtain ⟨_, hat, _⟩ := Option.map_eq_some_iff.1 hk
    have hlt := Frames.lt_of_at? hat
    rw [Scopes.length_frames, hlength] at hlt
    rw [Scopes.known_leave, if_pos hlt]
  refine ⟨fun k hk => ?_, fun k hk => ?_, fun k hk => h.opened k ?_⟩
  · rw [hold hk]
    exact h.kept k hk
  · rw [hold hk]
    exact h.given k hk
  · rw [Scopes.known_leave] at hk
    split at hk
    · exact hk
    · cases hk

/-- What is known around a scope stays known. -/
theorem below_leave {s s' : Scopes} (h : Advances A L s.known s'.known)
    (hlength : s'.leave.length = s.leave.length) : s.leave.known.Below s'.leave.known := by
  intro k hk
  rw [Scopes.known_leave] at hk ⊢
  rw [hlength]
  split at hk
  · rename_i hlt
    rw [if_pos hlt]
    exact h.kept k hk
  · cases hk

/-- It does not matter what was known where one goes on with a snapshot. -/
theorem restore {s : Scopes} {snap : FlowSnapshot} (hs : Advances A L f s.known)
    (hsnap : Advances A L f snap.known) : Advances A L f (s.restore snap).known := by
  have hvalue : ∀ k, (s.restore snap).known k = (s.known k).map fun i => (snap.known k).getD i :=
    Scopes.known_restore snap s
  refine ⟨fun k hk => ?_, fun k hk => ?_, fun k hk => ?_⟩
  · rw [hvalue, hs.kept k hk, hsnap.kept k hk]
    rfl
  · have hsome : ∃ i, s.known k = some i := by
      rcases hs.given k hk with hk | ⟨hk, _⟩
      · exact ⟨_, hk⟩
      · exact ⟨_, hk⟩
    obtain ⟨i, hi⟩ := hsome
    rw [hvalue, hi]
    rcases hsnap.given k hk with hk | ⟨hk, hA⟩
    · exact .inl (by rw [hk]; rfl)
    · exact .inr ⟨by rw [hk]; rfl, hA⟩
  · rw [hvalue] at hk
    obtain ⟨i, hi, hk⟩ := Option.map_eq_some_iff.1 hk
    cases hsnapk : snap.known k with
    | none =>
        rw [hsnapk] at hk
        exact hs.opened k (hi.trans (congrArg some hk))
    | some j =>
        rw [hsnapk] at hk
        exact hsnap.opened k (hsnapk.trans (congrArg some hk))

end Advances

/-- The variable at the place has a value, and of others just as much is known as before. -/
def give (f : Knowledge) (k : Nat × String) : Knowledge := fun k' => if k' = k then some true else f k'

theorem below_give (f : Knowledge) (k : Nat × String) : f.Below (f.give k) := by
  intro k' hk'
  unfold give
  split
  · rfl
  · exact hk'

theorem advances_give (hk : k.2 ∈ A) : Advances A L f (f.give k) := by
  refine ⟨below_give f k, fun k' hk' => ?_, fun k' hk' => ?_⟩
  · unfold give
    by_cases hkey : k' = k
    · exact .inr ⟨if_pos hkey, hkey ▸ hk⟩
    · exact .inl ((if_neg hkey).trans hk')
  · unfold give at hk'
    split at hk'
    · cases hk'
    · exact .inl hk'

end Knowledge

/-- What holds of what an assignment or expression looks at may be strengthened by what holds of its names. -/
theorem Stmt.Reads.of_names {p q : Expr → Prop} {st : Stmt} {names : List String} (h : st.Reads p)
    (hnames : st.stepNames? = some names) (hident : ∀ n x, x ∈ names → p (.ident n x) → q (.ident n x))
    (hself : ∀ n, p (.self n) → q (.self n)) : st.Reads q := by
  cases st with
  | assign sp target op e =>
      cases hnames
      have htarget := Expr.Leaves.of_names target
        (fun n x hx => hident n x (List.mem_append_left _ hx)) hself
      have hvalue := Expr.Leaves.of_names e
        (fun n x hx => hident n x (List.mem_append_right _ hx)) hself
      cases target with
      | ident n x => exact ⟨fun hop => htarget (h.1 hop), hvalue h.2⟩
      | _ => exact ⟨htarget h.1, hvalue h.2⟩
  | expr sp e =>
      cases hnames
      exact Expr.Leaves.of_names e hident hself h
  | _ => cases hnames

namespace Analysis

variable {c : Context} {s s' : State} {A L : List String} {f : Knowledge}

open Knowledge

/-! ## Steps -/

theorem samePlaces_of_shape {s s' : Scopes} (h : s'.shape = s.shape) : SamePlaces s'.known s.known := by
  intro k
  have hk := (Scopes.same_of_shape h).bound k
  unfold Scopes.known
  rw [Option.isSome_map, Option.isSome_map, hk]

theorem samePlaces_snapshot {s s' : Scopes} (h : s'.shape = s.shape) :
    SamePlaces (FlowSnapshot.known s'.snapshot) s.known := by
  rw [Scopes.known_snapshot]
  exact samePlaces_of_shape h

/-- One goes on with a snapshot of the same variables. -/
theorem known_restored {s : State} {snap : FlowSnapshot} (h : SamePlaces snap.known s.scopes.known) :
    (s.restored snap).scopes.known = snap.known := Scopes.known_restore_of_bound h

theorem known_restored_snapshot (h : s'.scopes.shape = s.scopes.shape) :
    (s'.restored s.scopes.snapshot).scopes.known = s.scopes.known := by
  rw [known_restored (samePlaces_snapshot h.symm), Scopes.known_snapshot]

theorem known_forget (s : State) : s.forget.scopes.known = s.scopes.known :=
  Scopes.known_forgetLengths s.scopes

theorem known_enter (s : State) (kind : ScopeKind) : (s.enter kind).scopes.known = s.scopes.known :=
  Scopes.known_enter s.scopes kind

theorem Inspects.known {α : Type} {m : Check α} {a : α} (hm : Inspects m) (h : Passes m c s a s') :
    s'.scopes.known = s.scopes.known := by
  have hscopes := (hm c s).scopes
  rw [h.run] at hscopes
  exact Scopes.known_of_forgetLengths hscopes

theorem Passes.bind {α β : Type} {m : Check α} {g : α → Check β} {a : α} {b : β} {s₁ : State}
    (h : Passes m c s a s₁) (h' : Passes (g a) c s₁ b s') : Passes (m >>= g) c s b s' := by
  refine ⟨?_, Nat.le_trans h'.silent h.silent⟩
  show g (m c s).1 c (m c s).2 = _
  rw [h.run]
  exact h'.run

theorem declares_iff (st : Stmt) : declares st = true ↔ TyEnv.after [[]] st ≠ [[]] := by
  cases st with
  | varDecl sp x ty isConst init => exact ⟨fun _ => List.cons_ne_nil _ _ ∘ fun h => (List.cons.inj h).1, fun _ => rfl⟩
  | _ => exact ⟨nofun, fun h => absurd rfl h⟩

/-- Checking makes no declaration of another statement. -/
theorem declares_of_passes {st st' : Stmt} (h : Passes (checkStmt st) c s st' s') :
    declares st' = declares st := by
  rw [Bool.eq_iff_iff, declares_iff, declares_iff, after_checkStmt h]

/-- A name that is bound silently in some scope has a new place. -/
theorem define_known {x : String} {b : Binding} (h : define x b c s = (none, s')) :
    (s.scopes = [] ∧ s' = s) ∨ s'.scopes.length = s.scopes.length ∧
      s.scopes.known (s.scopes.leave.length, x) = none ∧ ∀ k, s'.scopes.known k =
        if k = (s.scopes.leave.length, x) then some b.initialized else s.scopes.known k := by
  rw [define_eq] at h
  cases hdefine : s.scopes.define x b with
  | error previous =>
      rw [hdefine] at h
      cases h
  | ok scopes =>
      rw [hdefine] at h
      cases h
      rcases Scopes.define_eq_ok hdefine with ⟨hnil, rfl⟩ | ⟨scope, outer, hcons, _, rfl⟩
      · refine .inl ⟨hnil, ?_⟩
        rw [← hnil]
      · rw [hcons] at hdefine ⊢
        exact .inr ⟨rfl, Scopes.known_define hdefine⟩

theorem leave_of_define {x : String} {b : Binding} {kind : ScopeKind} {r : Option Span}
    (h : define x b c (s.enter kind) = (r, s')) : s'.leave = s := by
  rw [define_eq] at h
  cases h
  rfl

theorem advances_define {x : String} {b : Binding} (h : define x b c s = (none, s'))
    (hx : b.initialized = false → x ∈ L) : Advances A L s.scopes.known s'.scopes.known := by
  rcases define_known h with ⟨_, rfl⟩ | ⟨_, hnew, hknown⟩
  · exact .refl _ _ _
  · have hold : ∀ {k b}, s.scopes.known k = some b → s'.scopes.known k = some b := by
      intro k b hk
      rw [hknown, if_neg, hk]
      rintro rfl
      rw [hnew] at hk
      cases hk
    refine ⟨fun k hk => hold hk, fun k hk => .inl (hold hk), fun k hk => ?_⟩
    rw [hknown] at hk
    split at hk
    · rename_i hkey
      rw [hkey]
      exact .inr (hx (Option.some.inj hk))
    · exact .inl hk

/-- The initial value of a declaration is checked before the name is bound. -/
theorem passes_varDecl_known {sp : Span} {x : String} {ty : Ty} {isConst : Bool} {init : Option Expr}
    {stmt' : Stmt} (h : Passes (checkStmt (.varDecl sp x ty isConst init)) c s stmt' s') :
    ∃ init' s₁ b, stmt' = .varDecl sp x ty isConst init' ∧
      (∀ e ∈ init', e.Leaves (Settled c s.scopes.look)) ∧ b.initialized = init'.isSome ∧
      s₁.scopes.known = s.scopes.known ∧ s₁.scopes.shape = s.scopes.shape ∧
      define x b c s₁ = (none, s') := by
  obtain ⟨init', s₁, b, rfl, _, hinit, _, _, _, hdefine, hvalue⟩ := passes_varDecl h
  refine ⟨init', s₁, b, rfl, ?_⟩
  cases init with
  | none =>
      obtain ⟨rfl, rfl⟩ := hvalue
      exact ⟨by simp, hinit, rfl, rfl, hdefine⟩
  | some e =>
      obtain ⟨e', s₂, hstored, rfl, hscopes⟩ := hvalue
      obtain ⟨hleaves, hknown⟩ := hstored.looks (looks_checkStored ty e)
      refine ⟨by simpa using hleaves, hinit, ?_, ?_, hdefine⟩
      · rw [Scopes.known_of_forgetLengths hscopes, hknown]
      · rw [Scopes.shape_of_forgetLengths hscopes, hstored.shape (namesKept.looks_checkStored ty e).keeps]

/-! ## Assignments -/

/-- Where an assignment passes, what it looks at has a value, and the name it assigns to has one behind it. -/
structure Assigns (c : Context) (s s' : State) (stmt' : Stmt) : Prop where
  reads : stmt'.Reads (Settled c s.scopes.look)
  gives : s'.scopes.known = s.scopes.known ∨ ∃ sp n x op e k, stmt' = .assign sp (.ident n x) op e ∧
    Frames.keyOf? s.scopes.frames x = some k ∧ s'.scopes.known = s.scopes.known.give k

theorem known_update {s : Scopes} {x : String} {update : Binding → Binding}
    (hupdate : ∀ b, (update b).initialized = true) {k : Nat × String}
    (hk : Frames.keyOf? s.frames x = some k) : (s.update x update).known = s.known.give k := by
  funext k'
  obtain ⟨_, b, _, hb⟩ := Frames.keyOf?_spec hk
  show (Frames.at? (s.update x update).frames k').map _ = _
  rw [Scopes.at?_update, hk]
  unfold Knowledge.give
  by_cases hkey : k' = k
  · rw [if_pos (congrArg some hkey.symm), if_pos hkey, hkey, hb]
    exact congrArg some (hupdate b)
  · rw [if_neg fun heq => hkey (Option.some.inj heq).symm, if_neg hkey]
    rfl

theorem passes_assignName_gives {sp : Span} {n n' : Note} {x : String} {op : Option BinaryOp}
    {e e' : Expr} (h : Passes (checkAssignName sp n x op e) c s (n', e') s') :
    (op.isSome → s.scopes.look x ≠ some false) ∧ e'.Leaves (Settled c s.scopes.look) ∧
      ∃ k, Frames.keyOf? s.scopes.frames x = some k ∧ s'.scopes.known = s.scopes.known.give k := by
  obtain ⟨h, hsilent⟩ := h
  obtain ⟨b, _, h₁, h⟩ := run_step h
  cases h₁
  cases hb : s.scopes.resolve? x with
  | none =>
      rw [hb] at h
      obtain ⟨_, _, h₁, h⟩ := run_step h
      cases h₁
      cases hproblem : assignProblem? c x with
      | some problem =>
          simp only [hproblem] at h
          obtain ⟨_, s₁, h₁, h⟩ := run_step h
          obtain ⟨_, s₂, h₂, h⟩ := run_step h
          cases h
          have l₁ := count_lt_of_report h₁
          have l₂ := (inspects_checkExpr _ e).count_le h₂
          omega
      | none =>
          simp only [hproblem] at h
          obtain ⟨_, s₁, h₁, h⟩ := run_step h
          obtain ⟨_, s₂, h₂, h⟩ := run_step h
          cases h
          have l₁ := count_lt_of_reportUndefined h₁
          have l₂ := (inspects_checkExpr _ e).count_le h₂
          omega
  | some b =>
      rw [hb] at h
      obtain ⟨_, s₁, h₁, h⟩ := run_step h
      obtain ⟨_, s₂, h₂, h⟩ := run_step h
      obtain ⟨e₁, s₃, h₃, h⟩ := run_step h
      obtain ⟨_, s₄, h₄, h⟩ := run_step h
      obtain ⟨_, s₅, h₅, h⟩ := run_step h
      cases h
      cases h₅
      have l₁ := (namesKept.keeps_expect _ _ _).count_le h₁
      have l₂ := (namesKept.keeps_expect _ _ _).count_le h₂
      have l₃ := (namesKept.looks_checkAssigned _ _ _ _).count_le h₃
      have l₄ := (namesKept.looks_aliasesSelf _).count_le h₄
      change s₄.count ≤ _ at hsilent
      obtain ⟨_, rfl⟩ := expect_silent h₁ (by omega)
      obtain ⟨hinit, rfl⟩ := expect_silent h₂ (by omega)
      have hvalue : Passes (checkAssigned sp b.ty op e) c s₂ e' s₃ := ⟨h₃, by omega⟩
      have halias : Passes (aliasesSelf e') c s₃ _ s₄ := ⟨h₄, by omega⟩
      obtain ⟨hleaves, hknown₃⟩ := hvalue.looks (looks_checkAssigned _ _ _ _)
      have hknown₄ := (namesKept.looks_aliasesSelf e').known halias
      have hshape : s₄.scopes.shape = s₂.scopes.shape :=
        (halias.shape (namesKept.looks_aliasesSelf e').keeps).trans
          (hvalue.shape (namesKept.looks_checkAssigned _ _ _ _).keeps)
      obtain ⟨k, hk, _⟩ := Frames.exists_keyOf? ((Scopes.find?_frames s₂.scopes x).trans hb)
      refine ⟨fun hop => ?_, hleaves, k, hk, ?_⟩
      · rw [Scopes.look, hb]
        have hop' : op.isNone = false := by simpa using hop
        rw [hop', Bool.false_or] at hinit
        simp [hinit]
      · have hk₄ := ((Scopes.same_of_shape hshape).keyOf? x).trans hk
        refine (known_update (fun _ => rfl) hk₄).trans ?_
        rw [hknown₄, hknown₃]

theorem passes_assign_gives {sp : Span} {target e target' e' : Expr} {op : Option BinaryOp}
    (h : Passes (checkAssign sp target op e) c s (target', e') s') :
    Assigns c s s' (.assign sp target' op e') := by
  obtain ⟨h, hsilent⟩ := h
  unfold checkAssign at h
  split at h
  case h_1 n x =>
    obtain ⟨⟨n', e₁⟩, s₁, h₁, h⟩ := run_step h
    obtain ⟨_, s₂, h₂, h⟩ := run_step h
    cases h
    have l₁ := (namesKept.keeps_checkAssignName _ _ _ _ _).count_le h₁
    have l₂ := (namesKept.keeps_escape _).count_le h₂
    obtain ⟨hname, hvalue, k, hk, hknown⟩ := passes_assignName_gives ⟨h₁, by omega⟩
    have hescape : Passes (escape e') c s₁ _ s' := ⟨h₂, by omega⟩
    refine ⟨⟨hname, hvalue⟩, .inr ⟨_, _, _, _, _, k, rfl, hk, ?_⟩⟩
    rw [(namesKept.looks_escape e').known hescape, hknown]
  case h_2 n object name =>
    obtain ⟨o, s₁, h₁, h₀⟩ := run_step h
    clear h
    obtain ⟨rfl, _⟩ := owner?_eq h₁
    cases o with
    | some owner =>
        obtain ⟨_, s₂, h₂, h⟩ := run_step h₀
        obtain ⟨_, s₃, h₃, h⟩ := run_step h
        cases h
        have l₂ := count_lt_of_report h₂
        have l₃ := (inspects_checkExpr none e).count_le h₃
        omega
    | none =>
        have hmember : Passes (checkAssignMember sp (.member n object name) op e) c s₁ (target', e') s' :=
          ⟨h₀, hsilent⟩
        obtain ⟨⟨ht, he⟩, hknown⟩ := hmember.looks (looks_checkAssignMember sp _ op e)
        exact ⟨Stmt.reads_assign ht he, .inl hknown⟩
  case h_3 n object i =>
    have hindex : Passes (checkAssignIndex sp n object i op e) c s (target', e') s' := ⟨h, hsilent⟩
    obtain ⟨⟨ht, he⟩, hknown⟩ := hindex.looks (looks_checkAssignIndex sp n object i op e)
    exact ⟨Stmt.reads_assign ht he, .inl hknown⟩
  case h_4 =>
    obtain ⟨_, s₁, h₁, h⟩ := run_step h
    obtain ⟨_, s₂, h₂, h⟩ := run_step h
    obtain ⟨_, s₃, h₃, h⟩ := run_step h
    cases h
    have l₁ := count_lt_of_report h₁
    have l₂ := (inspects_checkExpr none e).count_le h₂
    have l₃ := (namesKept.keeps_escape _).count_le h₃
    omega

/-- What a checked assignment or expression looks at has a value in front of it. -/
theorem reads_of_passes {st st' : Stmt} (h : Passes (checkStmt st) c s st' s') :
    st'.Reads (Settled c s.scopes.look) := by
  cases st with
  | assign sp target op e =>
      obtain ⟨target', e', hassign, rfl⟩ := passes_assign h
      exact (passes_assign_gives hassign).reads
  | expr sp e =>
      obtain ⟨e', hexpr, rfl⟩ := passes_expr h
      exact (hexpr.looks (looks_checkExpr none e)).1
  | varDecl =>
      obtain ⟨_, _, _, rfl, _⟩ := passes_varDecl h
      trivial
  | ifThen =>
      obtain ⟨_, _, _, _, _, _, rfl, _⟩ := passes_ifThen h
      trivial
  | ifElse =>
      obtain ⟨_, _, _, _, _, _, _, _, _, rfl, _⟩ := passes_ifElse h
      trivial
  | «while» =>
      obtain ⟨_, _, _, _, _, _, rfl, _⟩ := passes_while h
      trivial
  | doWhile =>
      obtain ⟨_, _, _, _, _, _, rfl, _⟩ := passes_doWhile h
      trivial
  | «for» =>
      obtain ⟨_, _, _, _, _, _, _, _, _, _, _, _, rfl, _⟩ := passes_for h
      trivial
  | forEach =>
      obtain ⟨_, _, _, _, _, _, _, _, _, _, _, _, rfl, _⟩ := passes_forEach h
      trivial
  | switch =>
      obtain ⟨_, _, _, _, _, _, _, rfl, _⟩ := passes_switch h
      trivial
  | «break» =>
      obtain ⟨_, rfl, _⟩ := passes_break h
      trivial
  | «continue» =>
      obtain ⟨_, rfl, _⟩ := passes_continue h
      trivial
  | ret =>
      obtain ⟨_, _, rfl⟩ := passes_ret h
      trivial
  | throw =>
      obtain ⟨_, _, rfl⟩ := passes_throw h
      trivial
  | «try» =>
      obtain ⟨_, _, _, _, _, _, _, rfl, _⟩ := passes_try h
      trivial
  | block =>
      obtain ⟨_, _, _, rfl, _⟩ := passes_block h
      trivial

/-! ## Statements -/

theorem length_of_shape {s s' : Scopes} (h : s'.shape = s.shape) : s'.length = s.length := by
  have hlength := congrArg List.length h
  rwa [Scopes.shape, Scopes.shape, List.length_map, List.length_map] at hlength

theorem advances_assigns {st' : Stmt} (h : Assigns c s s' st') (hA : st'.assigns ⊆ A) :
    Advances A L s.scopes.known s'.scopes.known := by
  rcases h.gives with hsame | ⟨sp, n, x, op, e, k, rfl, hk, hknown⟩
  · exact .of_eq hsame
  · rw [hknown]
    refine advances_give (hA ?_)
    rw [(Frames.keyOf?_spec hk).1]
    exact List.mem_singleton_self x

/-- In a scope of its own a body advances what is known around it. -/
theorem advances_inScope {body body' : List Stmt} {kind : ScopeKind}
    (h : Passes (checkStmts body) c (s.enter kind) body' s')
    (hbody : Advances A L (s.enter kind).scopes.known s'.scopes.known) :
    Advances A L s.scopes.known s'.leave.scopes.known := by
  rw [known_enter] at hbody
  exact hbody.leave (length_of_shape (h.shape_leave (grows_checkStmts body))).symm

/-- The same behind a name that is bound at the start of the scope. -/
theorem advances_inScope_define {x : String} {b : Binding} {r : Option Span} {kind : ScopeKind}
    {s₁ s₂ : State} {body body' : List Stmt} (hdefine : define x b c (s.enter kind) = (r, s₁))
    (hb : b.initialized) (h : Passes (checkStmts body) c s₁ body' s₂)
    (hbody : Advances A L s₁.scopes.known s₂.scopes.known) :
    Advances A L s.scopes.known s₂.leave.scopes.known := by
  obtain rfl := define_enter hdefine
  have hfirst := advances_define (L := L) (A := A) hdefine fun hb' => by
    rw [hb] at hb'
    cases hb'
  rw [known_enter] at hfirst
  exact (hfirst.trans hbody).leave (length_of_shape (shape_leave_of_define hdefine h)).symm

theorem advances_afterBranches {a b : FlowSnapshot} (ha : Advances A L f a.known)
    (hb : Advances A L f b.known) (aJumps bJumps : Bool) :
    Advances A L f (afterBranches a b aJumps bJumps).known := by
  have hjoin : Advances A L f (a.join b).known := by
    rw [FlowSnapshot.known_join]
    exact ha.join hb
  unfold afterBranches
  split
  · exact hb
  · exact ha
  · exact hjoin

theorem advances_joinPath {merged : Option FlowSnapshot} {path : FlowSnapshot}
    (hmerged : ∀ m ∈ merged, Advances A L f m.known) (hpath : Advances A L f path.known) :
    Advances A L f (joinPath merged path).known := by
  cases merged with
  | none => exact hpath
  | some m =>
      show Advances A L f (m.join path).known
      rw [FlowSnapshot.known_join]
      exact (hmerged m rfl).join hpath

mutual

/-- What is known behind a checked statement is known from what was known before, and from the assignments
in it. -/
theorem advances_stmt : (st : Stmt) → {st' : Stmt} → {s s' : State} → Passes (checkStmt st) c s st' s' →
    st'.collect Stmt.assigns ⊆ A → st'.collect Stmt.leavesOpen ⊆ L →
    Advances A L s.scopes.known s'.scopes.known
  | .varDecl sp x ty isConst init, _, _, _, h, _, hL => by
      obtain ⟨init', s₁, b, rfl, _, hinit, hknown, _, hdefine⟩ := passes_varDecl_known h
      rw [← hknown]
      refine advances_define hdefine fun hopen => hL ?_
      rw [hinit] at hopen
      cases init' with
      | none => exact List.mem_singleton_self x
      | some e' => cases hopen
  | .assign .., _, _, _, h, hA, _ => by
      obtain ⟨_, _, hassign, rfl⟩ := passes_assign h
      exact advances_assigns (passes_assign_gives hassign) hA
  | .expr sp e, _, _, _, h, _, _ => by
      obtain ⟨_, hexpr, rfl⟩ := passes_expr h
      exact .of_eq ((inspects_checkExpr _ e).known hexpr)
  | .ifThen sp e body, _, _, _, h, hA, hL => by
      obtain ⟨e', s₁, body', s₂, he, hbody, rfl, rfl⟩ := passes_ifThen h
      rw [← (namesKept.looks_checkCondition e).known he]
      have hinner := advances_inScope hbody (advances_stmts body hbody hA hL)
      refine hinner.restore (advances_afterBranches ?_ ?_ _ _)
      · rw [Scopes.known_snapshot]
        exact hinner
      · rw [Scopes.known_snapshot]
        exact .refl _ _ _
  | .ifElse sp e x y, _, _, _, h, hA, hL => by
      obtain ⟨e', s₁, x', s₂, y', s₃, he, hx, hy, rfl, rfl⟩ := passes_ifElse h
      rw [Stmt.collect, List.append_subset] at hA hL
      rw [← (namesKept.looks_checkCondition e).known he]
      have hfirst := advances_inScope hx (advances_stmts x hx hA.1 hL.1)
      have hsecond := advances_inScope hy (advances_stmts y hy hA.2 hL.2)
      rw [known_restored_snapshot (hx.shape_leave (grows_checkStmts x))] at hsecond
      refine hsecond.restore (advances_afterBranches ?_ ?_ _ _)
      · rw [Scopes.known_snapshot]
        exact hfirst
      · rw [Scopes.known_snapshot]
        exact hsecond
  | .while sp e body, _, s, _, h, hA, hL => by
      obtain ⟨e', s₁, body', s₂, he, hbody, rfl, rfl⟩ := passes_while h
      have hbefore : s₁.scopes.known = s.scopes.known :=
        ((namesKept.looks_checkCondition e).known he).trans (known_forget s)
      have hshape : s₂.leave.scopes.shape = s₁.scopes.shape :=
        (hbody.shape_leave (grows_checkStmts body)).trans s₁.shape_forget
      rw [known_forget, known_restored_snapshot hshape, hbefore]
      exact .refl _ _ _
  | .doWhile sp body e, _, s, _, h, hA, hL => by
      obtain ⟨body', s₁, e', s₂, hbody, he, rfl, rfl⟩ := passes_doWhile h
      have hinner := advances_inScope hbody (advances_stmts body hbody hA hL)
      rw [known_forget] at hinner ⊢
      rw [(namesKept.looks_checkCondition e).known he]
      exact hinner
  | .for sp init e update body, _, s, _, h, hA, hL => by
      obtain ⟨init', s₁, e', s₂, body', s₃, update', s₄, hinit, he, hbody, hupdate, rfl, rfl⟩ := passes_for h
      rw [Stmt.collect, List.append_subset, List.append_subset] at hA hL
      have hfirst := advances_stmt? init hinit hA.1.1 hL.1.1
      rw [known_enter] at hfirst
      -- Of the body and the step nothing is kept.
      have hloop : s₄.leave.scopes.shape = s₁.scopes.shape :=
        ((hbody.bind (g := fun _ => checkStmt? update) hupdate).shape_leave
          ((grows_checkStmts body).bind fun _ => namesKept.grows_checkStmt? update)).trans
          ((he.shape (inspects_checkCondition? e).keeps).trans s₁.shape_forget)
      have hknown : (s₄.leave.restored s₁.scopes.snapshot).forget.scopes.known = s₁.scopes.known := by
        rw [known_forget, known_restored_snapshot hloop]
      rw [← hknown] at hfirst
      refine hfirst.leave ?_
      rw [← length_of_shape (hinit.shape_leave (namesKept.grows_checkStmt? init))]
      have hlength := length_of_shape (((s₄.leave.restored s₁.scopes.snapshot).shape_forget.trans
        (s₄.leave.shape_restored _)).trans hloop)
      show List.length (List.tail _) = List.length (List.tail _)
      rw [List.length_tail, List.length_tail, hlength]
  | .forEach sp kind ty x e body, _, s, _, h, hA, hL => by
      obtain ⟨e', s₁, elem, s₂, r, s₃, body', s₄, he, helem, hdefine, hbody, rfl, rfl⟩ := passes_forEach h
      have hbefore : s₂.scopes.known = s.scopes.known :=
        ((namesKept.looks_loopVariable _ _ _ _ _).known helem).trans ((inspects_checkExpr none e).known he)
      have hshape : s₄.leave.scopes.shape = s₂.scopes.shape :=
        (shape_leave_of_define hdefine hbody).trans s₂.shape_forget
      rw [known_forget, known_restored_snapshot hshape, hbefore]
      exact .refl _ _ _
  | .switch sp e arms, _, s, _, h, hA, hL => by
      obtain ⟨e', s₁, arms', merged, s₂, he, harms, rfl, rfl⟩ := passes_switch h
      have hbefore := (namesKept.looks_checkSwitched e).known he
      have hsnap : Advances A L s.scopes.known (FlowSnapshot.known s₁.scopes.snapshot) := by
        rw [Scopes.known_snapshot, hbefore]
        exact .refl _ _ _
      obtain ⟨hlast, hmerged⟩ := advances_arms arms harms hA hL (.of_eq hbefore) hsnap (by simp)
      refine hlast.restore ?_
      split
      · cases merged with
        | none => exact hsnap
        | some m => exact hmerged m rfl
      · exact advances_joinPath hmerged hsnap
  | .break _, _, _, _, h, _, _ => by
      obtain ⟨_, _, rfl⟩ := passes_break h
      exact .refl _ _ _
  | .continue _, _, _, _, h, _, _ => by
      obtain ⟨_, _, rfl⟩ := passes_continue h
      exact .refl _ _ _
  | .ret sp e, _, _, _, h, _, _ => by
      obtain ⟨_, hret, _⟩ := passes_ret h
      exact .of_eq ((namesKept.looks_checkReturn sp e).known hret)
  | .throw sp e, _, _, _, h, _, _ => by
      obtain ⟨_, hthrow, _⟩ := passes_throw h
      exact .of_eq ((namesKept.looks_checkThrow sp e).known hthrow)
  | .try sp body clauses, _, s, _, h, hA, hL => by
      obtain ⟨body', s₁, clauses', merged, s₂, hbody, hclauses, rfl, rfl⟩ := passes_try h
      rw [Stmt.collect, List.append_subset] at hA hL
      have hinner := advances_inScope hbody (advances_stmts body hbody hA.1 hL.1)
      obtain ⟨hlast, hmerged⟩ := advances_clauses clauses hclauses hA.2 hL.2 hinner
        (by rw [Scopes.known_snapshot]; exact .refl _ _ _) (by rw [Scopes.known_snapshot]; exact hinner)
      exact hlast.restore hmerged
  | .block sp body, _, _, _, h, hA, hL => by
      obtain ⟨body', s₁, hbody, rfl, rfl⟩ := passes_block h
      exact advances_inScope hbody (advances_stmts body hbody hA hL)
termination_by structural x => x

theorem advances_stmts : (body : List Stmt) → {body' : List Stmt} → {s s' : State} →
    Passes (checkStmts body) c s body' s' → collectAll Stmt.assigns body' ⊆ A →
    collectAll Stmt.leavesOpen body' ⊆ L → Advances A L s.scopes.known s'.scopes.known
  | [], _, _, _, h, _, _ => by
      obtain ⟨_, rfl⟩ := passes_stmts_nil h
      exact .refl _ _ _
  | st :: rest, _, _, _, h, hA, hL => by
      obtain ⟨st', s₁, rest', hst, hrest, rfl⟩ := passes_stmts_cons h
      rw [collectAll, List.append_subset] at hA hL
      exact (advances_stmt st hst hA.1 hL.1).trans (advances_stmts rest hrest hA.2 hL.2)
termination_by structural x => x

theorem advances_stmt? : (st : Option Stmt) → {st' : Option Stmt} → {s s' : State} →
    Passes (checkStmt? st) c s st' s' → collect? Stmt.assigns st' ⊆ A →
    collect? Stmt.leavesOpen st' ⊆ L → Advances A L s.scopes.known s'.scopes.known
  | none, _, _, _, h, _, _ => by
      obtain ⟨_, rfl⟩ := passes_stmt?_none h
      exact .refl _ _ _
  | some st, _, _, _, h, hA, hL => by
      obtain ⟨st', hst, rfl⟩ := passes_stmt?_some h
      exact advances_stmt st hst hA hL
termination_by structural x => x

theorem advances_arms : (arms : List SwitchArm) → {ty? : Option Ty} → {before : FlowSnapshot} →
    {merged merged' : Option FlowSnapshot} → {arms' : List SwitchArm} → {s s' : State} → {f : Knowledge} →
    Passes (checkArms ty? before merged arms) c s (arms', merged') s' →
    armsCollect Stmt.assigns arms' ⊆ A → armsCollect Stmt.leavesOpen arms' ⊆ L →
    Advances A L f s.scopes.known → Advances A L f before.known → (∀ m ∈ merged, Advances A L f m.known) →
    Advances A L f s'.scopes.known ∧ ∀ m ∈ merged', Advances A L f m.known
  | [], _, _, _, _, _, _, _, _, h, _, _, hs, _, hmerged => by
      obtain ⟨_, rfl, rfl⟩ := passes_arms_nil h
      exact ⟨hs, hmerged⟩
  | .mk sp test body falls :: rest, ty?, _, _, _, _, _, _, _, h, hA, hL, hs, hbefore, hmerged => by
      obtain ⟨test', s₁, body', s₂, rest', htest, hbody, hrest, rfl⟩ := passes_arms_cons h
      rw [armsCollect, List.append_subset] at hA hL
      rw [← (inspects_checkTest ty? test).known htest] at hs
      have hinner := advances_inScope hbody (advances_stmts body hbody hA.1 hL.1)
      have hend := (hs.restore hbefore).trans hinner
      refine advances_arms rest hrest hA.2 hL.2 hend hbefore fun m hm => ?_
      cases hm
      refine advances_joinPath hmerged ?_
      rw [Scopes.known_snapshot]
      exact hend
termination_by structural x => x

theorem advances_clauses : (clauses : List CatchClause) → {before merged merged' : FlowSnapshot} →
    {clauses' : List CatchClause} → {s s' : State} → {f : Knowledge} →
    Passes (checkClauses before merged clauses) c s (clauses', merged') s' →
    clausesCollect Stmt.assigns clauses' ⊆ A → clausesCollect Stmt.leavesOpen clauses' ⊆ L →
    Advances A L f s.scopes.known → Advances A L f before.known → Advances A L f merged.known →
    Advances A L f s'.scopes.known ∧ Advances A L f merged'.known
  | [], _, _, _, _, _, _, _, h, _, _, hs, _, hmerged => by
      obtain ⟨_, rfl, rfl⟩ := passes_clauses_nil h
      exact ⟨hs, hmerged⟩
  | .mk sp proto x body :: rest, _, _, _, _, _, _, _, h, hA, hL, hs, hbefore, hmerged => by
      obtain ⟨r, s₁, body', s₂, rest', _, _, hdefine, hbody, hrest, rfl⟩ := passes_clauses_cons h
      rw [clausesCollect, List.append_subset] at hA hL
      have hinner := advances_inScope_define hdefine rfl hbody (advances_stmts body hbody hA.1 hL.1)
      have hend := (hs.restore hbefore).trans hinner
      refine advances_clauses rest hrest hA.2 hL.2 hend hbefore ?_
      rw [FlowSnapshot.known_join, Scopes.known_snapshot]
      exact hmerged.join hend
termination_by structural x => x

end

/-! ## Where paths meet -/

theorem samePlaces_joinPath {merged : Option FlowSnapshot} {path : FlowSnapshot}
    (hmerged : ∀ m ∈ merged, SamePlaces m.known f) (hpath : SamePlaces path.known f) :
    SamePlaces (joinPath merged path).known f := by
  cases merged with
  | none => exact hpath
  | some m =>
      show SamePlaces (m.join path).known f
      rw [FlowSnapshot.known_join]
      exact (hmerged m rfl).join hpath

theorem joinPath_below {merged : Option FlowSnapshot} {path : FlowSnapshot} :
    (joinPath merged path).known.Below path.known ∧
      ∀ m ∈ merged, (joinPath merged path).known.Below m.known := by
  cases merged with
  | none => exact ⟨fun _ hk => hk, by simp⟩
  | some m =>
      show (m.join path).known.Below _ ∧ ∀ m' ∈ some m, (m.join path).known.Below m'.known
      rw [FlowSnapshot.known_join]
      refine ⟨join_below_right, fun m' hm' => ?_⟩
      cases hm'
      exact join_below_left

/-- Behind two branches that is known which is known behind those that do not jump. -/
theorem restored_afterBranches {a b : FlowSnapshot} (aJumps bJumps : Bool)
    (ha : SamePlaces a.known s.scopes.known) (hb : SamePlaces b.known s.scopes.known) :
    (aJumps = false → (s.restored (afterBranches a b aJumps bJumps)).scopes.known.Below a.known) ∧
      (bJumps = false → (s.restored (afterBranches a b aJumps bJumps)).scopes.known.Below b.known) := by
  have hjoin : (s.restored (a.join b)).scopes.known = a.known.join b.known := by
    rw [known_restored, FlowSnapshot.known_join]
    rw [FlowSnapshot.known_join]
    exact ha.join hb
  cases aJumps <;> cases bJumps <;> refine ⟨fun h => ?_, fun h => ?_⟩
  case false.false.refine_1 => exact hjoin ▸ join_below_left
  case false.false.refine_2 => exact hjoin ▸ join_below_right
  case false.true.refine_1 => exact fun k hk => known_restored ha ▸ hk
  case true.false.refine_2 => exact fun k hk => known_restored hb ▸ hk
  all_goals cases h

/-- What is known behind some arms is known behind each of them. -/
theorem merged_arms {ty? : Option Ty} {before : FlowSnapshot} (arms : List SwitchArm)
    {merged merged' : Option FlowSnapshot} {arms' : List SwitchArm}
    (h : Passes (checkArms ty? before merged arms) c s (arms', merged') s')
    (hmerged : ∀ m ∈ merged, SamePlaces m.known s.scopes.known) :
    (∀ m ∈ merged', SamePlaces m.known s.scopes.known) ∧
      ∀ m ∈ merged, ∃ m' ∈ merged', m'.known.Below m.known := by
  induction arms generalizing merged arms' s with
  | nil =>
      obtain ⟨_, rfl, rfl⟩ := passes_arms_nil h
      exact ⟨hmerged, fun m hm => ⟨m, hm, fun _ hk => hk⟩⟩
  | cons arm rest ih =>
      obtain ⟨sp, test, body, falls⟩ := arm
      obtain ⟨test', s₁, body', s₂, rest', htest, hbody, hrest, rfl⟩ := passes_arms_cons h
      have hshape : s₂.leave.scopes.shape = s.scopes.shape :=
        (hbody.shape_leave (grows_checkStmts body)).trans
          ((s₁.shape_restored before).trans (htest.shape (inspects_checkTest ty? test).keeps))
      have hplaces := samePlaces_of_shape hshape
      have hmore : SamePlaces (joinPath merged s₂.leave.scopes.snapshot).known s₂.leave.scopes.known :=
        samePlaces_joinPath (fun m hm => (hmerged m hm).trans fun k => (hplaces k).symm)
          (samePlaces_snapshot rfl)
      obtain ⟨hsame, hbelow⟩ := ih hrest fun m hm => by
        cases hm
        exact hmore
      obtain ⟨m', hm', hjoin⟩ := hbelow _ rfl
      refine ⟨fun m hm => (hsame m hm).trans hplaces, fun m hm => ⟨m', hm', fun k hk => ?_⟩⟩
      exact joinPath_below.2 m hm k (hjoin k hk)

theorem merged_clauses {before : FlowSnapshot} (clauses : List CatchClause)
    {merged merged' : FlowSnapshot} {clauses' : List CatchClause}
    (h : Passes (checkClauses before merged clauses) c s (clauses', merged') s')
    (hmerged : SamePlaces merged.known s.scopes.known) :
    SamePlaces merged'.known s.scopes.known ∧ merged'.known.Below merged.known := by
  induction clauses generalizing merged clauses' s with
  | nil =>
      obtain ⟨_, rfl, rfl⟩ := passes_clauses_nil h
      exact ⟨hmerged, fun _ hk => hk⟩
  | cons clause rest ih =>
      obtain ⟨sp, proto, x, body⟩ := clause
      obtain ⟨r, s₁, body', s₂, rest', _, _, hdefine, hbody, hrest, rfl⟩ := passes_clauses_cons h
      have hplaces := samePlaces_of_shape
        ((shape_leave_of_define hdefine hbody).trans (s.shape_restored before))
      have hmore : SamePlaces (merged.join s₂.leave.scopes.snapshot).known s₂.leave.scopes.known := by
        rw [FlowSnapshot.known_join]
        exact (hmerged.trans fun k => (hplaces k).symm).join (samePlaces_snapshot rfl)
      obtain ⟨hsame, hbelow⟩ := ih hrest hmore
      refine ⟨hsame.trans hplaces, fun k hk => ?_⟩
      have hjoin := hbelow k hk
      rw [FlowSnapshot.known_join] at hjoin
      exact join_below_left k hjoin

/-! ## Names of the innermost scope -/

/-- Behind statements there are the variables in front of them and those that they declare. -/
theorem places_stmts (body : List Stmt) {body' : List Stmt} (h : Passes (checkStmts body) c s body' s')
    {k : Nat × String} (hk : (s'.scopes.known k).isSome) :
    (s.scopes.known k).isSome ∨ k.2 ∈ declaredBy body' := by
  induction body generalizing s body' with
  | nil =>
      obtain ⟨_, rfl⟩ := passes_stmts_nil h
      exact .inl hk
  | cons st rest ih =>
      obtain ⟨st', s₁, rest', hst, hrest, rfl⟩ := passes_stmts_cons h
      rw [declaredBy, List.flatMap_cons, List.mem_append]
      rcases ih hrest with hk | hk
      · cases hdeclares : declares st with
        | false =>
            left
            rw [← samePlaces_of_shape (hst.shape (keeps_checkStmt st hdeclares)) k]
            exact hk
        | true =>
            cases st with
            | varDecl sp x ty isConst init =>
                obtain ⟨init', s₀, b, rfl, _, _, hknown, _, hdefine⟩ := passes_varDecl_known hst
                rw [← hknown]
                rcases define_known hdefine with ⟨_, rfl⟩ | ⟨_, _, hplace⟩
                · exact .inl hk
                · rw [hplace] at hk
                  split at hk
                  · rename_i hkey
                    rw [hkey]
                    exact .inr (.inl (List.mem_singleton_self x))
                  · exact .inl hk
            | _ => cases hdeclares
      · exact .inr (.inr hk)

/-- A name that the innermost scope has not is looked up around it. -/
theorem look_leave {x : String} (h : s.scopes.known (s.scopes.leave.length, x) = none) :
    s.scopes.look x = s.leave.scopes.look x := by
  obtain ⟨scopes, found⟩ := s
  cases scopes with
  | nil => rfl
  | cons scope outer =>
      have hlookup : scope.bindings.lookup x = none := by
        have hx : (Frames.at? (scope.bindings :: Scopes.frames outer) (outer.length, x)).map
          Binding.initialized = none := h
        rw [Frames.at?_cons, Scopes.length_frames, if_pos rfl] at hx
        simpa using hx
      show (Scopes.resolve? (scope :: outer) x).map _ = (Scopes.resolve? outer x).map _
      rw [← Scopes.find?_frames, ← Scopes.find?_frames]
      show (Frames.find? (scope.bindings :: Scopes.frames outer) x).map _ = _
      rw [Frames.find?_cons, hlookup, Option.none_or]

end Analysis

end ProtoScript
