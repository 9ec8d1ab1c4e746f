import ProtoScript.Lowering.Program
import ProtoScript.Proofs.Analysis.TypedProgram
import ProtoScript.Proofs.Lowering.FunctionSketch
import ProtoScript.Proofs.Lowering.StmtSketch
import ProtoScript.Proofs.Source.Jumps

set_option autoImplicit false

/-!
# What holds of every function

A lenient law lets all variables be read, and lets an element be written wherever something holds of its
container and its index that a check of the bounds makes true, and that stays true as long as neither is
defined again (`Lenient`). Of where control can come to only this matters: not behind a statement that is
final, and not out of a loop or switch without a `break` (`leads_stmt`). So such a law is obeyed on all paths
of every function of a program without problems (`kept_of_lenient`).
-/

namespace ProtoScript.Lowering

open Ir

/-!
## Where lowering comes to

Lowering goes through the statements of a function in order. `Gets` relates each piece of a function to the
builders at which lowering comes to it; what lowering has written before, it has written by then. Pieces that
are behind a jump it never comes to.
-/

/-- A piece of a function that is lowered. -/
inductive Piece where
  | row (body : List Stmt)
  | stmt (s : Stmt)
  /-- The arms of a switch, with their labels and the one behind the switch. -/
  | arms (done : String) (labels : List String) (arms : List SwitchArm)
  /-- Catch clauses, with the exception and the label behind the region. -/
  | clauses (exception : Temp) (done : String) (clauses : List CatchClause)

section

variable (c : Context) (ni : String → Lower Temp)

/-- Lowering goes from a piece into a piece of it. -/
inductive Into : Piece → Builder → Piece → Builder → Prop where
  | thenBody {sp : Span} {e : Expr} {body : List Stmt} {b b₁ : Builder} {done : String}
    (h : Runs c (openIf ni e) b done b₁) : Into (.stmt (.ifThen sp e body)) b (.row body) b₁.enter
  | firstBranch {sp : Span} {e : Expr} {x y : List Stmt} {b b₁ : Builder} {labels : String × String}
    (h : Runs c (openIfElse ni e) b labels b₁) : Into (.stmt (.ifElse sp e x y)) b (.row x) b₁.enter
  | secondBranch {sp : Span} {e : Expr} {x y : List Stmt} {b b₁ : Builder} {done : String}
    (h : Runs c (openElse ni e x) b done b₁) : Into (.stmt (.ifElse sp e x y)) b (.row y) b₁.enter
  | whileBody {sp : Span} {e : Expr} {body : List Stmt} {b b₁ : Builder} {r : String × String}
    (h : Runs c (openWhileBody ni e) b r b₁) :
    Into (.stmt (.while sp e body)) b (.row body) (b₁.looping r.2 (some r.1)).enter
  | doBody {sp : Span} {e : Expr} {body : List Stmt} {b b₁ : Builder} {r : String × String × String}
    (h : Runs c openDo b r b₁) :
    Into (.stmt (.doWhile sp body e)) b (.row body) (b₁.looping r.2.2 (some r.1)).enter
  | forInit {sp : Span} {init : Stmt} {e : Option Expr} {update : Option Stmt} {body : List Stmt}
    {b : Builder} (hopen : b.ended = none) :
    Into (.stmt (.for sp (some init) e update body)) b (.stmt init) b.enter
  | forBody {sp : Span} {init : Option Stmt} {e : Option Expr} {update : Option Stmt} {body : List Stmt}
    {b b₁ b₂ : Builder} {labels : ForLabels} (hinit : Runs c (lowerStmt? ni init) b.enter () b₁)
    (h : Runs c (openForBody ni e) b₁ labels b₂) :
    Into (.stmt (.for sp init e update body)) b (.row body)
      (b₂.looping labels.done (some labels.stepLabel)).enter
  | forStep {sp : Span} {init : Option Stmt} {e : Option Expr} {update : Stmt} {body : List Stmt}
    {b b₁ b₂ : Builder} {labels : ForLabels} (hinit : Runs c (lowerStmt? ni init) b.enter () b₁)
    (h : Runs c (openForStep ni e body) b₁ labels b₂) (hopen : b₂.ended = none) :
    Into (.stmt (.for sp init e (some update) body)) b (.stmt update) b₂
  | eachBody {sp : Span} {kind : IterKind} {ty : Option Ty} {x v : String} {e : Expr} {body : List Stmt}
    {b b₁ b₂ : Builder} {r : Temp × Ty × String × String} (h : Runs c (openForEach ni kind ty e) b r b₁)
    (hv : Runs c (lowerVisited x r.1 r.2.1) b₁.enter v b₂) :
    Into (.stmt (.forEach sp kind ty x e body)) b (.row body) (b₂.looping r.2.2.2 (some r.2.2.1)).enter
  | switchArms {sp : Span} {e : Expr} {arms : List SwitchArm} {b b₁ : Builder} {done : String}
    {labels : List String} (h : Runs c (openArms ni e arms) b (done, labels) b₁) :
    Into (.stmt (.switch sp e arms)) b (.arms done labels arms) b₁
  | armBody {sp : Span} {test : Option Expr} {body : List Stmt} {falls : Bool} {rest : List SwitchArm}
    {done label : String} {labels : List String} {b b₁ : Builder} (h : Runs c (startBlock label) b () b₁) :
    Into (.arms done (label :: labels) (.mk sp test body falls :: rest)) b (.row body)
      (b₁.looping done none).enter
  | nextArm {sp : Span} {test : Option Expr} {body : List Stmt} {falls : Bool} {rest : List SwitchArm}
    {done label : String} {labels : List String} {b b₁ : Builder}
    (h : Runs c (lowerArm ni done label labels body falls) b () b₁) :
    Into (.arms done (label :: labels) (.mk sp test body falls :: rest)) b (.arms done labels rest) b₁
  | tryBody {sp : Span} {body : List Stmt} {clauses : List CatchClause} {b b₁ : Builder}
    {labels : String × String} (h : Runs c openTry b labels b₁) :
    Into (.stmt (.try sp body clauses)) b (.row body) b₁.enter
  | tryClauses {sp : Span} {body : List Stmt} {clauses : List CatchClause} {b b₁ : Builder}
    {exception : Temp} {done : String} (h : Runs c (openClauses ni body) b (exception, done) b₁) :
    Into (.stmt (.try sp body clauses)) b (.clauses exception done clauses) b₁
  | clauseBody {sp : Span} {proto x v next : String} {body : List Stmt} {rest : List CatchClause}
    {exception : Temp} {done : String} {b b₁ b₂ : Builder}
    (h : Runs c (openClause exception proto) b next b₁)
    (hv : Runs c (lowerCaught exception x proto) b₁.enter v b₂) :
    Into (.clauses exception done (.mk sp proto x body :: rest)) b (.row body) b₂
  | nextClause {sp : Span} {proto x : String} {body : List Stmt} {rest : List CatchClause}
    {exception : Temp} {done : String} {b b₁ : Builder}
    (h : Runs c (lowerClause ni exception done proto x body) b () b₁) :
    Into (.clauses exception done (.mk sp proto x body :: rest)) b (.clauses exception done rest) b₁
  | blockBody {sp : Span} {body : List Stmt} {b : Builder} :
    Into (.stmt (.block sp body)) b (.row body) b.enter

/-- Lowering the function comes to the piece at the builder. -/
inductive Gets (proto? : Option String) (f : FunctionDecl) : Piece → Builder → Prop where
  | start : Gets proto? f (.row f.body) (startOf proto? f)
  | head {s : Stmt} {rest : List Stmt} {b : Builder} (h : Gets proto? f (.row (s :: rest)) b)
    (hopen : b.ended = none) : Gets proto? f (.stmt s) b
  | tail {s : Stmt} {rest : List Stmt} {b b' : Builder} (h : Gets proto? f (.row (s :: rest)) b)
    (hopen : b.ended = none) (hs : Runs c (lowerStmt ni s) b () b') : Gets proto? f (.row rest) b'
  | into {piece piece' : Piece} {b b' : Builder} (h : Gets proto? f piece b)
    (hpiece : Into c ni piece b piece' b') : Gets proto? f piece' b'

end

/-- Lowering comes to an assignment to an element of a map, and these are the map and the key. -/
def MapPlace (c : Context) (ni : String → Lower Temp) (proto? : Option String) (f : FunctionDecl)
    (a j : Temp) : Prop :=
  ∃ sp n object i op value b b₁ b₂ ty,
    Gets c ni proto? f (.stmt (.assign sp (.index n object i) op value)) b ∧
    object.type? = some ty ∧ isMap ty ∧ Runs c (lowerExpr ni object) b a b₁ ∧
    Runs c (lowerExpr ni i) b₁ j b₂

/-! ## Lenient laws -/

variable {H : Type}

/-- The law lets everything be read, and lets those elements be written whose place is a good one: behind a
check, and wherever they are those of a map. -/
structure Lenient (law : Law H) (c : Context) (ni : String → Lower Temp) (proto? : Option String)
    (f : FunctionDecl) (place : Temp → Temp → H → Prop) : Prop where
  reads : ∀ x v, law.reads x v
  writes : ∀ {a j t : Temp} {x : H}, place a j x → law.writes x a j t
  checked : ∀ {a j : Temp} {x y : H}, law.after (.check (.indexBounds a j)) x y → place a j y
  stays : ∀ {i : Instr} {a j : Temp} {x y : H}, i.dest? ≠ some a → i.dest? ≠ some j →
    law.after i x y → place a j x → place a j y
  maps : ∀ {a j : Temp}, MapPlace c ni proto? f a j → ∀ x, place a j x
  void : f.ret = .void → law.returnsNothing

/-- Exits that control comes to or not, whatever is remembered; a `continue` may always be one. -/
def Exits.of (next brk : Prop) : Exits H := ⟨fun _ => next, fun _ => brk, fun _ => True⟩

/-- Where control may come to, whatever is remembered. -/
def Zone.live (base : Builder) (scopes : Frames String) : Zone H := ⟨base, fun _ => True, scopes⟩

section

variable {law : Law H} {c : Context} {ni : String → Lower Temp} {proto? : Option String}
  {f : FunctionDecl} {place : Temp → Temp → H → Prop} {Z : Zone H} {base : Builder}
  {scopes : Frames String}

theorem Zone.stable_live : (Zone.live base scopes).Stable law := fun _ _ _ _ _ _ => trivial

theorem Zone.binding_true {ty : Ty} : Z.Binding law ty fun _ _ => True :=
  fun _ _ _ _ _ _ _ _ _ => trivial

theorem Zone.declaring_true {ty : Ty} {init : Option Expr} : Z.Declaring law ty init fun _ _ => True := by
  unfold Zone.Declaring
  split
  · exact Zone.binding_true
  · exact fun _ _ _ _ _ _ => trivial

theorem Lenient.readable (h : Lenient law c ni proto? f place) (e : Expr) : e.Leaves (Z.Readable law) :=
  Expr.leaves_of_forall (fun e => by
    cases e with
    | ident n x => exact fun v _ y _ => h.reads y v
    | self n => exact fun y _ => h.reads y "self"
    | _ => trivial) e

/-- Everything may be assigned to. -/
theorem leads_assign (h : Lenient law c ni proto? f place) (hni : Inert law c ni) {E : Exits H}
    {P : Builder → Prop} (hnext : ∀ x, E.next x) (sp : Span) (target : Expr) (op : Option BinaryOp)
    (e : Expr) (hP : ∀ b, P b → Gets c ni proto? f (.stmt (.assign sp target op e)) b) :
    (Zone.live base scopes).Leads law c E P (lowerStmt ni (.assign sp target op e)) := by
  cases target with
  | ident n x =>
      exact Zone.leads_assignName Zone.stable_live hni (h.readable e) (fun _ v _ y _ => h.reads y v)
        fun _ _ _ _ z _ _ => hnext z
  | member n object name =>
      exact Zone.leads_assignMember Zone.stable_live hni (h.readable object) (h.readable e)
        fun x _ => hnext x
  | index n object i =>
      refine Zone.leads_assignElement (W := place) Zone.stable_live hni (h.readable object)
        (h.readable i) (h.readable e) (fun x _ => hnext x)
        (fun {a j ty b b₁ b₂} hb hty hobject hi => ?_) ?_ fun a j t x hx => h.writes hx
      · split
        · rename_i hmap
          have hplace : MapPlace c ni proto? f a j :=
            ⟨sp, n, object, i, op, e, b, b₁, b₂, ty, hP b hb, hty, hmap, hobject, hi⟩
          exact fun x _ => h.maps hplace x
        · exact fun x y _ hy => h.checked hy
      · -- New code defines neither the container nor the index.
        intro a j b _ _ ha hj i x y hinner hy hx
        have hnew : ∀ t, t < b.nextTemp → i.dest? ≠ some t :=
          fun t ht hdest => Nat.lt_irrefl t (Nat.lt_of_lt_of_le ht (hinner.dest t hdest))
        exact ⟨trivial, h.stays (hnew a ha) (hnew j hj) hy hx.2⟩
  | _ =>
      intro s _ _ _
      rw [lowerStmt]
      exact draws_fail _

end

/-! ### Statements -/

section

variable {law : Law H} {c : Context} {ni : String → Lower Temp} {proto? : Option String}
  {f : FunctionDecl} {place : Temp → Temp → H → Prop} {k : Analysis.Context}

/-- The steps behind the first statement of a `for` loop. -/
theorem resumes_forRest {sp : Span} {init : Option Stmt} {e : Option Expr} {update : Option Stmt}
    {body : List Stmt} {base : Builder} {scopes : Frames String} {n b : Prop}
    (h : Lenient law c ni proto? f place) (hni : Inert law c ni) (hn : n)
    (hbody : ∀ {P : Builder → Prop}, (∀ b, P b → Gets c ni proto? f (.row body) b) →
      (Zone.live base ([] :: scopes)).Leads law c (.of True n) P (lowerStmts ni body))
    (hupdate : ∀ {P : Builder → Prop},
      (∀ t b, update = some t → P b → b.ended = none → Gets c ni proto? f (.stmt t) b) →
      (Zone.live base scopes).Leads law c (.of True b) P (lowerStmt? ni update))
    {P : Builder → Prop} (hP : ∀ b, P b → ∃ b₀, Gets c ni proto? f (.stmt (.for sp init e update body)) b₀ ∧
      Runs c (lowerStmt? ni init) b₀.enter () b) :
    (Zone.live base scopes).Resumes law c (.of n b) P (lowerForRest ni e update body) := by
  intro s hs hends hPs
  refine Zone.draws_forRest (Z := Zone.live base scopes) (E := .of n b) (S := fun _ => True) (P := P)
    Zone.stable_live hni
    (fun e' _ => h.readable e') (fun _ _ _ => hn) (hbody ?_) (hupdate ?_) hs hends hPs
  · rintro _ ⟨b, labels, b₁, hb, hrun, rfl⟩
    obtain ⟨b₀, hgets, hinit⟩ := hP b hb
    exact hgets.into (.forBody hinit hrun)
  · rintro t _ rfl ⟨b, labels, b₁, hb, hrun, rfl⟩ hopen
    obtain ⟨b₀, hgets, hinit⟩ := hP b hb
    exact hgets.into (.forStep hinit hrun hopen)

mutual

/-- Control comes behind a statement unless it is final, and leaves it by a `break` only if it has one. -/
theorem leads_stmt (h : Lenient law c ni proto? f place) (hni : Inert law c ni) (hret : k.ret = f.ret) :
    (st : Stmt) → {loop brk : Bool} → {Γ : TyEnv} → st.Typed k loop brk Γ → {base : Builder} →
    {scopes : Frames String} → {n b : Prop} → (¬ st.isFinal → n) → (st.breaks → b) →
    {P : Builder → Prop} → (∀ b, P b → Gets c ni proto? f (.stmt st) b) →
    (Zone.live base scopes).Leads law c (.of n b) P (lowerStmt ni st)
  | .varDecl sp x ty isConst init, _, _, _, _, _, _, n, _, hnext, _, _, _ => by
      have hn : n := hnext Bool.false_ne_true
      refine Zone.leads_varDecl Zone.stable_live hni (fun e _ => h.readable e) ?_
      unfold Zone.Declaring Zone.Binding
      split
      · exact fun _ _ _ _ _ _ _ _ _ => hn
      · exact fun _ _ _ _ _ _ => hn
  | .assign sp target op e, _, _, _, _, _, _, n, _, hnext, _, _, hP => by
      have hn : n := hnext Bool.false_ne_true
      exact leads_assign h hni (fun _ => hn) sp target op e hP
  | .expr sp e, _, _, _, _, _, _, n, _, hnext, _, _, _ => by
      have hn : n := hnext Bool.false_ne_true
      exact Zone.leads_expr Zone.stable_live hni (h.readable e) fun _ _ => hn
  | .ifThen sp e body, _, _, _, htyped, _, _, n, _, hnext, hbrk, _, hP => by
      have hn : n := hnext Bool.false_ne_true
      rw [Stmt.Typed] at htyped
      refine Zone.leads_ifThen Zone.stable_live hni (h.readable e) (fun _ _ => hn)
        (leads_stmts h hni hret body htyped.2 (fun _ => hn) hbrk ?_)
      rintro _ ⟨b, done, b₁, hb, hrun, rfl⟩
      exact (hP b hb).into (.thenBody hrun)
  | .ifElse sp e x y, _, _, _, htyped, _, _, n, _, hnext, hbrk, _, hP => by
      rw [Stmt.Typed] at htyped
      rw [isFinal_ifElse] at hnext
      rw [Stmt.breaks, Bool.or_eq_true] at hbrk
      refine Zone.leads_ifElse Zone.stable_live hni (h.readable e)
        (leads_stmts h hni hret x htyped.2.1 (fun hx => hnext ?_) (fun hx => hbrk (.inl hx)) ?_)
        (leads_stmts h hni hret y htyped.2.2 (fun hy => hnext ?_) (fun hy => hbrk (.inr hy)) ?_)
      · simp [hx]
      · rintro _ ⟨b, labels, b₁, hb, hrun, rfl⟩
        exact (hP b hb).into (.firstBranch hrun)
      · simp [hy]
      · rintro _ ⟨b, done, b₁, hb, hrun, rfl⟩
        exact (hP b hb).into (.secondBranch hrun)
  | .while sp e body, _, _, _, htyped, _, _, n, _, hnext, _, _, hP => by
      have hn : n := hnext Bool.false_ne_true
      rw [Stmt.Typed] at htyped
      refine Zone.leads_while Zone.stable_live hni (h.readable e) (fun _ _ => hn)
        (leads_stmts h hni hret body htyped.2 (fun _ => trivial) (fun _ => hn) ?_)
      rintro _ ⟨b, r, b₁, hb, hrun, rfl⟩
      exact (hP b hb).into (.whileBody hrun)
  | .doWhile sp body e, _, _, _, htyped, _, _, n, _, hnext, _, _, hP => by
      have hn : n := hnext Bool.false_ne_true
      rw [Stmt.Typed] at htyped
      refine Zone.leads_doWhile (C := fun _ => True) hni Zone.stable_live (h.readable e)
        (fun _ _ => trivial) (fun _ _ => hn)
        (leads_stmts h hni hret body htyped.1 (fun _ => trivial) (fun _ => hn) ?_)
      rintro _ ⟨b, r, b₁, hb, hrun, rfl⟩
      exact (hP b hb).into (.doBody hrun)
  | .for sp init e update body, _, _, _, htyped, base, scopes, n, b, hnext, hbrk, _, hP => by
      have hn : n := hnext Bool.false_ne_true
      rw [Stmt.Typed] at htyped
      rw [Stmt.breaks, Bool.or_eq_true] at hbrk
      obtain ⟨hinit, _, hbody, hupdate⟩ := htyped
      -- What is behind the first statement, in whatever zone that leads to.
      have hrest : ∀ {base scopes} {P : Builder → Prop},
          (∀ b, P b → ∃ b₀, Gets c ni proto? f (.stmt (.for sp init e update body)) b₀ ∧
            Runs c (lowerStmt? ni init) b₀.enter () b) →
          (Zone.live base scopes).Resumes law c (.of n b) P (lowerForRest ni e update body) :=
        resumes_forRest h hni hn (leads_stmts h hni hret body hbody (fun _ => trivial) (fun _ => hn))
          (leads_stmt? h hni hret update hupdate trivial (fun hu => hbrk (.inr hu)))
      refine Zone.leads_for hni ?_
      cases init with
      | none =>
          refine Zone.leads_first_none (hrest ?_)
          rintro _ ⟨b, hb, rfl⟩
          exact ⟨b, hP b hb, rfl⟩
      | some t =>
          cases hdeclares : Analysis.declares t with
          | false =>
              refine Zone.leads_first (A := fun _ => True) hni hdeclares
                (leads_stmt h hni hret t hinit (fun _ => trivial) (fun ht => hbrk (.inl ht)) ?_) (hrest ?_)
              · rintro _ ⟨⟨b, hb, rfl⟩, hopen⟩
                exact (hP b hb).into (.forInit hopen)
              · rintro _ ⟨_, _, b₁, ⟨⟨b, hb, rfl⟩, hopen⟩, hrun, rfl⟩
                exact ⟨b, hP b hb, runs_lowerStmt? hopen hrun⟩
          | true =>
              cases t with
              | varDecl sp' x ty isConst init =>
                  refine Zone.leads_first_varDecl Zone.stable_live hni (fun e _ => h.readable e)
                    Zone.declaring_true fun v b' _ => hrest ?_
                  rintro _ ⟨_, _, b₁, ⟨⟨b, hb, rfl⟩, hopen⟩, hrun, rfl⟩
                  exact ⟨b, hP b hb, runs_lowerStmt? hopen hrun⟩
              | _ => cases hdeclares
  | .forEach sp kind ty x e body, _, _, _, htyped, _, _, n, _, hnext, _, _, hP => by
      have hn : n := hnext Bool.false_ne_true
      rw [Stmt.Typed] at htyped
      obtain ⟨_, _, _, _, _, hbody⟩ := htyped
      refine Zone.leads_forEach (B := fun _ _ => True) Zone.stable_live hni (h.readable e)
        (fun _ _ => hn) (fun _ => Zone.binding_true) fun v b' _ =>
          leads_stmts h hni hret body hbody (fun _ => trivial) (fun _ => hn) ?_
      rintro _ ⟨b, r, b₁, v, b₂, hb, hrun, hv, rfl⟩
      exact (hP b hb).into (.eachBody hrun hv)
  | .switch sp e arms, _, _, _, htyped, _, _, n, _, hnext, _, _, hP => by
      rw [Stmt.Typed] at htyped
      rw [isFinal_switch] at hnext
      obtain ⟨_, _, _, harms⟩ := htyped
      refine Zone.leads_switch Zone.stable_live hni (h.readable e) (fun _ _ t _ => h.readable t)
        (fun htests _ _ => hnext ?_) fun done labels hlength =>
          leads_arms h hni hret arms harms (fun harms => hnext ?_) hlength ?_
      · have hdefault : (arms.any fun arm => arm.test.isNone) = false := by
          rw [List.any_eq_false]
          intro arm harm
          simp [Option.isSome_iff_ne_none.1 (htests arm harm)]
        simp [hdefault]
      · simp [harms]
      · rintro _ ⟨b, hb, hrun⟩
        exact (hP b hb).into (.switchArms hrun)
  | .break sp, _, _, _, _, _, _, _, _, _, hbrk, _, _ =>
      Zone.leads_break Zone.stable_live (fun _ _ => hbrk rfl) sp
  | .continue sp, _, _, _, _, _, _, _, _, _, _, _, _ =>
      Zone.leads_continue Zone.stable_live (fun _ _ => trivial) sp
  | .ret sp none, _, _, _, htyped, _, _, _, _, _, _, _, _ => by
      rw [Stmt.Typed] at htyped
      exact Zone.leads_retVoid Zone.stable_live fun _ _ => h.void (hret.symm.trans htyped)
  | .ret sp (some e), _, _, _, _, _, _, _, _, _, _, _, _ =>
      Zone.leads_ret Zone.stable_live hni (h.readable e)
  | .throw sp e, _, _, _, _, _, _, _, _, _, _, _, _ =>
      Zone.leads_throw Zone.stable_live hni (h.readable e)
  | .try sp body clauses, _, _, _, htyped, _, _, n, _, hnext, hbrk, _, hP => by
      rw [Stmt.Typed] at htyped
      rw [isFinal_try] at hnext
      rw [Stmt.breaks, Bool.or_eq_true] at hbrk
      refine Zone.leads_try (C := fun _ => True) Zone.stable_live hni Zone.stable_live
        (fun _ _ _ _ _ _ _ => trivial) (fun _ _ hn _ => hn)
        (leads_stmts h hni hret body htyped.1 (fun hb => hnext ?_) (fun hb => hbrk (.inl hb)) ?_)
        fun exception done => leads_clauses h hni hret clauses htyped.2 (fun hc => hnext ?_)
          (fun hc => hbrk (.inr hc)) ?_
      · simp [hb]
      · rintro _ ⟨b, labels, b₁, hb, hrun, rfl⟩
        exact (hP b hb).into (.tryBody hrun)
      · simp [hc]
      · rintro _ ⟨b, hb, hrun⟩
        exact (hP b hb).into (.tryClauses hrun)
  | .block sp body, _, _, _, htyped, _, _, _, _, hnext, hbrk, _, hP => by
      rw [Stmt.Typed] at htyped
      refine Zone.leads_block hni (leads_stmts h hni hret body htyped hnext hbrk ?_)
      rintro _ ⟨b, hb, rfl⟩
      exact (hP b hb).into .blockBody

theorem leads_stmts (h : Lenient law c ni proto? f place) (hni : Inert law c ni) (hret : k.ret = f.ret) :
    (body : List Stmt) → {loop brk : Bool} → {Γ : TyEnv} → StmtsTyped k loop brk Γ body →
    {base : Builder} → {scopes : Frames String} → {n b : Prop} → (¬ areFinal body → n) →
    (anyBreaks body → b) → {P : Builder → Prop} → (∀ b, P b → Gets c ni proto? f (.row body) b) →
    (Zone.live base scopes).Leads law c (.of n b) P (lowerStmts ni body)
  | [], _, _, _, _, _, _, _, _, hnext, _, _, _ =>
      Zone.leads_nil fun _ _ => hnext Bool.false_ne_true
  | st :: rest, _, _, _, htyped, _, _, n, b, hnext, hbrk, P, hP => by
      rw [StmtsTyped] at htyped
      rw [areFinal_cons] at hnext
      rw [anyBreaks, Bool.or_eq_true] at hbrk
      have hhead : ∀ b, P b ∧ b.ended = none → Gets c ni proto? f (.stmt st) b :=
        fun b hb => (hP b hb.1).head hb.2
      have htail : ∀ b', Reached c (fun b => P b ∧ b.ended = none) (lowerStmt ni st) (fun _ b => b) b' →
          Gets c ni proto? f (.row rest) b' := by
        rintro _ ⟨b, _, b₁, ⟨hb, hopen⟩, hrun, rfl⟩
        exact (hP b hb).tail hopen hrun
      cases hdeclares : Analysis.declares st with
      | true =>
          cases st with
          | varDecl sp x ty isConst init =>
              refine Zone.leads_cons_varDecl Zone.stable_live hni (fun e _ => h.readable e)
                Zone.declaring_true fun v b' _ =>
                  leads_stmts h hni hret rest htyped.2 (fun hrest => hnext ?_) (fun hb => hbrk (.inr hb)) htail
              split
              · exact Bool.false_ne_true
              · exact hrest
          | _ => cases hdeclares
      | false =>
          cases rest with
          | nil =>
              exact Zone.leads_cons (A := fun _ => n) hni hdeclares
                (leads_stmt h hni hret st htyped.1 hnext (fun hb => hbrk (.inl hb)) hhead)
                (Zone.leads_nil fun _ hn => hn)
          | cons t rest =>
              exact Zone.leads_cons (A := fun _ => True) hni hdeclares
                (leads_stmt h hni hret st htyped.1 (fun _ => trivial) (fun hb => hbrk (.inl hb)) hhead)
                (leads_stmts h hni hret (t :: rest) htyped.2 hnext (fun hb => hbrk (.inr hb)) htail)

theorem leads_stmt? (h : Lenient law c ni proto? f place) (hni : Inert law c ni) (hret : k.ret = f.ret) :
    (st : Option Stmt) → {loop brk : Bool} → {Γ : TyEnv} → StmtTyped? k loop brk Γ st →
    {base : Builder} → {scopes : Frames String} → {n b : Prop} → n → (breaks? st → b) →
    {P : Builder → Prop} →
    (∀ t b, st = some t → P b → b.ended = none → Gets c ni proto? f (.stmt t) b) →
    (Zone.live base scopes).Leads law c (.of n b) P (lowerStmt? ni st)
  | none, _, _, _, _, _, _, _, _, hn, _, _, _ => by
      intro s _ hat _
      rw [lowerStmt?]
      exact draws_pure fun _ _ _ => hn
  | some st, _, _, _, htyped, _, _, _, _, hn, hbrk, _, hP =>
      Zone.leads_some (leads_stmt h hni hret st htyped (fun _ => hn) hbrk fun b hb => hP st b rfl hb.1 hb.2)

theorem leads_arms (h : Lenient law c ni proto? f place) (hni : Inert law c ni) (hret : k.ret = f.ret) :
    (arms : List SwitchArm) → {loop : Bool} → {τ : Ty} → {Γ : TyEnv} → ArmsTyped k loop τ Γ arms →
    {base : Builder} → {scopes : Frames String} → {n b : Prop} → (¬ armsFinal arms → n) →
    {done : String} → {labels : List String} → labels.length = arms.length → {P : Builder → Prop} →
    (∀ b, P b → Gets c ni proto? f (.arms done labels arms) b) →
    (Zone.live base scopes).LeadsArms law c (.of n b) P ni done labels arms
  | [], _, _, _, _, _, _, _, _, _, _, _, _, _, _ => Zone.leadsArms_nil
  | .mk sp test body falls :: rest, _, _, _, htyped, _, _, n, _, hnext, done, label :: labels, hlength, _, hP => by
      rw [ArmsTyped] at htyped
      rw [armsFinal_cons] at hnext
      have hrests : labels.length = rest.length := Nat.succ.inj hlength
      refine Zone.leadsArms_cons (N := fun _ => if falls ∧ labels ≠ [] then True else n) hni ?_
        (leads_stmts h hni hret body htyped.2.1 (fun hbody => ?_) (fun hb => hnext ?_) ?_)
        (leads_arms h hni hret rest htyped.2.2 (fun hrest => hnext ?_) hrests ?_)
      · split <;> rfl
      · split
        · trivial
        · rename_i hlast
          refine hnext ?_
          cases falls with
          | false => simp [hbody]
          | true =>
              have hnil : labels = [] := by simpa using hlast
              rw [hnil] at hrests
              have hrest : rest = [] := List.length_eq_zero_iff.1 hrests.symm
              simp [hrest]
      · simp [hb]
      · rintro _ ⟨b, _, b₁, hb, hrun, rfl⟩
        exact (hP b hb).into (.armBody hrun)
      · simp [hrest]
      · rintro _ ⟨b, _, b₁, hb, hrun, rfl⟩
        exact (hP b hb).into (.nextArm hrun)

theorem leads_clauses (h : Lenient law c ni proto? f place) (hni : Inert law c ni) (hret : k.ret = f.ret) :
    (clauses : List CatchClause) → {loop brk : Bool} → {Γ : TyEnv} → ClausesTyped k loop brk Γ clauses →
    {base : Builder} → {scopes : Frames String} → {n b : Prop} → (¬ clausesFinal clauses → n) →
    (clausesBreak clauses → b) → {exception : Temp} → {done : String} → {P : Builder → Prop} →
    (∀ b, P b → Gets c ni proto? f (.clauses exception done clauses) b) →
    (Zone.live base scopes).LeadsClauses law c (.of n b) P ni exception done clauses
  | [], _, _, _, _, _, _, _, _, _, _, _, _, _, _ => Zone.leadsClauses_nil
  | .mk sp proto x body :: rest, _, _, _, htyped, _, _, n, _, hnext, hbrk, _, _, _, hP => by
      rw [ClausesTyped] at htyped
      rw [clausesFinal_cons] at hnext
      rw [clausesBreak, Bool.or_eq_true] at hbrk
      refine Zone.leadsClauses_cons Zone.stable_live hni Zone.binding_true (fun v b' _ =>
        leads_stmts h hni hret body htyped.2.2.1 (fun hb => hnext ?_) (fun hb => hbrk (.inl hb)) ?_)
        (leads_clauses h hni hret rest htyped.2.2.2 (fun hc => hnext ?_) (fun hc => hbrk (.inr hc)) ?_)
      · simp [hb]
      · rintro _ ⟨_, v, b₂, ⟨b, next, b₁, hb, hrun, rfl⟩, hv, rfl⟩
        exact (hP b hb).into (.clauseBody hrun hv)
      · simp [hc]
      · rintro _ ⟨b, _, b₁, hb, hrun, rfl⟩
        exact (hP b hb).into (.nextClause hrun)

end

end

/-! ### Functions -/

section

variable {p : Program} {library : Library} {hierarchy : Hierarchy}

theorem selfless_contextOf (hclean : (p.analyze library).isClean) (proto? : Option String)
    (f : FunctionDecl) :
    (contextOf hierarchy (p.analyze library).program.prototypes proto? f).Selfless := by
  intro field e he
  obtain ⟨d, hd, he⟩ := Option.bind_eq_some_iff.1 he
  obtain ⟨g, hg, hinit⟩ := Option.bind_eq_some_iff.1 he
  exact Program.selfless_of_isClean hclean (List.mem_of_find?_eq_some hd) (List.mem_of_find?_eq_some hg)
    hinit

/-- A lenient law is obeyed in every function of a program without problems, if a function with a result
whose body is not final may stop. -/
theorem kept_of_lenient {law : Law H} {depth : Nat} {proto? : Option String} {f : FunctionDecl}
    {F : Ir.Function} {place : Temp → Temp → H → Prop} (hclean : (p.analyze library).isClean)
    (hf : (proto?, f) ∈ (p.analyze library).program.bodies)
    (hF : lowerFunction hierarchy (p.analyze library).program.prototypes depth proto? f = .ok F)
    (h : Lenient law (contextOf hierarchy (p.analyze library).program.prototypes proto? f)
      (newInstance depth) proto? f place)
    (hstops : f.ret.isVoid = false → areFinal f.body = false → ∀ code, law.stops code) :
    ∃ claims, F.Kept law claims := by
  obtain ⟨f₀, _, s, s', hpasses, hscopes⟩ := Program.passes_body_of_mem hclean hf
  have htyped := Analysis.passes_function hpasses (congrArg Scopes.shape hscopes)
  refine kept_of_lowerFunction (A := fun _ => True) (E := .of (¬ areFinal f.body) True) hF trivial
    (leads_stmts (k := { p.context library with proto?, ret := f.ret }) h
      (inert_newInstance (selfless_contextOf hclean proto? f) depth) rfl f.body htyped.body id
      (fun _ => trivial) ?_) ?_
  · rintro _ rfl
    exact .start
  · intro _ code hnext
    unfold lastOf
    split
    · rename_i hvoid
      exact h.void (eq_of_beq hvoid)
    · rename_i hvoid
      exact hstops (Bool.eq_false_iff.2 hvoid) (Bool.eq_false_iff.2 hnext) code

end

end ProtoScript.Lowering
