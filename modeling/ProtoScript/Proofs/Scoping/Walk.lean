import ProtoScript.Lowering.Program
import ProtoScript.Proofs.Analysis.TypedProgram
import ProtoScript.Proofs.Scoping.Layers

set_option autoImplicit false

/-!
# The way of checking and lowering through a function

Checking and lowering go through the statements of a function in the same order, lowering over what checking
has made of them. `Meets` relates each part of a function to the points at which they come to it. A single
step leads from a statement behind it (`Leads`) or into a part of it (`Into`); how each of the two gets there
is stated as it is done: what the checker checks before, and what lowering writes before.

What the layers say of a point stays true along the way (`Meets.sound`), and checking reports nothing on the
rest of it if it reports nothing on the function (`Meets.passes`).
-/

namespace ProtoScript.Scoping

open Analysis Lowering

/-- A part of a function that both come to, before and after checking. -/
inductive Part where
  | row (body body' : List Stmt)
  | stmt (stmt stmt' : Stmt)
  /-- The condition of a `for` loop. -/
  | test (e e' : Expr)
  /-- Arms of a switch over a value of type `ty?`, with their labels and the one behind the switch. The
  snapshots are what the checker knows before the switch and behind the arms before. -/
  | arms (ty? : Option Ty) (before : FlowSnapshot) (merged : Option FlowSnapshot)
    (arms arms' : List SwitchArm) (labels : List String) (done : String)
  /-- Catch clauses, with the exception and the label behind the region. -/
  | clauses (before merged : FlowSnapshot) (clauses clauses' : List CatchClause) (exception : Ir.Temp)
    (done : String)

/-- The checker makes of the part what stands there, and reports nothing. -/
def Part.Passes (c : Analysis.Context) : Part → Analysis.State → Prop
  | .row body body', s => ∃ s', Analysis.Passes (checkStmts body) c s body' s'
  | .stmt t t', s => ∃ s', Analysis.Passes (checkStmt t) c s t' s'
  | .test e e', s => ∃ s', Analysis.Passes (checkCondition e) c s e' s'
  | .arms ty? before merged as as' _ _, s =>
    ∃ merged' s', Analysis.Passes (checkArms ty? before merged as) c s (as', merged') s'
  | .clauses before merged cs cs' _ _, s =>
    ∃ merged' s', Analysis.Passes (checkClauses before merged cs) c s (cs', merged') s'

section

variable (c : Analysis.Context) (k : Lowering.Context) (ni : String → Lower Ir.Temp)

/-- Both go over a statement. A declaration adds its name to the innermost scope. -/
inductive Leads : Stmt → Stmt → Point → Point → Prop where
  | declaration {sp : Span} {x v : String} {ty : Ty} {isConst : Bool} {init init' : Option Expr}
    {s s' : Analysis.State} {b b' : Builder} {ls : Layers}
    (hs : Passes (checkStmt (.varDecl sp x ty isConst init)) c s (.varDecl sp x ty isConst init') s')
    (hb : Runs k (lowerDeclared ni x ty init') b v b') :
    Leads (.varDecl sp x ty isConst init) (.varDecl sp x ty isConst init') ⟨s, b, ls⟩
      ⟨s', b', ls.declare x (.visible ty v)⟩
  | other {stmt stmt' : Stmt} {s s' : Analysis.State} {b b' : Builder} {ls : Layers}
    (hstmt : declares stmt = false) (hs : Passes (checkStmt stmt) c s stmt' s')
    (hb : Runs k (lowerStmt ni stmt') b () b') : Leads stmt stmt' ⟨s, b, ls⟩ ⟨s', b', ls⟩

/-- Both go over a statement that may be missing. -/
inductive Leads? : Option Stmt → Option Stmt → Point → Point → Prop where
  | none {q : Point} : Leads? none none q q
  | some {stmt stmt' : Stmt} {q q' : Point} (hopen : q.builder.ended = .none)
    (h : Leads c k ni stmt stmt' q q') : Leads? (some stmt) (some stmt') q q'

/-- Both go from a part into a part of it. -/
inductive Into : Part → Point → Part → Point → Prop where
  | thenBody {sp : Span} {e e' : Expr} {body body' : List Stmt} {s s₁ : Analysis.State} {b b₁ : Builder}
    {ls : Layers} {done : String} (hs : Passes (checkCondition e) c s e' s₁)
    (hb : Runs k (openIf ni e') b done b₁) :
    Into (.stmt (.ifThen sp e body) (.ifThen sp e' body')) ⟨s, b, ls⟩ (.row body body')
      ⟨s₁.enter .block, enterBuilder b₁ .block, ⟨.block, []⟩ :: ls⟩
  | firstBranch {sp : Span} {e e' : Expr} {x x' y y' : List Stmt} {s s₁ : Analysis.State}
    {b b₁ : Builder} {ls : Layers} {labels : String × String}
    (hs : Passes (checkCondition e) c s e' s₁) (hb : Runs k (openIfElse ni e') b labels b₁) :
    Into (.stmt (.ifElse sp e x y) (.ifElse sp e' x' y')) ⟨s, b, ls⟩ (.row x x')
      ⟨s₁.enter .block, enterBuilder b₁ .block, ⟨.block, []⟩ :: ls⟩
  | secondBranch {sp : Span} {e e' : Expr} {x x' y y' : List Stmt} {s s₁ s₂ : Analysis.State}
    {b b₁ : Builder} {ls : Layers} {done : String} (hs : Passes (checkCondition e) c s e' s₁)
    (hx : Passes (checkStmts x) c (s₁.enter .block) x' s₂) (hb : Runs k (openElse ni e' x') b done b₁) :
    Into (.stmt (.ifElse sp e x y) (.ifElse sp e' x' y')) ⟨s, b, ls⟩ (.row y y')
      ⟨(s₂.leave.restored s₁.scopes.snapshot).enter .block, enterBuilder b₁ .block, ⟨.block, []⟩ :: ls⟩
  | whileBody {sp : Span} {e e' : Expr} {body body' : List Stmt} {s s₁ : Analysis.State}
    {b b₁ : Builder} {ls : Layers} {again done : String}
    (hs : Passes (checkCondition e) c s.forget e' s₁)
    (hb : Runs k (openWhileBody ni e') b (again, done) b₁) :
    Into (.stmt (.while sp e body) (.while sp e' body')) ⟨s, b, ls⟩ (.row body body')
      ⟨s₁.forget.enter .loop, enterBuilder b₁ (.loop done again), ⟨.loop done again, []⟩ :: ls⟩
  | doBody {sp : Span} {e e' : Expr} {body body' : List Stmt} {s : Analysis.State} {b b₁ : Builder}
    {ls : Layers} {again start done : String} (hb : Runs k openDo b (again, start, done) b₁) :
    Into (.stmt (.doWhile sp body e) (.doWhile sp body' e')) ⟨s, b, ls⟩ (.row body body')
      ⟨s.forget.enter .loop, enterBuilder b₁ (.loop done again), ⟨.loop done again, []⟩ :: ls⟩
  | forInit {sp : Span} {init init' : Stmt} {e e' : Option Expr} {update update' : Option Stmt}
    {body body' : List Stmt} {s : Analysis.State} {b : Builder} {ls : Layers} (hopen : b.ended = none) :
    Into (.stmt (.for sp (some init) e update body) (.for sp (some init') e' update' body')) ⟨s, b, ls⟩
      (.stmt init init') ⟨s.enter .block, enterBuilder b .block, ⟨.block, []⟩ :: ls⟩
  | forTest {sp : Span} {init init' update update' : Option Stmt} {e e' : Expr} {body body' : List Stmt}
    {s s₁ : Analysis.State} {b b₁ b₂ : Builder} {ls ls₁ : Layers} {labels : ForLabels}
    (hinit : Leads? c k ni init init' ⟨s.enter .block, enterBuilder b .block, ⟨.block, []⟩ :: ls⟩
      ⟨s₁, b₁, ls₁⟩)
    (hb : Runs k openFor b₁ labels b₂) :
    Into (.stmt (.for sp init (some e) update body) (.for sp init' (some e') update' body')) ⟨s, b, ls⟩
      (.test e e') ⟨s₁.forget, b₂, ls₁⟩
  | forBody {sp : Span} {init init' update update' : Option Stmt} {e e' : Option Expr}
    {body body' : List Stmt} {s s₁ s₂ : Analysis.State} {b b₁ b₂ : Builder} {ls ls₁ : Layers}
    {labels : ForLabels}
    (hinit : Leads? c k ni init init' ⟨s.enter .block, enterBuilder b .block, ⟨.block, []⟩ :: ls⟩
      ⟨s₁, b₁, ls₁⟩)
    (hs : Passes (checkCondition? e) c s₁.forget e' s₂)
    (hb : Runs k (openForBody ni e') b₁ labels b₂) :
    Into (.stmt (.for sp init e update body) (.for sp init' e' update' body')) ⟨s, b, ls⟩
      (.row body body') ⟨s₂.enter .loop, enterBuilder b₂ (.loop labels.done labels.stepLabel),
        ⟨.loop labels.done labels.stepLabel, []⟩ :: ls₁⟩
  /-- The checker comes to the step behind the body, in its scope, and lowering outside of it. -/
  | forStep {sp : Span} {init init' : Option Stmt} {update update' : Stmt} {e e' : Option Expr}
    {body body' : List Stmt} {s s₁ s₂ s₃ : Analysis.State} {b b₁ b₂ : Builder} {ls ls₁ : Layers}
    {labels : ForLabels}
    (hinit : Leads? c k ni init init' ⟨s.enter .block, enterBuilder b .block, ⟨.block, []⟩ :: ls⟩
      ⟨s₁, b₁, ls₁⟩)
    (hs : Passes (checkCondition? e) c s₁.forget e' s₂)
    (hbody : Passes (checkStmts body) c (s₂.enter .loop) body' s₃)
    (hb : Runs k (openForStep ni e' body') b₁ labels b₂) (hopen : b₂.ended = none) :
    Into (.stmt (.for sp init e (some update) body) (.for sp init' e' (some update') body')) ⟨s, b, ls⟩
      (.stmt update update') ⟨s₃, b₂, .ofStep body' :: ls₁⟩
  | eachBody {sp : Span} {kind : IterKind} {ty : Option Ty} {x v : String} {e e' : Expr}
    {body body' : List Stmt} {s s₁ s₂ s₃ : Analysis.State} {b b₁ b₂ : Builder} {ls : Layers}
    {elem elem' : Ty} {iter : Ir.Temp} {head done : String}
    (hs : Passes (checkExpr none e) c s e' s₁) (hvar : Passes (loopVariable sp kind ty x e') c s₁ elem s₂)
    (hx : define x { ty := elem, span := sp } c (s₂.forget.enter .loop) = (none, s₃))
    (hb : Runs k (openForEach ni kind ty e') b (iter, elem', head, done) b₁)
    (hv : Runs k (lowerVisited x iter elem') (enterBuilder b₁ .block) v b₂) :
    Into (.stmt (.forEach sp kind ty x e body) (.forEach sp kind ty x e' body')) ⟨s, b, ls⟩
      (.row body body') ⟨s₃, enterBuilder b₂ (.loop done head),
        ⟨.loop done head, [(x, .visible elem v)]⟩ :: ls⟩
  | switchArms {sp : Span} {e e' : Expr} {arms arms' : List SwitchArm} {s s₁ : Analysis.State}
    {b b₁ : Builder} {ls : Layers} {done : String} {labels : List String}
    (hs : Passes (checkSwitched e) c s e' s₁) (hb : Runs k (openArms ni e' arms') b (done, labels) b₁) :
    Into (.stmt (.switch sp e arms) (.switch sp e' arms')) ⟨s, b, ls⟩
      (.arms e'.type? s₁.scopes.snapshot none arms arms' labels done) ⟨s₁, b₁, ls⟩
  | armBody {ty? : Option Ty} {before : FlowSnapshot} {merged : Option FlowSnapshot} {sp : Span}
    {test test' : Option Expr} {body body' : List Stmt} {falls : Bool} {rest rest' : List SwitchArm}
    {label done : String} {labels : List String} {s s₁ : Analysis.State} {b b₁ : Builder} {ls : Layers}
    (hs : Passes (checkTest ty? test) c s test' s₁) (hb : Runs k (startBlock label) b () b₁) :
    Into (.arms ty? before merged (.mk sp test body falls :: rest) (.mk sp test' body' falls :: rest')
        (label :: labels) done) ⟨s, b, ls⟩ (.row body body')
      ⟨(s₁.restored before).enter .switch, enterBuilder b₁ (.switch done), ⟨.switch done, []⟩ :: ls⟩
  | nextArm {ty? : Option Ty} {before : FlowSnapshot} {merged : Option FlowSnapshot} {sp : Span}
    {test test' : Option Expr} {body body' : List Stmt} {falls : Bool} {rest rest' : List SwitchArm}
    {label done : String} {labels : List String} {s s₁ s₂ : Analysis.State} {b b₁ : Builder}
    {ls : Layers} (hs : Passes (checkTest ty? test) c s test' s₁)
    (hbody : Passes (checkStmts body) c ((s₁.restored before).enter .switch) body' s₂)
    (hb : Runs k (lowerArm ni done label labels body' falls) b () b₁) :
    Into (.arms ty? before merged (.mk sp test body falls :: rest) (.mk sp test' body' falls :: rest')
        (label :: labels) done) ⟨s, b, ls⟩
      (.arms ty? before (some (joinPath merged s₂.leave.scopes.snapshot)) rest rest' labels done)
      ⟨s₂.leave, b₁, ls⟩
  | tryBody {sp : Span} {body body' : List Stmt} {clauses clauses' : List CatchClause}
    {s : Analysis.State} {b b₁ : Builder} {ls : Layers} {labels : String × String}
    (hb : Runs k openTry b labels b₁) :
    Into (.stmt (.try sp body clauses) (.try sp body' clauses')) ⟨s, b, ls⟩ (.row body body')
      ⟨s.enter .block, enterBuilder b₁ .block, ⟨.block, []⟩ :: ls⟩
  | tryClauses {sp : Span} {body body' : List Stmt} {clauses clauses' : List CatchClause}
    {s s₁ : Analysis.State} {b b₁ : Builder} {ls : Layers} {exception : Ir.Temp} {done : String}
    (hbody : Passes (checkStmts body) c (s.enter .block) body' s₁)
    (hb : Runs k (openClauses ni body') b (exception, done) b₁) :
    Into (.stmt (.try sp body clauses) (.try sp body' clauses')) ⟨s, b, ls⟩
      (.clauses s.scopes.snapshot s₁.leave.scopes.snapshot clauses clauses' exception done)
      ⟨s₁.leave, b₁, ls⟩
  | clauseBody {before merged : FlowSnapshot} {sp : Span} {proto x v : String} {body body' : List Stmt}
    {rest rest' : List CatchClause} {exception : Ir.Temp} {done next : String} {s s₁ : Analysis.State}
    {b b₁ b₂ : Builder} {ls : Layers}
    (hx : define x { ty := .named proto, span := sp } c ((s.restored before).enter .block) = (none, s₁))
    (hb : Runs k (openClause exception proto) b next b₁)
    (hv : Runs k (lowerCaught exception x proto) (enterBuilder b₁ .block) v b₂) :
    Into (.clauses before merged (.mk sp proto x body :: rest) (.mk sp proto x body' :: rest') exception
        done) ⟨s, b, ls⟩ (.row body body')
      ⟨s₁, b₂, ⟨.block, [(x, .visible (.named proto) v)]⟩ :: ls⟩
  | nextClause {before merged : FlowSnapshot} {sp : Span} {proto x : String} {body body' : List Stmt}
    {rest rest' : List CatchClause} {exception : Ir.Temp} {done : String} {s s₁ s₂ : Analysis.State}
    {b b₁ : Builder} {ls : Layers}
    (hx : define x { ty := .named proto, span := sp } c ((s.restored before).enter .block) = (none, s₁))
    (hbody : Passes (checkStmts body) c s₁ body' s₂)
    (hb : Runs k (lowerClause ni exception done proto x body') b () b₁) :
    Into (.clauses before merged (.mk sp proto x body :: rest) (.mk sp proto x body' :: rest') exception
        done) ⟨s, b, ls⟩
      (.clauses before (merged.join s₂.leave.scopes.snapshot) rest rest' exception done)
      ⟨s₂.leave, b₁, ls⟩
  | blockBody {sp : Span} {body body' : List Stmt} {s : Analysis.State} {b : Builder} {ls : Layers} :
    Into (.stmt (.block sp body) (.block sp body')) ⟨s, b, ls⟩ (.row body body')
      ⟨s.enter .block, enterBuilder b .block, ⟨.block, []⟩ :: ls⟩

/-- The layer of the parameters of a function. -/
def paramLayer (f : FunctionDecl) : Layer :=
  ⟨.function, f.params.map fun p => (p.name, .visible p.ty p.name)⟩

/-- Checking the function `f` from the state `s`, and lowering what comes out of it, come to the part. -/
inductive Meets (proto? : Option String) (f f' : FunctionDecl) (s : Analysis.State) :
    Part → Point → Prop where
  | start {s₁ : Analysis.State} (hs : Passes (checkParams f.params) c (s.enter .function) () s₁) :
    Meets proto? f f' s (.row f.body f'.body) ⟨s₁, startOf proto? f', [paramLayer f]⟩
  | head {stmt stmt' : Stmt} {rest rest' : List Stmt} {q : Point}
    (h : Meets proto? f f' s (.row (stmt :: rest) (stmt' :: rest')) q) (hopen : q.builder.ended = none) :
    Meets proto? f f' s (.stmt stmt stmt') q
  | tail {stmt stmt' : Stmt} {rest rest' : List Stmt} {q q' : Point}
    (h : Meets proto? f f' s (.row (stmt :: rest) (stmt' :: rest')) q) (hopen : q.builder.ended = none)
    (hstmt : Leads c k ni stmt stmt' q q') : Meets proto? f f' s (.row rest rest') q'
  | into {part part' : Part} {q q' : Point} (h : Meets proto? f f' s part q)
    (hpart : Into c k ni part q part' q') : Meets proto? f f' s part' q'

end

variable {c : Analysis.Context} {k : Lowering.Context} {ni : String → Lower Ir.Temp}

/-! ## The layers along the way -/

/-- What a statement declares is declared by what checking makes of it. -/
theorem declares_of_passes {stmt stmt' : Stmt} {s s' : Analysis.State}
    (h : Passes (checkStmt stmt) c s stmt' s') (hstmt : declares stmt = false) :
    declares stmt' = false := by
  cases stmt' with
  | varDecl sp x ty isConst init =>
      have hafter := after_checkStmt (Γ := [[]]) h
      cases stmt with
      | varDecl => cases hstmt
      | _ => cases hafter
  | _ => rfl

section

variable (hni : ∀ proto, Steady (ni proto))

include hni

theorem Leads.sound {stmt stmt' : Stmt} {q q' : Point} (h : Leads c k ni stmt stmt' q q') (hq : q.Sound) :
    q'.Sound := by
  cases h with
  | @declaration sp x v ty isConst init init' s s' b b' ls hs hb =>
      obtain ⟨init₁, s₁, binding, _, rfl, _, _, _, _, hdefine, hinit⟩ := passes_varDecl hs
      have hshape : s₁.scopes.shape = s.scopes.shape := by
        cases init with
        | none =>
            obtain ⟨_, rfl⟩ := hinit
            rfl
        | some e =>
            obtain ⟨e', s₂, he, _, hscopes⟩ := hinit
            exact (Scopes.shape_of_forgetLengths hscopes).trans (he.shape (namesKept.looks_checkStored _ e).keeps)
      obtain ⟨hscopes, hjumps⟩ := declares_lowerDeclared hni x _ init' k b v b' hb
      exact (hq.keep hshape (.refl b)).declare hdefine hscopes hjumps
  | other hstmt hs hb =>
      exact hq.keep (hs.shape (keeps_checkStmt _ hstmt))
        (steady_lowerStmt hni _ (declares_of_passes hs hstmt) k _ _ _ hb)

theorem Leads?.sound {stmt stmt' : Option Stmt} {q q' : Point} (h : Leads? c k ni stmt stmt' q q')
    (hq : q.Sound) : q'.Sound := by
  cases h with
  | none => exact hq
  | some _ h => exact h.sound hni hq

theorem Into.sound {part part' : Part} {q q' : Point} (h : Into c k ni part q part' q') (hq : q.Sound) :
    q'.Sound := by
  cases h with
  | thenBody hs hb =>
      exact (hq.keep (hs.shape (namesKept.looks_checkCondition _).keeps) (steady_openIf hni _ k _ _ _ hb)).enter .block
  | firstBranch hs hb =>
      exact (hq.keep (hs.shape (namesKept.looks_checkCondition _).keeps) (steady_openIfElse hni _ k _ _ _ hb)).enter .block
  | @secondBranch _ e e' x x' _ _ s s₁ s₂ b b₁ ls done hs hx hb =>
      have hshape : (s₂.leave.restored s₁.scopes.snapshot).scopes.shape = s.scopes.shape :=
        (State.shape_restored _ _).trans ((hx.shape_leave (grows_checkStmts x)).trans
          (hs.shape (namesKept.looks_checkCondition e).keeps))
      exact (hq.keep hshape
        (steady_openElse hni e' (scoped_lowerStmts hni x') k _ _ _ hb)).enter .block
  | @whileBody _ e e' body body' s s₁ b b₁ ls again done hs hb =>
      have hshape : s₁.forget.scopes.shape = s.scopes.shape :=
        s₁.shape_forget.trans ((hs.shape (namesKept.looks_checkCondition e).keeps).trans s.shape_forget)
      exact (hq.keep hshape (steady_openWhileBody hni e' k _ _ _ hb)).enter (.loop done again)
  | @doBody _ e e' body body' s b b₁ ls again start done hb =>
      exact (hq.keep s.shape_forget (steady_openDo k _ _ _ hb)).enter (.loop done again)
  | forInit => exact hq.enter .block
  | @forTest _ init init' _ _ e e' _ _ s s₁ b b₁ b₂ ls ls₁ labels hinit hb =>
      exact (hinit.sound hni (hq.enter .block)).keep s₁.shape_forget (steady_openFor k _ _ _ hb)
  | @forBody _ init init' _ _ e e' _ _ s s₁ s₂ b b₁ b₂ ls ls₁ labels hinit hs hb =>
      have hshape : s₂.scopes.shape = s₁.scopes.shape :=
        (hs.shape (inspects_checkCondition? e).keeps).trans s₁.shape_forget
      exact ((hinit.sound hni (hq.enter .block)).keep hshape
        (steady_openForBody hni e' k _ _ _ hb)).enter (.loop labels.done labels.stepLabel)
  | @forStep _ init init' _ _ e e' body body' s s₁ s₂ s₃ b b₁ b₂ ls ls₁ labels hinit hs hbody hb =>
      have hq₁ := hinit.sound hni (hq.enter .block)
      have hshape : s₂.scopes.shape = s₁.scopes.shape :=
        (hs.shape (inspects_checkCondition? e).keeps).trans s₁.shape_forget
      have haround : Around _ _ (ls₁.map Layer.types) s₂.scopes := ⟨hq₁.types.of_shape hshape, rfl, rfl⟩
      obtain ⟨_, hafter⟩ := sound_stmts body hbody haround.enterLoop
      have hkinds := (grows_checkStmts body c (s₂.enter .loop)).kinds
      rw [hbody.run] at hkinds
      exact hq₁.toStep hafter.views (hkinds.trans
        (congrArg (fun r => ScopeKind.loop :: List.map Prod.fst r) hshape))
        (steady_openForStep hni e' (scoped_lowerStmts hni body') k _ _ _ hb)
  | @eachBody _ kind ty x v e e' body body' s s₁ s₂ s₃ b b₁ b₂ ls elem elem' iter head done hs hvar hx hb hv =>
      have hshape : s₂.forget.scopes.shape = s.scopes.shape :=
        s₂.shape_forget.trans ((hvar.shape (namesKept.looks_loopVariable _ _ _ _ _).keeps).trans
          (hs.shape (inspects_checkExpr none e).keeps))
      have hloop := (hq.keep hshape (steady_openForEach hni kind ty e' k _ _ _ hb)).enter (.loop done head)
      obtain ⟨hscopes, hjumps⟩ := declares_lowerVisited x iter elem' k _ v b₂ hv
      -- Lowering has a scope for the variable and another one for the body.
      have hdeclared := (hloop.declare hx (b := (enterBuilder b₁ (.loop done head)).withScopes b₂.scopes)
        hscopes rfl).enterEmpty
      refine hdeclared.withBuilder rfl ?_
      show List.map _ (_ :: b₂.jumps) = List.map _ (_ :: b₁.jumps)
      rw [hjumps]
      rfl
  | switchArms hs hb =>
      exact hq.keep (hs.shape (namesKept.looks_checkSwitched _).keeps) (steady_openArms hni _ _ k _ _ _ hb)
  | @armBody ty? before _ _ test test' _ _ _ _ _ _ done _ s s₁ b b₁ ls hs hb =>
      have hshape : (s₁.restored before).scopes.shape = s.scopes.shape :=
        (s₁.shape_restored before).trans (hs.shape (inspects_checkTest ty? test).keeps)
      exact (hq.keep hshape (steady_startBlock _ k _ _ _ hb)).enter (.switch done)
  | @nextArm ty? before _ _ test test' body body' falls _ _ label done labels s s₁ s₂ b b₁ ls hs hbody hb =>
      have hshape : s₂.leave.scopes.shape = s.scopes.shape :=
        (hbody.shape_leave (grows_checkStmts body)).trans ((s₁.shape_restored before).trans
          (hs.shape (inspects_checkTest ty? test).keeps))
      exact hq.keep hshape (steady_lowerArm done label labels (scoped_lowerStmts hni body') falls k _ _ _ hb)
  | tryBody hb => exact (hq.keep rfl (steady_openTry k _ _ _ hb)).enter .block
  | @tryClauses _ body body' _ _ s s₁ b b₁ ls exception done hbody hb =>
      exact hq.keep (hbody.shape_leave (grows_checkStmts body))
        (steady_openClauses (scoped_lowerStmts hni body') k _ _ _ hb)
  | @clauseBody before _ sp proto x v body body' _ _ exception done next s s₁ b b₁ b₂ ls hx hb hv =>
      have hblock := (hq.keep (s.shape_restored before)
        (steady_openClause exception proto k _ _ _ hb)).enter .block
      obtain ⟨hscopes, hjumps⟩ := declares_lowerCaught exception x proto k _ v b₂ hv
      exact hblock.declare hx hscopes hjumps
  | @nextClause before _ sp proto x body body' _ _ exception done s s₁ s₂ b b₁ ls hx hbody hb =>
      have hshape : s₂.leave.scopes.shape = s.scopes.shape :=
        (shape_leave_of_define hx hbody).trans (s.shape_restored before)
      exact hq.keep hshape
        (steady_lowerClause exception done proto x (scoped_lowerStmts hni body') k _ _ _ hb)
  | blockBody => exact hq.enter .block

end

/-! ## Checking along the way -/

/-- Where the checker reports nothing on a statement it is silent behind it as well. -/
theorem Leads.passes {stmt stmt' : Stmt} {rest rest' : List Stmt} {q q' : Point}
    (h : Leads c k ni stmt stmt' q q') (hq : (Part.row (stmt :: rest) (stmt' :: rest')).Passes c q.state) :
    (Part.row rest rest').Passes c q'.state := by
  obtain ⟨s', hrow⟩ := hq
  obtain ⟨stmt₁, s₁, rest₁, h₁, h₂, heq⟩ := passes_stmts_cons hrow
  obtain ⟨_, rfl⟩ := List.cons.inj heq
  cases h with
  | declaration hs =>
      obtain ⟨_, rfl⟩ := hs.unique h₁
      exact ⟨s', h₂⟩
  | other _ hs =>
      obtain ⟨_, rfl⟩ := hs.unique h₁
      exact ⟨s', h₂⟩

theorem Leads?.unique {stmt stmt' : Option Stmt} {q q' : Point} (h : Leads? c k ni stmt stmt' q q')
    {r : Option Stmt} {s' : Analysis.State} (hs : Passes (checkStmt? stmt) c q.state r s') :
    q'.state = s' := by
  cases h with
  | none => exact (passes_stmt?_none hs).2.symm
  | some _ h =>
      obtain ⟨stmt₁, h₁, _⟩ := passes_stmt?_some hs
      cases h with
      | declaration hstmt => exact (hstmt.unique h₁).2
      | other _ hstmt => exact (hstmt.unique h₁).2

theorem Into.passes {part part' : Part} {q q' : Point} (h : Into c k ni part q part' q')
    (hq : part.Passes c q.state) : part'.Passes c q'.state := by
  cases h with
  | thenBody hs =>
      obtain ⟨s', h⟩ := hq
      obtain ⟨e₁, t₁, body₁, t₂, h₁, h₂, heq, _⟩ := passes_ifThen h
      cases heq
      obtain ⟨_, rfl⟩ := hs.unique h₁
      exact ⟨t₂, h₂⟩
  | firstBranch hs =>
      obtain ⟨s', h⟩ := hq
      obtain ⟨e₁, t₁, x₁, t₂, y₁, t₃, h₁, h₂, _, heq, _⟩ := passes_ifElse h
      cases heq
      obtain ⟨_, rfl⟩ := hs.unique h₁
      exact ⟨t₂, h₂⟩
  | secondBranch hs hx =>
      obtain ⟨s', h⟩ := hq
      obtain ⟨e₁, t₁, x₁, t₂, y₁, t₃, h₁, h₂, h₃, heq, _⟩ := passes_ifElse h
      cases heq
      obtain ⟨_, rfl⟩ := hs.unique h₁
      obtain ⟨_, rfl⟩ := hx.unique h₂
      exact ⟨t₃, h₃⟩
  | whileBody hs =>
      obtain ⟨s', h⟩ := hq
      obtain ⟨e₁, t₁, body₁, t₂, h₁, h₂, heq, _⟩ := passes_while h
      cases heq
      obtain ⟨_, rfl⟩ := hs.unique h₁
      exact ⟨t₂, h₂⟩
  | doBody =>
      obtain ⟨s', h⟩ := hq
      obtain ⟨body₁, t₁, e₁, t₂, h₁, _, heq, _⟩ := passes_doWhile h
      cases heq
      exact ⟨t₁, h₁⟩
  | forInit =>
      obtain ⟨s', h⟩ := hq
      obtain ⟨init₁, t₁, e₁, t₂, body₁, t₃, update₁, t₄, h₁, _, _, _, heq, _⟩ := passes_for h
      cases heq
      obtain ⟨stmt₁, h₁, heq⟩ := passes_stmt?_some h₁
      cases heq
      exact ⟨t₁, h₁⟩
  | forTest hinit =>
      obtain ⟨s', h⟩ := hq
      obtain ⟨init₁, t₁, e₁, t₂, body₁, t₃, update₁, t₄, h₁, h₂, _, _, heq, _⟩ := passes_for h
      cases heq
      obtain rfl := hinit.unique h₁
      obtain ⟨e₂, h₂, heq⟩ := passes_condition?_some h₂
      cases heq
      exact ⟨t₂, h₂⟩
  | forBody hinit hs =>
      obtain ⟨s', h⟩ := hq
      obtain ⟨init₁, t₁, e₁, t₂, body₁, t₃, update₁, t₄, h₁, h₂, h₃, _, heq, _⟩ := passes_for h
      cases heq
      obtain rfl := hinit.unique h₁
      obtain ⟨_, rfl⟩ := hs.unique h₂
      exact ⟨t₃, h₃⟩
  | forStep hinit hs hbody =>
      obtain ⟨s', h⟩ := hq
      obtain ⟨init₁, t₁, e₁, t₂, body₁, t₃, update₁, t₄, h₁, h₂, h₃, h₄, heq, _⟩ := passes_for h
      cases heq
      obtain rfl := hinit.unique h₁
      obtain ⟨_, rfl⟩ := hs.unique h₂
      obtain ⟨_, rfl⟩ := hbody.unique h₃
      obtain ⟨stmt₁, h₄, heq⟩ := passes_stmt?_some h₄
      cases heq
      exact ⟨t₄, h₄⟩
  | eachBody hs hvar hx =>
      obtain ⟨s', h⟩ := hq
      obtain ⟨e₁, t₁, elem₁, t₂, r, t₃, body₁, t₄, h₁, h₂, h₃, h₄, heq, _⟩ := passes_forEach h
      cases heq
      obtain ⟨_, rfl⟩ := hs.unique h₁
      obtain ⟨rfl, rfl⟩ := hvar.unique h₂
      rw [hx] at h₃
      cases h₃
      exact ⟨t₄, h₄⟩
  | switchArms hs =>
      obtain ⟨s', h⟩ := hq
      obtain ⟨e₁, t₁, arms₁, merged, t₂, h₁, h₂, heq, _⟩ := passes_switch h
      cases heq
      obtain ⟨_, rfl⟩ := hs.unique h₁
      exact ⟨merged, t₂, h₂⟩
  | armBody hs =>
      obtain ⟨merged', s', h⟩ := hq
      obtain ⟨test₁, t₁, body₁, t₂, rest₁, h₁, h₂, _, heq⟩ := passes_arms_cons h
      cases heq
      obtain ⟨_, rfl⟩ := hs.unique h₁
      exact ⟨t₂, h₂⟩
  | nextArm hs hbody =>
      obtain ⟨merged', s', h⟩ := hq
      obtain ⟨test₁, t₁, body₁, t₂, rest₁, h₁, h₂, h₃, heq⟩ := passes_arms_cons h
      cases heq
      obtain ⟨_, rfl⟩ := hs.unique h₁
      obtain ⟨_, rfl⟩ := hbody.unique h₂
      exact ⟨merged', s', h₃⟩
  | tryBody =>
      obtain ⟨s', h⟩ := hq
      obtain ⟨body₁, t₁, clauses₁, merged, t₂, h₁, _, heq, _⟩ := passes_try h
      cases heq
      exact ⟨t₁, h₁⟩
  | tryClauses hbody =>
      obtain ⟨s', h⟩ := hq
      obtain ⟨body₁, t₁, clauses₁, merged, t₂, h₁, h₂, heq, _⟩ := passes_try h
      cases heq
      obtain ⟨_, rfl⟩ := hbody.unique h₁
      exact ⟨merged, t₂, h₂⟩
  | clauseBody hx =>
      obtain ⟨merged', s', h⟩ := hq
      obtain ⟨r, t₁, body₁, t₂, rest₁, _, _, h₁, h₂, _, heq⟩ := passes_clauses_cons h
      cases heq
      rw [hx] at h₁
      cases h₁
      exact ⟨t₂, h₂⟩
  | nextClause hx hbody =>
      obtain ⟨merged', s', h⟩ := hq
      obtain ⟨r, t₁, body₁, t₂, rest₁, _, _, h₁, h₂, h₃, heq⟩ := passes_clauses_cons h
      cases heq
      rw [hx] at h₁
      cases h₁
      obtain ⟨_, rfl⟩ := hbody.unique h₂
      exact ⟨merged', s', h₃⟩
  | blockBody =>
      obtain ⟨s', h⟩ := hq
      obtain ⟨body₁, t₁, h₁, heq, _⟩ := passes_block h
      cases heq
      exact ⟨t₁, h₁⟩

end ProtoScript.Scoping
