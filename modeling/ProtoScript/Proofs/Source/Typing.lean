import Mathlib.Data.List.Forall2
import ProtoScript.Analysis.Operator
import ProtoScript.Proofs.Lookup
import ProtoScript.Proofs.Source.Eval

set_option autoImplicit false

/-!
# Typing the scalar fragment

The rules that a checked function of the scalar fragment obeys: every expression carries its type, a
name has the type of its declaration, the operands of an operator agree, and jumps stand where they
have a target. Evaluation keeps these types (`Expr.HasTy.eval`).

What the names stand for is kept in frames on several sides: types, values, variables of the lowered
function. Two of them agree if they have the same names in the same order, with related meanings
(`Frames.Rel`).
-/

namespace ProtoScript

/-! ## Frames that agree -/

namespace Frames

variable {α β : Type}

/-- The frames have the same names in the same order, and what these stand for is related. -/
def Rel (r : α → β → Prop) (A : Frames α) (B : Frames β) : Prop :=
  List.Forall₂ (List.Forall₂ fun p q => p.1 = q.1 ∧ r p.2 q.2) A B

/-- Everything that names stand for. -/
def values (A : Frames α) : List α := A.flatMap fun s => s.map Prod.snd

theorem lookup_of_forall₂ {r : α → β → Prop} {s : List (String × α)} {t : List (String × β)}
    (h : List.Forall₂ (fun p q => p.1 = q.1 ∧ r p.2 q.2) s t) (x : String) :
    (s.lookup x = none ∧ t.lookup x = none) ∨
      ∃ a b, s.lookup x = some a ∧ t.lookup x = some b ∧ r a b := by
  induction h with
  | nil => exact .inl ⟨rfl, rfl⟩
  | @cons p q s t hpq _ ih =>
      obtain ⟨y, a⟩ := p
      obtain ⟨z, b⟩ := q
      obtain ⟨rfl, hab⟩ : y = z ∧ r a b := hpq
      simp only [List.lookup_cons]
      cases hxy : x == y with
      | true => exact .inr ⟨a, b, rfl, rfl, hab⟩
      | false => exact ih

theorem find?_cons (s : List (String × α)) (A : Frames α) (x : String) :
    find? (s :: A) x = (s.lookup x).or (find? A x) := by
  unfold find?
  rw [List.findSome?_cons]
  cases s.lookup x <;> rfl

/-- A name of one side is a name of the other. -/
theorem Rel.find? {r : α → β → Prop} {A : Frames α} {B : Frames β} (h : Rel r A B) (x : String) :
    (Frames.find? A x = none ∧ Frames.find? B x = none) ∨
      ∃ a b, Frames.find? A x = some a ∧ Frames.find? B x = some b ∧ r a b := by
  induction h with
  | nil => exact .inl ⟨rfl, rfl⟩
  | cons hst _ ih =>
      simp only [find?_cons]
      rcases lookup_of_forall₂ hst x with ⟨hs, ht⟩ | ⟨a, b, hs, ht, hab⟩
      · rw [hs, ht]
        exact ih
      · rw [hs, ht]
        exact .inr ⟨a, b, rfl, rfl, hab⟩

theorem Rel.exists_of_find? {r : α → β → Prop} {A : Frames α} {B : Frames β} (h : Rel r A B)
    {x : String} {a : α} (hx : Frames.find? A x = some a) :
    ∃ b, Frames.find? B x = some b ∧ r a b := by
  rcases h.find? x with ⟨hnone, _⟩ | ⟨a', b, ha, hb, hab⟩
  · rw [hx] at hnone
    cases hnone
  · rw [hx] at ha
    cases ha
    exact ⟨b, hb, hab⟩

theorem Rel.declare {r : α → β → Prop} {A : Frames α} {B : Frames β} (h : Rel r A B) (x : String)
    {a : α} {b : β} (hab : r a b) : Rel r (Frames.declare x a A) (Frames.declare x b B) := by
  cases h with
  | nil => exact .nil
  | cons hst hrest => exact .cons (.cons ⟨rfl, hab⟩ hst) hrest

theorem Rel.push {r : α → β → Prop} {A : Frames α} {B : Frames β} (h : Rel r A B) :
    Rel r ([] :: A) ([] :: B) := .cons .nil h

theorem Rel.tail {r : α → β → Prop} {A : Frames α} {B : Frames β} (h : Rel r A B) :
    Rel r A.tail B.tail := by
  cases h with
  | nil => exact .nil
  | cons _ hrest => exact hrest

theorem tail_declare (x : String) (a : α) (A : Frames α) : (declare x a A).tail = A.tail := by
  cases A with
  | nil => rfl
  | cons s outer => rfl

theorem mem_values_of_find? {A : Frames α} {x : String} {a : α} (h : Frames.find? A x = some a) :
    a ∈ values A := by
  induction A with
  | nil => cases h
  | cons s A ih =>
      rw [find?_cons] at h
      rw [values, List.flatMap_cons, List.mem_append]
      cases hs : s.lookup x with
      | none =>
          rw [hs] at h
          exact .inr (ih h)
      | some a' =>
          rw [hs] at h
          obtain rfl : a' = a := by simpa using h
          exact .inl (List.mem_map_of_mem (mem_of_lookup hs))

theorem forall₂_of_forall₂ {r r' : α → β → Prop} {s : List (String × α)} {t : List (String × β)}
    (h : List.Forall₂ (fun p q => p.1 = q.1 ∧ r p.2 q.2) s t)
    (hr : ∀ a ∈ s.map Prod.snd, ∀ b, r a b → r' a b) :
    List.Forall₂ (fun p q => p.1 = q.1 ∧ r' p.2 q.2) s t := by
  induction h with
  | nil => exact .nil
  | cons hpq _ ih =>
      refine .cons ⟨hpq.1, hr _ (by simp) _ hpq.2⟩ (ih fun a ha => hr a ?_)
      simp only [List.map_cons, List.mem_cons]
      exact .inr ha

/-- Frames that agree still agree where the relation weakens on what stands in them. -/
theorem Rel.mono {r r' : α → β → Prop} {A : Frames α} {B : Frames β} (h : Rel r A B)
    (hr : ∀ a ∈ values A, ∀ b, r a b → r' a b) : Rel r' A B := by
  induction h with
  | nil => exact .nil
  | @cons s t A B hst _ ih =>
      simp only [values, List.flatMap_cons, List.mem_append] at hr
      exact .cons (forall₂_of_forall₂ hst fun a ha => hr a (.inl ha)) (ih fun a ha => hr a (.inr ha))

/-- The two cases of an assignment: the scope has the name, or those around it do. -/
theorem assign_cons {t : List (String × Option Constant)} {ρ : Env} {x : String} {v : Constant} :
    Env.assign x v (t :: ρ) =
      if (t.lookup x).isSome then Env.setIn x v t :: ρ else t :: Env.assign x v ρ := rfl

/-- An assignment of a value that the relation allows. -/
theorem Rel.assign {r : α → Option Constant → Prop} {A : Frames α} {ρ : Env} (h : Rel r A ρ)
    {x : String} {a : α} {v : Constant} (hx : Frames.find? A x = some a) (hv : r a (some v)) :
    Rel r A (ρ.assign x v) := by
  induction h with
  | nil => cases hx
  | @cons s t A ρ hst hrest ih =>
      rw [find?_cons] at hx
      rw [assign_cons]
      rcases lookup_of_forall₂ hst x with ⟨hs, ht⟩ | ⟨a', b, hs, ht, _⟩
      · rw [hs] at hx
        rw [ht, if_neg (by simp)]
        exact .cons hst (ih hx)
      · rw [hs] at hx
        obtain rfl : a' = a := by simpa using hx
        rw [ht, Option.isSome_some, if_pos rfl]
        refine .cons ?_ hrest
        clear ih ht hx
        induction hst with
        | nil => cases hs
        | @cons p q s t hpq hst ih =>
            obtain ⟨y, c⟩ := p
            obtain ⟨z, d⟩ := q
            obtain ⟨rfl, hcd⟩ : y = z ∧ r c d := hpq
            rw [List.lookup_cons] at hs
            by_cases hyx : y = x
            · simp only [hyx, beq_self_eq_true, Option.some.injEq] at hs
              rw [Env.setIn, if_pos hyx]
              exact .cons ⟨rfl, hs ▸ hv⟩ hst
            · rw [beq_eq_false_iff_ne.2 (Ne.symm hyx)] at hs
              rw [Env.setIn, if_neg hyx]
              exact .cons ⟨rfl, hcd⟩ (ih hs)

/-- An assignment that changes the relation: for what is assigned to it holds of the new value, and
for everything else it holds as before. No two names may stand for the same. -/
theorem Rel.assign_of_nodup {r r' : α → Option Constant → Prop} {A : Frames α} {ρ : Env}
    (h : Rel r A ρ) {x : String} {a : α} {v : Constant} (hx : Frames.find? A x = some a)
    (hnodup : (values A).Nodup) (hv : r' a (some v)) (hkeep : ∀ b ≠ a, ∀ w, r b w → r' b w) :
    Rel r' A (ρ.assign x v) := by
  induction h with
  | nil => cases hx
  | @cons s t A ρ hst hrest ih =>
      rw [find?_cons] at hx
      rw [assign_cons]
      simp only [values, List.flatMap_cons, List.nodup_append] at hnodup
      obtain ⟨hnodupS, hnodupA, hdisjoint⟩ := hnodup
      rcases lookup_of_forall₂ hst x with ⟨hs, ht⟩ | ⟨a', b, hs, ht, _⟩
      · rw [hs] at hx
        rw [ht, if_neg (by simp)]
        refine .cons ?_ (ih hx hnodupA)
        have hne : ∀ c ∈ s.map Prod.snd, c ≠ a := fun c hc =>
          hdisjoint c hc a (mem_values_of_find? hx)
        exact forall₂_of_forall₂ hst fun c hc w => hkeep c (hne c hc) w
      · rw [hs] at hx
        obtain rfl : a' = a := by simpa using hx
        rw [ht, Option.isSome_some, if_pos rfl]
        have hmem : a' ∈ s.map Prod.snd := List.mem_map_of_mem (mem_of_lookup hs)
        refine .cons ?_ (Rel.mono hrest fun c hc w => hkeep c ?_ w)
        · clear ih ht hx hmem hdisjoint
          induction hst with
          | nil => cases hs
          | @cons p q s t hpq hst ih =>
              obtain ⟨y, c⟩ := p
              obtain ⟨z, d⟩ := q
              obtain ⟨rfl, hcd⟩ : y = z ∧ r c d := hpq
              rw [List.map_cons, List.nodup_cons] at hnodupS
              rw [List.lookup_cons] at hs
              by_cases hyx : y = x
              · simp only [hyx, beq_self_eq_true, Option.some.injEq] at hs
                rw [Env.setIn, if_pos hyx]
                refine .cons ⟨rfl, hs ▸ hv⟩ (forall₂_of_forall₂ hst fun e he w => hkeep e ?_ w)
                rintro rfl
                exact hnodupS.1 (by rw [hs]; exact he)
              · rw [beq_eq_false_iff_ne.2 (Ne.symm hyx)] at hs
                rw [Env.setIn, if_neg hyx]
                refine .cons ⟨rfl, hkeep c ?_ d hcd⟩ (ih hnodupS.2 hs)
                rintro rfl
                exact hnodupS.1 (List.mem_map.2 ⟨(x, c), mem_of_lookup hs, rfl⟩)
        · rintro rfl
          exact hdisjoint c hmem c hc rfl

end Frames

/-! ## The fragment -/

/-- `int`, `byte` or `bool`. -/
def Ty.isWord : Ty → Bool
  | .prim .int | .prim .byte | .prim .bool => true
  | _ => false

/-- The literal is a number or a truth value. -/
def Literal.isWord : Literal → Bool
  | .int _ | .bool _ => true
  | _ => false

/-- The expression is built from literals and local variables by operators and choices. A name that
stands for something else has been noted to. -/
def Expr.inFragment : Expr → Bool
  | literal _ v => v.isWord
  | ident n _ => n.value?.isNone
  | unary _ _ e => e.inFragment
  | binary _ _ l r => l.inFragment && r.inFragment
  | ternary _ c a b => c.inFragment && a.inFragment && b.inFragment
  | _ => false

mutual

/-- The statement declares and assigns local variables, or is a conditional, a loop with a condition, a
switch, a jump, a return or a block. -/
def Stmt.inFragment : Stmt → Bool
  | .varDecl _ _ ty _ init => ty.isWord && init.all Expr.inFragment
  | .assign _ target _ e => target.ident?.isSome && e.inFragment
  | .ifThen _ c body => c.inFragment && stmtsInFragment body
  | .ifElse _ c a b => c.inFragment && stmtsInFragment a && stmtsInFragment b
  | .while _ c body => c.inFragment && stmtsInFragment body
  | .doWhile _ body c => stmtsInFragment body && c.inFragment
  | .switch _ e arms => e.inFragment && armsInFragment arms
  | .break _ | .continue _ => true
  | .ret _ e => e.all Expr.inFragment
  | .block _ body => stmtsInFragment body
  | _ => false

def stmtsInFragment : List Stmt → Bool
  | [] => true
  | s :: rest => s.inFragment && stmtsInFragment rest

def armsInFragment : List SwitchArm → Bool
  | [] => true
  | .mk _ test body _ :: rest =>
    test.all Expr.inFragment && stmtsInFragment body && armsInFragment rest

end

/-- A function of the fragment. -/
def FunctionDecl.inFragment (f : FunctionDecl) : Bool :=
  (f.params.all fun p => p.ty.isWord) && (f.ret.isWord || f.ret.isVoid) && stmtsInFragment f.body

/-! ## Rules -/

/-- The types of the variables in scope. -/
abbrev TyEnv := Frames Ty

/-- A literal can have the type; a whole number can be a `byte` if it fits. -/
def Literal.HasTy (τ : Ty) : Literal → Prop
  | .bool _ => τ = .bool
  | .int v => τ = .int ∨ τ = .byte ∧ (Constant.fitByte? v.toInt).isSome
  | _ => False

/-- The type of an operation on operands of the given type. -/
def BinaryOp.resultTy (op : BinaryOp) (τ : Ty) : Ty := if op.isComparison then .bool else τ

/-- The expression has the type, and has been noted to. -/
inductive Expr.HasTy (Γ : TyEnv) : Expr → Ty → Prop where
  | literal {n : Note} {v : Literal} {τ : Ty} (hn : n.type? = some τ) (hv : v.HasTy τ) :
    HasTy Γ (.literal n v) τ
  | ident {n : Note} {x : String} {τ : Ty} (hn : n.type? = some τ)
    (hx : Frames.find? Γ x = some τ) (hτ : τ.isWord) : HasTy Γ (.ident n x) τ
  | unary {n : Note} {op : UnaryOp} {e : Expr} {τ : Ty} (hn : n.type? = some τ)
    (he : HasTy Γ e τ) (hop : Analysis.unaryApplies op τ) : HasTy Γ (.unary n op e) τ
  | logical {n : Note} {op : BinaryOp} {l r : Expr} (hn : n.type? = some .bool)
    (hop : op.isLogical) (hl : HasTy Γ l .bool) (hr : HasTy Γ r .bool) :
    HasTy Γ (.binary n op l r) .bool
  | binary {n : Note} {op : BinaryOp} {l r : Expr} {τ : Ty} (hn : n.type? = some (op.resultTy τ))
    (hop : op.isLogical = false) (hl : HasTy Γ l τ) (hr : HasTy Γ r τ)
    (happ : Analysis.binaryApplies op τ) : HasTy Γ (.binary n op l r) (op.resultTy τ)
  | ternary {n : Note} {c a b : Expr} {τ : Ty} (hn : n.type? = some τ) (hc : HasTy Γ c .bool)
    (ha : HasTy Γ a τ) (hb : HasTy Γ b τ) : HasTy Γ (.ternary n c a b) τ

/-- The value of an assignment fits a variable of the given type. -/
def Expr.FitsVar (Γ : TyEnv) (τ : Ty) (e : Expr) : Option BinaryOp → Prop
  | none => e.HasTy Γ τ
  | some op =>
    if op.isLogical then τ = .bool ∧ e.HasTy Γ .bool
    else e.HasTy Γ τ ∧ Analysis.binaryApplies op τ ∧ op.resultTy τ = τ

/-- The variables in scope behind a statement. -/
def TyEnv.after (Γ : TyEnv) : Stmt → TyEnv
  | .varDecl _ x ty _ _ => Frames.declare x ty Γ
  | _ => Γ

/-- The variables in scope behind statements. -/
def TyEnv.afterAll (Γ : TyEnv) (stmts : List Stmt) : TyEnv := stmts.foldl TyEnv.after Γ

theorem TyEnv.tail_after (Γ : TyEnv) (s : Stmt) : (Γ.after s).tail = Γ.tail := by
  cases s with
  | varDecl _ x ty _ _ => exact Frames.tail_declare x ty Γ
  | _ => rfl

mutual

/-- The statement obeys the rules, in a function that returns a `ret`, inside a loop if `loop` says so,
and inside a loop or switch if `brk` does. -/
def Stmt.WellTyped (ret : Ty) (loop brk : Bool) (Γ : TyEnv) : Stmt → Prop
  | .varDecl _ _ ty _ none => ty.isWord
  | .varDecl _ _ ty _ (some e) => ty.isWord ∧ e.HasTy Γ ty
  | .assign _ (.ident n x) op e =>
    ∃ τ, n.type? = some τ ∧ Frames.find? Γ x = some τ ∧ τ.isWord ∧ e.FitsVar Γ τ op
  | .ifThen _ c body => c.HasTy Γ .bool ∧ StmtsWellTyped ret loop brk ([] :: Γ) body
  | .ifElse _ c a b =>
    c.HasTy Γ .bool ∧ StmtsWellTyped ret loop brk ([] :: Γ) a ∧
      StmtsWellTyped ret loop brk ([] :: Γ) b
  | .while _ c body => c.HasTy Γ .bool ∧ StmtsWellTyped ret true true ([] :: Γ) body
  | .doWhile _ body c => StmtsWellTyped ret true true ([] :: Γ) body ∧ c.HasTy Γ .bool
  | .switch _ e arms => ∃ τ, e.HasTy Γ τ ∧ ArmsWellTyped ret loop τ Γ arms
  | .break _ => brk
  | .continue _ => loop
  | .ret _ none => ret = .void
  | .ret _ (some e) => e.HasTy Γ ret
  | .block _ body => StmtsWellTyped ret loop brk ([] :: Γ) body
  | _ => False

def StmtsWellTyped (ret : Ty) (loop brk : Bool) (Γ : TyEnv) : List Stmt → Prop
  | [] => True
  | s :: rest => s.WellTyped ret loop brk Γ ∧ StmtsWellTyped ret loop brk (Γ.after s) rest

/-- The arms of a switch over a value of type `τ` obey the rules. -/
def ArmsWellTyped (ret : Ty) (loop : Bool) (τ : Ty) (Γ : TyEnv) : List SwitchArm → Prop
  | [] => True
  | .mk _ test body _ :: rest =>
    (∀ e, test = some e → e.HasTy Γ τ) ∧ StmtsWellTyped ret loop true ([] :: Γ) body ∧
      ArmsWellTyped ret loop τ Γ rest

end

/-- The names of parameters, with their types. -/
def paramTypes (params : List Param) : List (String × Ty) := params.map fun p => (p.name, p.ty)

theorem map_fst_paramTypes (params : List Param) :
    (paramTypes params).map Prod.fst = params.map Param.name := by
  simp [paramTypes, Function.comp_def]

/-- The parameters have different names, and the body obeys the rules. -/
structure FunctionDecl.WellTyped (f : FunctionDecl) : Prop where
  nodup : (f.params.map Param.name).Nodup
  body : StmtsWellTyped f.ret false false [paramTypes f.params] f.body

/-! ## Values keep their types -/

theorem Expr.HasTy.type? {Γ : TyEnv} {e : Expr} {τ : Ty} (h : e.HasTy Γ τ) : e.type? = some τ := by
  cases h <;> assumption

theorem Expr.HasTy.isWord {Γ : TyEnv} {e : Expr} {τ : Ty} (h : e.HasTy Γ τ) : τ.isWord := by
  induction h with
  | @literal n v τ _ hv =>
      cases v with
      | bool b => rw [show τ = .bool from hv]; rfl
      | int v =>
          rcases hv with rfl | ⟨rfl, _⟩
          · rfl
          · rfl
      | _ => cases hv
  | ident _ _ hτ => exact hτ
  | unary _ _ _ ih => exact ih
  | logical _ _ _ _ _ _ => rfl
  | binary _ _ _ _ _ ih _ =>
      unfold BinaryOp.resultTy
      split
      · rfl
      · exact ih
  | ternary _ _ _ _ _ ih _ => exact ih

namespace Constant

theorem compared?_ty {op : BinaryOp} {order : Ordering} {c : Constant}
    (h : compared? op order = some c) (τ : Ty) : c.ty = op.resultTy τ := by
  cases op with
  | equal | notEqual | less | lessEqual | greater | greaterEqual =>
      cases h
      rfl
  | _ => cases h

theorem intBinary?_ty {op : BinaryOp} {a b : Int64} {c : Constant}
    (h : intBinary? op a b = some c) : c.ty = op.resultTy .int := by
  cases op with
  | equal | notEqual | less | lessEqual | greater | greaterEqual | and | or =>
      simp only [intBinary?] at h
      exact compared?_ty h .int
  | add | sub | mul =>
      simp only [intBinary?] at h
      obtain ⟨v, _, rfl⟩ := Option.map_eq_some_iff.1 h
      rfl
  | div | mod =>
      simp only [intBinary?] at h
      split at h
      · cases h
      · obtain ⟨v, _, rfl⟩ := Option.map_eq_some_iff.1 h
        rfl
  | bitAnd | bitOr | bitXor =>
      cases h
      rfl
  | shiftLeft | shiftRight =>
      simp only [intBinary?] at h
      split at h
      · cases h
        rfl
      · cases h

theorem byteBinary?_ty {op : BinaryOp} {a b : UInt8} {c : Constant}
    (h : byteBinary? op a b = some c) : c.ty = op.resultTy .byte := by
  cases op with
  | equal | notEqual | less | lessEqual | greater | greaterEqual | and | or =>
      simp only [byteBinary?] at h
      exact compared?_ty h .byte
  | add | sub | mul =>
      simp only [byteBinary?] at h
      obtain ⟨v, _, rfl⟩ := Option.map_eq_some_iff.1 h
      rfl
  | div | mod =>
      simp only [byteBinary?] at h
      split at h
      · cases h
      · cases h
        rfl
  | bitAnd | bitOr | bitXor =>
      cases h
      rfl
  | shiftLeft | shiftRight =>
      simp only [byteBinary?] at h
      split at h
      · cases h
        rfl
      · cases h

theorem boolBinary?_ty {op : BinaryOp} {a b : Bool} {c : Constant}
    (h : boolBinary? op a b = some c) : c.ty = .bool := by
  cases op with
  | equal | notEqual | and | or =>
      cases h
      rfl
  | _ => cases h

/-- Two constants of a word type are of one kind. -/
theorem cases_of_isWord {a b : Constant} {τ : Ty} (hτ : τ.isWord) (ha : a.ty = τ) (hb : b.ty = τ) :
    (∃ x y, a = .int x ∧ b = .int y ∧ τ = .int) ∨ (∃ x y, a = .byte x ∧ b = .byte y ∧ τ = .byte) ∨
      ∃ x y, a = .bool x ∧ b = .bool y ∧ τ = .bool := by
  subst ha
  cases a with
  | int x =>
      cases b with
      | int y => exact .inl ⟨x, y, rfl, rfl, rfl⟩
      | _ => cases hb
  | byte x =>
      cases b with
      | byte y => exact .inr (.inl ⟨x, y, rfl, rfl, rfl⟩)
      | _ => cases hb
  | bool x =>
      cases b with
      | bool y => exact .inr (.inr ⟨x, y, rfl, rfl, rfl⟩)
      | _ => cases hb
  | _ => cases hτ

theorem eq_bool_of_ty {a : Constant} (h : a.ty = .bool) : ∃ b, a = .bool b := by
  cases a with
  | bool b => exact ⟨b, rfl⟩
  | _ => cases h

end Constant

/-- The result of an operator has the type that the rules give it. -/
theorem BinaryOp.apply_ty {op : BinaryOp} {a b c : Constant} {τ : Ty} (hτ : τ.isWord)
    (ha : a.ty = τ) (hb : b.ty = τ) (h : op.apply a b = .ok c) : c.ty = op.resultTy τ := by
  unfold BinaryOp.apply at h
  split at h
  case h_1 => cases h
  case h_2 =>
    unfold Constant.compute at h
    split at h
    case h_1 d hd =>
      cases h
      rcases Constant.cases_of_isWord hτ ha hb with ⟨x, y, rfl, rfl, rfl⟩ | ⟨x, y, rfl, rfl, rfl⟩ |
        ⟨x, y, rfl, rfl, rfl⟩
      · exact Constant.intBinary?_ty hd
      · exact Constant.byteBinary?_ty hd
      · rw [Constant.boolBinary?_ty hd]
        unfold BinaryOp.resultTy
        split <;> rfl
    case h_2 x y hnone =>
      subst ha
      unfold Constant.divided at h
      split at h
      · cases h
      · split at h
        · cases h
        · cases h
          rfl
      · cases h
    case h_3 => cases h

theorem UnaryOp.apply_ty {op : UnaryOp} {a c : Constant} (h : op.apply a = .ok c) :
    c.ty = a.ty := by
  unfold UnaryOp.apply at h
  split at h
  case h_2 => cases h
  case h_1 d hd =>
    cases h
    unfold Constant.unary? at hd
    split at hd
    · obtain ⟨v, _, rfl⟩ := Option.map_eq_some_iff.1 hd
      rfl
    · obtain ⟨v, _, rfl⟩ := Option.map_eq_some_iff.1 hd
      rfl
    · cases hd
      rfl
    · cases hd
      rfl
    · cases hd
      rfl
    · cases hd
      rfl
    · cases hd

theorem BinaryOp.choose_ty {op : BinaryOp} {a c : Constant} {right : Except Failure Constant}
    {forced : Bool} (ha : a.ty = .bool) (hright : ∀ b, right = .ok b → b.ty = .bool)
    (h : op.choose a right forced = .ok c) : c.ty = .bool := by
  unfold BinaryOp.choose at h
  split at h
  case h_2 => cases h
  case h_1 v =>
    split at h
    · exact hright c h
    · split at h
      · obtain ⟨_, _, h⟩ := Ir.bind_eq_ok.1 h
        cases h
        exact ha
      · cases h
        exact ha

/-- A literal has a value of its type. -/
theorem Literal.HasTy.value {v : Literal} {τ : Ty} (h : v.HasTy τ) :
    ∃ c, v.value (some τ) = .ok c ∧ c.ty = τ := by
  cases v with
  | bool b => exact ⟨.bool b, rfl, (show τ = .bool from h).symm⟩
  | int v =>
      rcases h with rfl | ⟨rfl, hfit⟩
      · exact ⟨.int v, rfl, rfl⟩
      · obtain ⟨b, hb⟩ := Option.isSome_iff_exists.1 hfit
        refine ⟨.byte b, ?_, rfl⟩
        simp [Literal.value, hb]
  | _ => cases h

/-- The values of the variables have their types. -/
def Env.HasTypes (Γ : TyEnv) (ρ : Env) : Prop :=
  Frames.Rel (fun τ w => ∀ v, w = some v → v.ty = τ) Γ ρ

theorem Env.HasTypes.read {Γ : TyEnv} {ρ : Env} (h : Env.HasTypes Γ ρ) {x : String} {τ : Ty}
    {v : Constant} (hx : Frames.find? Γ x = some τ) (hv : ρ.read x = .ok v) : v.ty = τ := by
  obtain ⟨w, hw, hty⟩ := Frames.Rel.exists_of_find? h hx
  unfold Env.read at hv
  rw [hw] at hv
  cases w with
  | none => cases hv
  | some u =>
      cases hv
      exact hty v rfl

/-- The value of an expression has the type of the expression. -/
theorem Expr.HasTy.eval {Γ : TyEnv} {e : Expr} {τ : Ty} (h : e.HasTy Γ τ) {ρ : Env}
    (hρ : Env.HasTypes Γ ρ) {eager : Bool} {v : Constant} (hv : e.eval eager ρ = .ok v) :
    v.ty = τ := by
  induction h generalizing v with
  | literal hn hl =>
      rw [Expr.eval, hn] at hv
      obtain ⟨c, hc, hty⟩ := hl.value
      rw [hc] at hv
      cases hv
      exact hty
  | ident hn hx _ =>
      rw [Expr.eval] at hv
      exact hρ.read hx hv
  | unary hn _ hop ih =>
      rw [Expr.eval] at hv
      obtain ⟨a, ha, hv⟩ := Ir.bind_eq_ok.1 hv
      rw [UnaryOp.apply_ty hv, ih ha]
  | logical hn hop _ _ ihl ihr =>
      rw [Expr.eval] at hv
      obtain ⟨a, ha, hv⟩ := Ir.bind_eq_ok.1 hv
      rw [if_pos hop] at hv
      exact BinaryOp.choose_ty (ihl ha) (fun b hb => ihr hb) hv
  | binary hn hop hl _ happ ihl ihr =>
      rw [Expr.eval] at hv
      obtain ⟨a, ha, hv⟩ := Ir.bind_eq_ok.1 hv
      rw [if_neg (by simp [hop])] at hv
      obtain ⟨b, hb, hv⟩ := Ir.bind_eq_ok.1 hv
      exact BinaryOp.apply_ty hl.isWord (ihl ha) (ihr hb) hv
  | ternary hn _ _ _ _ iha ihb =>
      rw [Expr.eval] at hv
      obtain ⟨c, _, hv⟩ := Ir.bind_eq_ok.1 hv
      split at hv
      · exact iha hv
      · exact ihb hv
      · cases hv

theorem Expr.FitsVar.assigned {Γ : TyEnv} {e : Expr} {τ : Ty} {op : Option BinaryOp}
    (h : e.FitsVar Γ τ op) (hτ : τ.isWord) {x : String} (hx : Frames.find? Γ x = some τ) {ρ : Env}
    (hρ : Env.HasTypes Γ ρ) {eager : Bool} {v : Constant} (hv : e.assigned eager ρ x op = .ok v) :
    v.ty = τ := by
  cases op with
  | none => exact Expr.HasTy.eval h hρ hv
  | some op =>
      obtain ⟨old, hold, hv⟩ := Ir.bind_eq_ok.1 hv
      have hty := hρ.read hx hold
      simp only [Expr.FitsVar] at h
      cases hop : op.isLogical with
      | true =>
          rw [hop, if_pos rfl] at h hv
          obtain ⟨rfl, he⟩ := h
          exact BinaryOp.choose_ty hty (fun b hb => he.eval hρ hb) hv
      | false =>
          rw [hop, if_neg Bool.false_ne_true] at h hv
          obtain ⟨he, happ, hres⟩ := h
          obtain ⟨b, hb, hv⟩ := Ir.bind_eq_ok.1 hv
          rw [← hres]
          exact BinaryOp.apply_ty hτ hty (he.eval hρ hb) hv

end ProtoScript
