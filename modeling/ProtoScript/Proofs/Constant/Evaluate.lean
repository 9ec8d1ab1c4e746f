import ProtoScript.Constant.Evaluate
import ProtoScript.Proofs.Optimize.Fold

set_option autoImplicit false

/-!
# Compile-time evaluation is direct evaluation

The compiler evaluates an expression by turning it into instructions, propagating constants through them
and looking up what is left for the result. That is the same as computing the value part by part
(`Expr.evaluate?_eq_some_iff`). Every instruction defines a fresh temporary, so what is known of a temporary
once stays known (`ConstCode.Computes`), and what is known of the last one is the value.
-/

namespace ProtoScript

/-! ## Values part by part -/

namespace Expr

/-- The expression consists of literals, of bound names and bound members of names, and of operators,
selections and casts above them. -/
def isConstant (env : ConstEnv) : Expr → Bool
  | .literal .. => true
  | .ident _ name => (env.get? name).isSome
  | .member _ (.ident _ owner) name => (env.get? (qualified owner name)).isSome
  | .unary _ _ e | .cast _ e _ => e.isConstant env
  | .binary _ _ l r => l.isConstant env && r.isConstant env
  | .ternary _ c t e => c.isConstant env && t.isConstant env && e.isConstant env
  | _ => false

/-- The value of an expression from the values of its parts. Both operands of `and` and `or` need one, and of
the two sides of a selection the chosen one. -/
def constantValue? (env : ConstEnv) : Expr → Option Constant
  | .literal _ v => some v.toConstant
  | .ident _ name => env.get? name
  | .member _ (.ident _ owner) name => env.get? (qualified owner name)
  | .unary _ op e => (e.constantValue? env).bind (Constant.unary? op)
  | .binary _ op l r => do
    let a ← l.constantValue? env
    let b ← r.constantValue? env
    Constant.binary? op a b
  | .ternary _ c t e => do
    let cond ← (← c.constantValue? env).toBool?
    if cond then t.constantValue? env else e.constantValue? env
  | .cast _ e target => (e.constantValue? env).bind (Constant.cast? · target)
  | _ => none

/-- There are instructions for an expression if its parts are constants. -/
theorem isSome_constCode? (env : ConstEnv) (e : Expr) (next : Ir.Temp) (code : List Ir.Instr) :
    (e.constCode? env next code).isSome = e.isConstant env := by
  fun_induction e.constCode? env next code with
  | case1 => rfl
  | case2 => rw [Option.isSome_map, isConstant]
  | case3 => rw [Option.isSome_map, isConstant]
  | case4 note op e next code ih =>
      rw [isConstant, ← ih]
      cases e.constCode? env next code <;> rfl
  | case5 note op l r next code ihl ihr =>
      rw [isConstant, ← ihl]
      cases hl : l.constCode? env next code with
      | none => rfl
      | some a =>
          rw [← ihr a]
          simp only [Option.bind_eq_bind, Option.bind_some, Option.isSome_some, Bool.true_and]
          cases r.constCode? env a.next a.code <;> rfl
  | case6 note c t e next code ihc iht ihe =>
      rw [isConstant, ← ihc]
      cases hc : c.constCode? env next code with
      | none => rfl
      | some a =>
          rw [← iht a]
          simp only [Option.bind_eq_bind, Option.bind_some, Option.isSome_some, Bool.true_and]
          cases ht : t.constCode? env a.next a.code with
          | none => rfl
          | some b =>
              rw [← ihe b]
              simp only [Option.bind_some, Option.isSome_some, Bool.true_and]
              cases e.constCode? env b.next b.code <;> rfl
  | case7 note e target next code ih =>
      rw [isConstant, ← ih]
      cases e.constCode? env next code <;> rfl
  | case8 e next code hliteral hident hmember hunary hbinary hternary hcast =>
      cases e with
      | literal note v => exact (hliteral note v rfl).elim
      | ident note name => exact (hident note name rfl).elim
      | unary note op e => exact (hunary note op e rfl).elim
      | binary note op l r => exact (hbinary note op l r rfl).elim
      | ternary note c t e => exact (hternary note c t e rfl).elim
      | cast note e target => exact (hcast note e target rfl).elim
      | member note object name =>
          cases object with
          | ident n owner => exact (hmember note n owner name rfl).elim
          | _ => rfl
      | _ => rfl

end Expr

namespace Ir

/-! ## What propagation knows -/

/-- What is known behind instructions, of which the last comes first. -/
def knownAfter (code : List Instr) : Known := code.foldr (fun i known => (i.fold known).1) []

/-- What propagation leaves of instructions, of which the last comes first. -/
def leftOf (code : List Instr) : List Instr := (foldInstrs [] code.reverse).1

theorem foldInstrs_append (known : Known) (a b : List Instr) :
    (foldInstrs known (a ++ b)).1 =
      (foldInstrs known a).1 ++ (foldInstrs (a.foldl (fun known i => (i.fold known).1) known) b).1 := by
  induction a generalizing known with
  | nil => rfl
  | cons i a ih =>
      simp only [List.cons_append, foldInstrs, List.foldl_cons, ih, List.append_assoc]

theorem leftOf_cons (i : Instr) (code : List Instr) :
    leftOf (i :: code) = leftOf code ++ (i.fold (knownAfter code)).2.1.toList := by
  rw [leftOf, List.reverse_cons, foldInstrs_append, List.foldl_reverse]
  simp [leftOf, knownAfter, foldInstrs]

/-- An instruction that defines a new temporary leaves a constant for it just if the constant is known. -/
theorem findSome?_fold {known : Known} {i : Instr} {t : Temp} (h : i.dest? = some t → known.get? t = none) :
    (known.get? t).or ((i.fold known).2.1.toList.findSome? (Instr.constantFor? t)) =
      (i.fold known).1.get? t := by
  have hconst (d : Temp) (v : Constant) (hd : i.dest? = some d) :
      (known.get? t).or ([Instr.const d v].findSome? (Instr.constantFor? t)) =
        Known.get? ((d, v) :: known) t := by
    rw [Known.get?_cons]
    by_cases htd : t = d
    · subst htd
      simp [h hd, Instr.constantFor?]
    · simp [Instr.constantFor?, htd, Ne.symm htd]
  unfold Instr.fold
  split
  case h_1 d v => exact hconst d v rfl
  case h_2 d c a b =>
    split
    case h_1 => simp [Instr.constantFor?]
    case h_2 =>
      simp only
      split
      case h_1 v hv => exact hconst d v rfl
      case h_2 => simp [Instr.constantFor?]
  case h_3 => split <;> simp [Instr.constantFor?]
  case h_4 hnot _ _ =>
    split
    case h_1 d v hv => exact hconst d v (dest?_of_constantResult? hv)
    case h_2 =>
      have hnone : i.constantFor? t = none := by
        cases i with
        | const d v => exact absurd rfl (hnot d v)
        | _ => rfl
      simp [hnone]

/-- Nothing is known of a temporary and those after it, and the constants left for temporaries are the
known ones. -/
structure Settled (next : Nat) (code : List Instr) : Prop where
  fresh : ∀ t, next ≤ t → (knownAfter code).get? t = none
  stored : ∀ t, (leftOf code).findSome? (Instr.constantFor? t) = (knownAfter code).get? t

theorem Settled.nil : Settled 0 [] where
  fresh _ _ := rfl
  stored _ := rfl

theorem Settled.cons {next : Nat} {code : List Instr} (h : Settled next code) {i : Instr}
    (hi : i.dest? = some next) : Settled (next + 1) (i :: code) where
  fresh t ht := by
    have hne : i.dest? ≠ some t := by
      rw [hi]
      rintro ⟨⟩
      omega
    show (i.fold (knownAfter code)).1.get? t = none
    rw [get?_fold_of_ne hne]
    exact h.fresh t (by omega)
  stored t := by
    have hfresh : i.dest? = some t → (knownAfter code).get? t = none := by
      rw [hi]
      rintro ⟨⟩
      exact h.fresh next (Nat.le_refl next)
    rw [leftOf_cons, List.findSome?_append, h.stored, findSome?_fold hfresh]
    rfl

/-! ## What an instruction adds -/

variable {known : Known} {d : Temp}

theorem get?_fold_const (v : Constant) : ((Instr.const d v).fold known).1.get? d = some v := by
  simp [Instr.fold, Known.get?_cons]

/-- The result of an operation is known if it is one of known operands. -/
theorem get?_fold_operation {i : Instr} (hi : i.dest? = some d) (hd : known.get? d = none)
    (hfold : (i.fold known).1 = ((i.constantResult? known).elim known (· :: known))) :
    (i.fold known).1.get? d = (i.constantResult? known).map Prod.snd := by
  rw [hfold]
  cases hresult : i.constantResult? known with
  | none => exact hd
  | some r =>
      have hr : r.1 = d := by
        have hdest := dest?_of_constantResult? (d := r.1) (v := r.2) hresult
        exact Option.some.inj (hdest.symm.trans hi)
      show Known.get? ((r.1, r.2) :: known) d = some r.2
      rw [Known.get?_cons, if_pos hr.symm]

theorem get?_fold_unary (hd : known.get? d = none) (op : UnaryOp) (t : Temp) :
    ((Instr.unary d op t).fold known).1.get? d = (known.get? t).bind (Constant.unary? op) := by
  rw [get?_fold_operation rfl hd]
  · cases h : (known.get? t).bind (Constant.unary? op) <;> simp [Instr.constantResult?, h]
  · simp only [Instr.fold]
    cases (Instr.unary d op t).constantResult? known <;> rfl

theorem get?_fold_binary (hd : known.get? d = none) (op : BinaryOp) (l r : Temp) :
    ((Instr.binary d op l r).fold known).1.get? d =
      (known.get? l).bind fun a => (known.get? r).bind (Constant.binary? op a) := by
  rw [get?_fold_operation rfl hd]
  · cases hl : known.get? l with
    | none => simp [Instr.constantResult?, hl]
    | some a =>
        cases hr : known.get? r with
        | none => simp [Instr.constantResult?, hl, hr]
        | some b => cases hab : Constant.binary? op a b <;> simp [Instr.constantResult?, hl, hr, hab]
  · simp only [Instr.fold]
    cases (Instr.binary d op l r).constantResult? known <;> rfl

theorem get?_fold_cast (hd : known.get? d = none) (t : Temp) (target : Ty) :
    ((Instr.cast d t target).fold known).1.get? d = (known.get? t).bind (Constant.cast? · target) := by
  rw [get?_fold_operation rfl hd]
  · cases h : (known.get? t).bind (Constant.cast? · target) <;> simp [Instr.constantResult?, h]
  · simp only [Instr.fold]
    cases (Instr.cast d t target).constantResult? known <;> rfl

/-- A selection by a known condition takes what is known of the chosen side; the other side does not matter. -/
theorem get?_fold_select (hd : known.get? d = none) (c a b : Temp) :
    ((Instr.select d c a b).fold known).1.get? d =
      ((known.get? c).bind Constant.toBool?).bind fun cond => known.get? (if cond then a else b) := by
  simp only [Instr.fold]
  cases (known.get? c).bind Constant.toBool? with
  | none => exact hd
  | some cond =>
      simp only [Option.bind_some]
      cases known.get? (if cond then a else b) with
      | none => exact hd
      | some v => simp [Known.get?_cons]

end Ir

namespace ConstCode

open Ir

/-! ## Code that computes a value -/

/-- The code goes on from other code and computes a value in its result, if there is one. -/
structure Computes (c : ConstCode) (next : Nat) (code : List Instr) (value : Option Constant) : Prop where
  le : next ≤ c.next
  lt : c.result < c.next
  settled : Settled c.next c.code
  keeps : ∀ t : Nat, t < next → (knownAfter c.code).get? t = (knownAfter code).get? t
  value : (knownAfter c.code).get? c.result = value

/-- One more instruction, for a fresh temporary. -/
theorem computes_push {next : Nat} {code : List Instr} (h : Settled next code) (make : Temp → Instr)
    (hmake : (make next).dest? = some next) :
    (push next code make).Computes next code (((make next).fold (knownAfter code)).1.get? next) where
  le := Nat.le_succ next
  lt := Nat.lt_succ_self next
  settled := h.cons hmake
  keeps t ht := by
    refine get?_fold_of_ne ?_
    rw [hmake]
    rintro ⟨⟩
    exact Nat.lt_irrefl _ ht
  value := rfl

/-- Code in two parts: what the first part computes stays known. -/
theorem Computes.trans {a b : ConstCode} {next : Nat} {code : List Instr} {v w : Option Constant}
    (ha : a.Computes next code v) (hb : b.Computes a.next a.code w) : b.Computes next code w where
  le := Nat.le_trans ha.le hb.le
  lt := hb.lt
  settled := hb.settled
  keeps t ht := by
    rw [hb.keeps t (Nat.lt_of_lt_of_le ht ha.le), ha.keeps t ht]
  value := hb.value

theorem Computes.value_after {a b : ConstCode} {next : Nat} {code : List Instr} {v w : Option Constant}
    (ha : a.Computes next code v) (hb : b.Computes a.next a.code w) :
    (knownAfter b.code).get? a.result = v := by
  rw [hb.keeps _ ha.lt, ha.value]

end ConstCode

namespace Expr

open Ir

/-- The instructions of an expression compute its value. The induction is on the expression, and the code
of each part goes on from that of the part before it. -/
theorem computes_of_constCode? {env : ConstEnv} {e : Expr} {next : Nat} {code : List Instr}
    {c : ConstCode} (hsettled : Settled next code) (h : e.constCode? env next code = some c) :
    c.Computes next code (e.constantValue? env) := by
  fun_induction e.constCode? env next code generalizing c with
  | case1 note v next code =>
      cases h
      rw [constantValue?]
      simpa only [get?_fold_const] using ConstCode.computes_push hsettled (.const · v.toConstant) rfl
  | case2 note name next code =>
      obtain ⟨v, hv, rfl⟩ := Option.map_eq_some_iff.1 h
      rw [constantValue?, hv]
      simpa only [get?_fold_const] using ConstCode.computes_push hsettled (.const · v) rfl
  | case3 note _ owner name next code =>
      obtain ⟨v, hv, rfl⟩ := Option.map_eq_some_iff.1 h
      rw [constantValue?, hv]
      simpa only [get?_fold_const] using ConstCode.computes_push hsettled (.const · v) rfl
  | case4 note op e next code ih =>
      obtain ⟨a, ha, h⟩ := Option.bind_eq_some_iff.1 h
      cases h
      have hcomp := ih hsettled ha
      have hpush := ConstCode.computes_push hcomp.settled (.unary · op a.result) rfl
      rw [get?_fold_unary (hcomp.settled.fresh _ (Nat.le_refl _)), hcomp.value] at hpush
      exact hcomp.trans hpush
  | case5 note op l r next code ihl ihr =>
      obtain ⟨a, ha, h⟩ := Option.bind_eq_some_iff.1 h
      obtain ⟨b, hb, h⟩ := Option.bind_eq_some_iff.1 h
      cases h
      have hleft := ihl hsettled ha
      have hright := ihr a hleft.settled hb
      have hpush := ConstCode.computes_push hright.settled (.binary · op a.result b.result) rfl
      rw [get?_fold_binary (hright.settled.fresh _ (Nat.le_refl _)), hleft.value_after hright,
        hright.value] at hpush
      exact (hleft.trans hright).trans hpush
  | case6 note p t e next code ihp iht ihe =>
      obtain ⟨a, ha, h⟩ := Option.bind_eq_some_iff.1 h
      obtain ⟨b, hb, h⟩ := Option.bind_eq_some_iff.1 h
      obtain ⟨d, hd, h⟩ := Option.bind_eq_some_iff.1 h
      cases h
      have hcond := ihp hsettled ha
      have hthen := iht a hcond.settled hb
      have helse := ihe b hthen.settled hd
      have hpush := ConstCode.computes_push helse.settled (.select · a.result b.result d.result) rfl
      have hvalue : (knownAfter d.code).get? a.result = p.constantValue? env :=
        hcond.value_after (hthen.trans helse)
      have hsides (cond : Bool) : (knownAfter d.code).get? (if cond then b.result else d.result) =
          if cond then t.constantValue? env else e.constantValue? env := by
        cases cond
        · exact helse.value
        · exact hthen.value_after helse
      rw [get?_fold_select (helse.settled.fresh _ (Nat.le_refl _)), hvalue] at hpush
      simp only [hsides] at hpush
      have hall := ((hcond.trans hthen).trans helse).trans hpush
      rw [Option.bind_assoc] at hall
      exact hall
  | case7 note e target next code ih =>
      obtain ⟨a, ha, h⟩ := Option.bind_eq_some_iff.1 h
      cases h
      have hcomp := ih hsettled ha
      have hpush := ConstCode.computes_push hcomp.settled (.cast · a.result target) rfl
      rw [get?_fold_cast (hcomp.settled.fresh _ (Nat.le_refl _)), hcomp.value] at hpush
      exact hcomp.trans hpush
  | case8 => cases h

/-- Evaluating an expression through instructions gives its value part by part, and nothing where a part
is neither a constant nor an operator. -/
theorem evaluate?_eq_some_iff (env : ConstEnv) (e : Expr) (c : Constant) :
    e.evaluate? env = some c ↔ e.isConstant env ∧ e.constantValue? env = some c := by
  rw [← isSome_constCode? env e 0 [], evaluate?]
  cases h : e.constCode? env 0 [] with
  | none => simp
  | some code =>
      have hcomp := computes_of_constCode? .nil h
      have hstored := (hcomp.settled.stored code.result).trans hcomp.value
      simp only [Option.bind_eq_bind, Option.bind_some, Option.isSome_some, true_and]
      rw [← hstored]
      rfl

theorem evaluate?_literal (env : ConstEnv) (note : Note) (value : Literal) :
    (Expr.literal note value).evaluate? env = some value.toConstant :=
  (evaluate?_eq_some_iff _ _ _).2 ⟨rfl, rfl⟩

theorem evaluate?_ident {env : ConstEnv} {name : String} {v : Constant} (h : env.get? name = some v) (note : Note) :
    (Expr.ident note name).evaluate? env = some v := by
  refine (evaluate?_eq_some_iff _ _ _).2 ⟨?_, h⟩
  rw [isConstant, h]
  rfl

theorem evaluate?_member {env : ConstEnv} {owner name : String} {v : Constant}
    (h : env.get? (qualified owner name) = some v) (note note' : Note) :
    (Expr.member note (.ident note' owner) name).evaluate? env = some v := by
  refine (evaluate?_eq_some_iff _ _ _).2 ⟨?_, h⟩
  rw [isConstant, h]
  rfl

/-- The side of a selection that is not chosen needs no value, but its parts have to be constants. -/
example (n : Note) :
    let one := Expr.literal n (.int 1)
    let quotient := Expr.binary n .div one (.literal n (.int 0))
    (Expr.ternary n (.literal n (.bool true)) one quotient).evaluate? [] = some (.int 1) ∧
      (Expr.ternary n (.literal n (.bool true)) one (.ident n "x")).evaluate? [] = none := ⟨rfl, rfl⟩

end Expr
end ProtoScript
