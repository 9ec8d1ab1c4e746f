import ProtoScript.Proofs.Analysis.Leaving
import ProtoScript.Proofs.Lowering.Lenient
import ProtoScript.Proofs.Machine.Bounds

set_option autoImplicit false

/-!
# What the checker makes sure of at run time

A function with a result returns one, and elements are written in bounds, in every run of what a function of a
program without problems is lowered to. Either holds but for the places that the checker takes for safe although
they are not.
-/

namespace ProtoScript.Lowering

/-!
## Functions with a result return one

In a program without problems a function with a result surely leaves by its last statement, as the checker
sees it. Where that is a switch it need not: an arm may break, and the last arm may fall through. If the last
statement is sealed, control comes neither to the end of the lowered function nor to a return without a
value (`returns_of_isClean`).
-/

open Ir

/-- Only a thrown exception stops control, and the function does not return without a value. -/
def returning : Law Unit where
  start := ()
  after _ _ _ := True
  caught _ _ := True
  reads _ _ := True
  writes _ _ _ _ := True
  stops code := ∃ t, code.getLast? = some (.throw t)
  returnsNothing := False
  reads_stored _ := trivial
  stops_throw := ⟨_, List.getLast?_concat⟩

theorem lenient_returning {c : Context} {ni : String → Lower Temp} {proto? : Option String}
    {f : FunctionDecl} (hret : f.ret.isVoid = false) :
    Lenient returning c ni proto? f fun _ _ _ => True where
  reads _ _ := trivial
  writes _ := trivial
  checked _ := trivial
  stays _ _ _ _ := trivial
  maps _ _ := trivial
  void hvoid := by
    rw [hvoid] at hret
    cases hret

section

variable {p : Program} {library : Library} {hierarchy : Hierarchy} {depth : Nat} {proto? : Option String}
  {f : FunctionDecl} {F : Ir.Function}

/-- Control never comes behind the body of a function with a result, if its last statement is sealed. -/
theorem areFinal_body (hclean : (p.analyze library).isClean)
    (hf : (proto?, f) ∈ (p.analyze library).program.bodies) (hret : f.ret.isVoid = false)
    (hsealed : lastSealed f.body) : areFinal f.body := by
  obtain ⟨f₀, _, s, s', hpasses, _⟩ := Program.passes_body_of_mem hclean hf
  rw [areFinal, Bool.and_eq_true]
  exact ⟨Analysis.passes_function_leaves hpasses hret, hsealed⟩

/-- In a program without problems, in every lowered function with a result whose last statement is sealed:
no block that control can come to returns without a value, and one that control cannot leave ends in a thrown
exception. -/
theorem returns_of_isClean (hclean : (p.analyze library).isClean)
    (hf : (proto?, f) ∈ (p.analyze library).program.bodies)
    (hF : lowerFunction hierarchy (p.analyze library).program.prototypes depth proto? f = .ok F)
    (hret : F.ret.isVoid = false) (hsealed : lastSealed f.body) :
    ∀ l ∈ F.reachable, ∀ b, F.block? l = some b → b.terminator ≠ .retVoid ∧
      (b.terminator = .unreachable → ∃ t, b.instrs.getLast? = some (.throw t)) := by
  obtain ⟨_, _, _, hsame⟩ := runs_lowerBody hF
  rw [hsame] at hret
  have hfinal := areFinal_body hclean hf hret hsealed
  obtain ⟨claims, hkept⟩ := kept_of_lenient hclean hf hF (lenient_returning hret) fun _ hopen => by
    rw [hfinal] at hopen
    cases hopen
  intro l hl b hb
  have hends := (hkept.reachable ⟨fun _ => trivial, trivial⟩ l hl b hb).ends
  constructor
  · intro ht
    rw [ht] at hends
    exact hends
  · intro ht
    rw [ht] at hends
    exact hends

end

/-- Some numbers have a grade, and for others the problem is thrown. -/
def grade : FunctionDecl where
  name := "grade"
  params := [{ name := "n", ty := .int }, { name := "problem", ty := .named "Exception" }]
  ret := .int
  body :=
    [.switch .origin (.ident {} "n")
      [.mk .origin (some (.literal {} (.int 1))) [.ret .origin (some (.literal {} (.int 10)))] false,
        .mk .origin (some (.literal {} (.int 2))) [] true,
        .mk .origin none [.throw .origin (.ident {} "problem")] false]]

/-- What checking makes of `grade`. -/
def gradeChecked : FunctionDecl where
  name := "grade"
  params := [{ name := "n", ty := .int }, { name := "problem", ty := .named "Exception" }]
  ret := .int
  body :=
    [.switch .origin (.ident { type? := some .int } "n")
      [.mk .origin (some (.literal { type? := some .int } (.int 1)))
          [.ret .origin (some (.literal { type? := some .int } (.int 10)))] false,
        .mk .origin (some (.literal { type? := some .int } (.int 2))) [] true,
        .mk .origin none [.throw .origin (.ident { type? := some (.named "Exception") } "problem")] false]]

/-- What `grade` is lowered to. -/
def gradeCode : Ir.Function where
  name := "grade"
  params := [⟨"n", .int⟩, ⟨"problem", .named "Exception"⟩]
  ret := .int
  blocks :=
    [⟨"entry", [.loadVar 0 "n", .const 1 (.int 1), .binary 2 .equal 0 1],
        .branch 2 "case_body2" "case_test5"⟩,
      ⟨"case_test5", [.const 3 (.int 2), .binary 4 .equal 0 3], .branch 4 "case_body3" "case_body4"⟩,
      ⟨"case_body2", [.const 5 (.int 10)], .ret 5⟩,
      ⟨"case_body3", [], .jump "case_body4"⟩,
      ⟨"case_body4", [.loadVar 6 "problem", .throw 6], .unreachable⟩,
      ⟨"switch_done1", [], .unreachable⟩]

theorem lowerFunction_grade : lowerFunction ⟨[]⟩ [] 1 none gradeChecked = .ok gradeCode := by
  cbv

/-- The block behind the switch is empty and ends nowhere, but control cannot come to it. -/
theorem returns_grade :
    let p : Program := ⟨"grade.ps", [], [.function grade]⟩
    (p.analyze ⟨[]⟩).isClean ∧ (none, gradeChecked) ∈ (p.analyze ⟨[]⟩).program.bodies ∧
      lowerFunction ⟨[]⟩ (p.analyze ⟨[]⟩).program.prototypes 1 none gradeChecked = .ok gradeCode ∧
      gradeCode.ret.isVoid = false ∧ lastSealed gradeChecked.body ∧
      gradeCode.reachable = ["case_body4", "case_body3", "case_test5", "case_body2", "entry"] ∧
      ∀ l ∈ gradeCode.reachable, ∀ b, gradeCode.block? l = some b → b.terminator ≠ .retVoid ∧
        (b.terminator = .unreachable → ∃ t, b.instrs.getLast? = some (.throw t)) := by
  intro p
  have hclean : (p.analyze ⟨[]⟩).isClean := by decide +kernel
  have hbodies : (p.analyze ⟨[]⟩).program.bodies = [(none, gradeChecked)] := by rfl
  have hmem : (none, gradeChecked) ∈ (p.analyze ⟨[]⟩).program.bodies := by
    rw [hbodies]
    exact List.mem_singleton_self _
  have hcode : lowerFunction ⟨[]⟩ (p.analyze ⟨[]⟩).program.prototypes 1 none gradeChecked =
      .ok gradeCode := by
    rw [show (p.analyze ⟨[]⟩).program.prototypes = [] from rfl]
    exact lowerFunction_grade
  have hsealed : lastSealed gradeChecked.body := by decide +kernel
  exact ⟨hclean, hmem, hcode, rfl, hsealed, by decide +kernel,
    returns_of_isClean hclean hmem hcode rfl hsealed⟩

/-!
## Elements are written in bounds

An assignment to an element checks the bounds of the container before its right side is computed, and writes
behind that. So in every run of a lowered function an element is written in bounds, unless since the check an
instruction has been run that may change how many items a container has (`inBounds_of_isClean`). A right side
that takes an item from the list, or calls a function that does, is such a case.
-/

open Ir

variable {R W : Type}

/-- An element of a container that is no map is written at an index in bounds, unless what has been run since
the check of the bounds may have changed them. -/
def guarded (P : Platform R W) (call : String → List (Value R) → W → Ending R W) (F : Ir.Function)
    (args : List (Value R)) (w : W) (isMap : Temp → Temp → Prop) :
    Law (State R (Frame R W) × List Instr) where
  toObserver := P.watch call F args w
  reads _ _ := True
  writes x a j _ := isMap a j ∨ P.InBounds x.1 a j ∨ ∃ i ∈ sinceCheck a j x.2, i.resizes
  stops _ := True
  returnsNothing := True
  reads_stored _ := trivial
  stops_throw := trivial

section

variable {P : Platform R W} {call : String → List (Value R) → W → Ending R W} {F : Ir.Function}
  {args : List (Value R)} {w : W}

/-- What holds behind a check holds until the container or the index is defined again. -/
theorem guarded_stays {isMap : Temp → Temp → Prop} (hP : P.Sized) {i : Instr} {a j t : Temp}
    {x y : State R (Frame R W) × List Instr} (ha : i.dest? ≠ some a) (hj : i.dest? ≠ some j)
    (hafter : (guarded P call F args w isMap).after i x y)
    (hx : (guarded P call F args w isMap).writes x a j t) :
    (guarded P call F args w isMap).writes y a j t := by
  obtain ⟨hexec, hpast⟩ := hafter
  cases hcheck : i.checksBounds a j with
  | true =>
      rw [Instr.eq_of_checksBounds hcheck] at hexec
      exact .inr (.inl (Platform.inBounds_of_check hexec))
  | false =>
      have hsince : sinceCheck a j y.2 = i :: sinceCheck a j x.2 := by
        rw [hpast, sinceCheck, List.takeWhile_cons_of_pos (by rw [hcheck]; rfl)]
        rfl
      rcases hx with hmap | hbounds | ⟨k, hk, hresizes⟩
      · exact .inl hmap
      · cases hi : i.resizes with
        | false => exact .inr (.inl (hbounds.exec hP hi ha hj hexec))
        | true => exact .inr (.inr ⟨i, hsince ▸ List.mem_cons_self, hi⟩)
      · exact .inr (.inr ⟨k, hsince ▸ List.mem_cons_of_mem _ hk, hresizes⟩)

theorem lenient_guarded (hP : P.Sized) {c : Context} {ni : String → Lower Temp} {proto? : Option String}
    {f : FunctionDecl} :
    Lenient (guarded P call F args w (MapPlace c ni proto? f)) c ni proto? f fun a j x =>
      (guarded P call F args w (MapPlace c ni proto? f)).writes x a j 0 where
  reads _ _ := trivial
  writes hx := hx
  checked hafter := .inr (.inl (Platform.inBounds_of_check hafter.1))
  stays ha hj hafter hx := guarded_stays hP ha hj hafter hx
  maps hmap _ := .inl hmap
  void _ := trivial

variable {p : Program} {library : Library} {hierarchy : Hierarchy} {depth : Nat} {proto? : Option String}
  {f : FunctionDecl}

/-- In a program without problems, in every run of a lowered function on a platform where only some
instructions change how many items a container has: when an element of a container that is no map is written,
and no such instruction has been run since the bounds were checked, the index is in bounds. -/
theorem inBounds_of_isClean (hclean : (p.analyze library).isClean)
    (hf : (proto?, f) ∈ (p.analyze library).program.bodies)
    (hF : lowerFunction hierarchy (p.analyze library).program.prototypes depth proto? f = .ok F)
    (hP : P.Sized) {σ : State R (Frame R W)} {past : List Instr} {b : Block} {rest : List Instr}
    {a j t : Temp} (hreaches : P.Reaches call F args w σ past b (.indexSet a j t :: rest))
    (hsince : ∀ i ∈ sinceCheck a j past, i.resizes = false) :
    MapPlace (contextOf hierarchy (p.analyze library).program.prototypes proto? f) (newInstance depth) proto?
      f a j ∨ P.InBounds σ a j := by
  let law := guarded P call F args w
    (MapPlace (contextOf hierarchy (p.analyze library).program.prototypes proto? f) (newInstance depth) proto? f)
  have hlenient : Lenient law _ _ proto? f fun a j x => law.writes x a j 0 := lenient_guarded hP
  obtain ⟨claims, hkept⟩ := kept_of_lenient hclean hf hF hlenient fun _ _ _ => trivial
  obtain ⟨_, ⟨hwrites, _⟩, _⟩ := hkept.comes hreaches.comes.1
  rcases hwrites with hmap | hbounds | ⟨i, hi, hresizes⟩
  · exact .inl hmap
  · exact .inr hbounds
  · rw [hsince i hi] at hresizes
    cases hresizes

end

/-- Puts a number in the first place of a list. -/
def putFirst : FunctionDecl where
  name := "putFirst"
  params := [{ name := "xs", ty := .list .int }]
  ret := .void
  body := [.assign .origin (.index {} (.ident {} "xs") (.literal {} (.int 0))) none (.literal {} (.int 5))]

/-- What checking makes of `putFirst`. -/
def putFirstChecked : FunctionDecl where
  name := "putFirst"
  params := [{ name := "xs", ty := .list .int }]
  ret := .void
  body := [.assign .origin (.index { type? := some .int } (.ident { type? := some (.list .int) } "xs")
    (.literal { type? := some .int } (.int 0))) none (.literal { type? := some .int } (.int 5))]

/-- What `putFirst` is lowered to. -/
def putFirstCode : Ir.Function where
  name := "putFirst"
  params := [⟨"xs", .list .int⟩]
  ret := .void
  blocks :=
    [⟨"entry", [.loadVar 0 "xs", .const 1 (.int 0), .check (.indexBounds 0 1), .const 2 (.int 5),
      .indexSet 0 1 2], .retVoid⟩]

theorem lowerFunction_putFirst : lowerFunction ⟨[]⟩ [] 1 none putFirstChecked = .ok putFirstCode := by
  cbv

/-- The list has one item, and its first place is one of it. -/
theorem inBounds_putFirst :
    let p : Program := ⟨"putFirst.ps", [], [.function putFirst]⟩
    let call : String → List (Value Nat) → Heap → Ending Nat Heap := fun _ _ h => ⟨.failed .stuck, h⟩
    (p.analyze ⟨[]⟩).isClean ∧ (none, putFirstChecked) ∈ (p.analyze ⟨[]⟩).program.bodies ∧
      lowerFunction ⟨[]⟩ (p.analyze ⟨[]⟩).program.prototypes 1 none putFirstChecked = .ok putFirstCode ∧
      Heap.platform.Sized ∧ ∃ σ past b,
        Heap.platform.Reaches call putFirstCode [.ref 0] ⟨[.list [.scalar (.int 1)]], []⟩ σ past b
          [.indexSet 0 1 2] ∧
        (∀ i ∈ sinceCheck 0 1 past, i.resizes = false) ∧
        (MapPlace (contextOf ⟨[]⟩ (p.analyze ⟨[]⟩).program.prototypes none putFirstChecked) (newInstance 1)
          none putFirstChecked 0 1 ∨ Heap.platform.InBounds σ 0 1) := by
  intro p call
  have hclean : (p.analyze ⟨[]⟩).isClean := by decide +kernel
  have hbodies : (p.analyze ⟨[]⟩).program.bodies = [(none, putFirstChecked)] := by rfl
  have hmem : (none, putFirstChecked) ∈ (p.analyze ⟨[]⟩).program.bodies := by
    rw [hbodies]
    exact List.mem_singleton_self _
  have hcode : lowerFunction ⟨[]⟩ (p.analyze ⟨[]⟩).program.prototypes 1 none putFirstChecked =
      .ok putFirstCode := by
    rw [show (p.analyze ⟨[]⟩).program.prototypes = [] from rfl]
    exact lowerFunction_putFirst
  have hentry : Heap.platform.Reaches call putFirstCode [.ref 0] ⟨[.list [.scalar (.int 1)]], []⟩ _ _ _ _ :=
    .entry rfl rfl
  have hwrite := (((hentry.step rfl).step rfl).step rfl).step rfl
  have hsince : ∀ i ∈ sinceCheck 0 1 [.const 2 (.int 5), .check (.indexBounds 0 1), .const 1 (.int 0),
      .loadVar 0 "xs"], i.resizes = false := by decide
  exact ⟨hclean, hmem, hcode, Heap.sized, _, _, _, hwrite, hsince,
    inBounds_of_isClean hclean hmem hcode Heap.sized hwrite hsince⟩

end ProtoScript.Lowering
