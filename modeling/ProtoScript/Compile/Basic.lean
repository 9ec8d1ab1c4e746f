import ProtoScript.Analysis.Program
import ProtoScript.C.Module
import ProtoScript.Lowering.Program
import ProtoScript.Options.Basic

set_option autoImplicit false

/-!
# Compiling programs

`Program.toIr` checks a program, lowers it and optimizes the result; `Program.toC` goes on to a C
file. A program with a diagnostic goes no further than the check.
-/

namespace ProtoScript

/-- Why a program is not compiled. -/
inductive CompileError where
  | options (defect : Options.Defect)
  /-- The program has problems. -/
  | diagnostics (found : List Diagnostic)
  | lowering (error : Lowering.Error)
  /-- There is no number left for a temporary of an inlined call. -/
  | outOfNumbers
  /-- The optimized module is not well formed. -/
  | invalidModule (defects : List Ir.ModuleDefect)
  | generation (error : C.Error)

namespace CompileError

/-- The wording of an error. -/
def message : CompileError → String
  | options d => d.message
  | diagnostics found => "analysis reported " ++ toString found.length ++ " diagnostic(s)"
  | lowering e => "lowering failed: " ++ e.message
  | outOfNumbers => "attempt to add with overflow"
  | invalidModule ds => "optimizer produced invalid IR: " ++ Ir.defectsText ds
  | generation e => "C generation failed: " ++ e.message

/-- The diagnostics behind an error. -/
def found : CompileError → List Diagnostic
  | diagnostics found => found
  | _ => []

end CompileError

/-- The diagnostic, said of another file. -/
def Diagnostic.inFile (d : Diagnostic) : Option String → Diagnostic
  | some file => { d with file }
  | none => d

namespace Program

/-- Lowers and optimizes a program that has been checked. -/
def lowerOptimized (a : Analysis) (o : Options) : Except CompileError (Ir.Module × Ir.OptStats) :=
  match a.program.lower a.hierarchy o.moduleName with
  | .error e => .error (.lowering e)
  | .ok m =>
    match m.optimize? o.optLevel with
    | none => .error .outOfNumbers
    | some (m, stats) => if m.isValid then .ok (m, stats) else .error (.invalidModule m.defects)

/-- Compiles a program to an optimized module. -/
def toIr (p : Program) (library : Library) (o : Options) :
    Except CompileError (Ir.Module × Ir.OptStats) :=
  match o.defect? with
  | some d => .error (.options d)
  | none =>
    let a := p.analyze library
    if a.isClean then lowerOptimized a o
    else .error (.diagnostics (a.diagnostics.map (·.inFile o.fileName)))

/-- Compiles a program to a C file. -/
def toC (p : Program) (library : Library) (o : Options) : Except CompileError String := do
  let (m, _) ← p.toIr library o
  match C.generate m o.emitPrelude with
  | .ok text => .ok text
  | .error e => .error (.generation e)

end Program

end ProtoScript
