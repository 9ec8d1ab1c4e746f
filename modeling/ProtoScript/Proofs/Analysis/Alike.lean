import ProtoScript.Analysis.Program
import ProtoScript.Proofs.Hierarchy.Order
import ProtoScript.Proofs.Text.Nearest

set_option autoImplicit false

/-!
# Contexts in another order

What stands around a body is asked by name, so the order in which it was declared makes no difference
(`Context.Alike`). Even the suggestions for a misspelt name are the same (`suggest_of_perm`): which
candidates are nearest does not depend on where they stand.
-/

namespace ProtoScript

/-! ## Suggestions -/

/-- What is suggested does not depend on the order of the candidates. -/
theorem suggest_of_perm (name : String) {as bs : List String} (hperm : as.Perm bs) :
    suggest name as = suggest name bs :=
  suggest_of_mem_iff fun _ => hperm.mem_iff

/-! ## Questions -/

namespace Analysis

theorem reportName_of_perm {problem : Problem} {span : Span} {name : String} {as bs : List String}
    (hperm : as.Perm bs) : reportName problem span name as = reportName problem span name bs := by
  rw [reportName, reportName, suggest_of_perm name hperm]

/-- The same is known around a body, in any order. -/
structure Context.Alike (c d : Context) : Prop where
  file : c.file = d.file
  hierarchy : c.hierarchy.Alike d.hierarchy
  library : c.library = d.library
  imports : c.imports = d.imports
  groups : c.groups = d.groups
  functions : c.functions.Perm d.functions
  nodup : c.functionNames.Nodup
  consts : c.consts = d.consts
  proto? : c.proto? = d.proto?
  ret : c.ret = d.ret

namespace Context.Alike

variable {c d : Context} (h : c.Alike d)

include h

/-- Contexts of a method are alike if those around it are. -/
theorem inProto (proto? : Option String) : { c with proto? }.Alike { d with proto? } :=
  { h with proto? := rfl }

theorem withRet (ret : Ty) : { c with ret }.Alike { d with ret } := { h with ret := rfl }

theorem functionNames : c.functionNames.Perm d.functionNames := h.functions.map _

theorem function? : c.function? = d.function? := funext fun x => find?_of_perm h.functions h.nodup x

theorem notValue? : notValue? c = notValue? d := by
  funext x
  simp only [Analysis.notValue?, h.imports, h.groups, h.function?]

theorem importedConstant? : importedConstant? c = importedConstant? d := by
  funext x
  simp only [Analysis.importedConstant?, h.imports, h.library]

theorem assignProblem? : assignProblem? c = assignProblem? d := by
  funext x
  simp only [Analysis.assignProblem?, h.imports, h.groups, h.function?, h.hierarchy.contains]

end Context.Alike

end Analysis

namespace Hierarchy.Alike

variable {h h' : Hierarchy} (halike : h.Alike h')

include halike

theorem unknownPrototype? : Analysis.unknownPrototype? h = Analysis.unknownPrototype? h' := by
  funext ty
  induction ty with
  | prim p => rfl
  | named x => simp only [Analysis.unknownPrototype?, halike.contains]
  | list t ih | view t ih | slice t ih => exact ih
  | map k v ihk ihv => simp only [Analysis.unknownPrototype?, ihk, ihv]

theorem methodTarget : Analysis.methodTarget h = Analysis.methodTarget h' := by
  funext proto method info
  simp only [Analysis.methodTarget, halike.get?, halike.isOverriddenBelow]

end Hierarchy.Alike

end ProtoScript
