import ProtoScript.Ir.Basic
import ProtoScript.Ty.Basic

set_option autoImplicit false

/-!
# Listings

The text of a module for people: one line for each instruction, blocks under their labels, functions
in braces, and the layouts of prototypes as remarks in front.
-/

namespace ProtoScript.Ir

/-- The text of a temporary. -/
def tempName (t : Temp) : String := "t" ++ toString t

/-- Texts with a comma and a blank between them. -/
def commaList (texts : List String) : String := ", ".intercalate texts

/-- The temporaries of an argument list. -/
def tempList (ts : List Temp) : String := commaList (ts.map tempName)

/-- The part of a call that takes its result, if it has one. -/
def resultPart : Option Temp → String
  | none => ""
  | some t => tempName t ++ " = "

/-- The line of a check. -/
def Check.render : Check → String
  | overflow op l r ty =>
    "check_overflow " ++ tempName l ++ " " ++ op.symbol ++ " " ++ tempName r ++ " : " ++ ty.render
  | negOverflow t ty => "check_neg_overflow " ++ tempName t ++ " : " ++ ty.render
  | divZero t => "check_div_zero " ++ tempName t
  | shiftRange t w => "check_shift_range " ++ tempName t ++ " < " ++ toString w
  | indexBounds o i => "check_index_bounds " ++ tempName o ++ "[" ++ tempName i ++ "]"
  | mapKey m k => "check_map_key " ++ tempName m ++ "[" ++ tempName k ++ "]"

/-- The window of a view or slice. -/
def windowText (source start stop : Temp) : String :=
  tempName source ++ "[" ++ tempName start ++ ".." ++ tempName stop ++ "]"

/-- What an instruction does, without the temporary it defines. -/
def Instr.action : Instr → String
  | const _ v => "const " ++ v.render
  | copy _ s => "copy " ++ tempName s
  | varDecl n ty => "var_decl " ++ n ++ ": " ++ ty.render
  | loadVar _ n => "load_var " ++ n
  | storeVar n s => "store_var " ++ n ++ ", " ++ tempName s
  | binary _ op l r => tempName l ++ " " ++ op.symbol ++ " " ++ tempName r
  | unary _ op t => op.symbol ++ tempName t
  | select _ c a b => "select " ++ tempName c ++ " ? " ++ tempName a ++ " : " ++ tempName b
  | cast _ s t => "cast " ++ tempName s ++ " to " ++ t.render
  | callStatic _ g as => "call " ++ g ++ "(" ++ tempList as ++ ")"
  | callMethod _ r p m as =>
    "call_method " ++ tempName r ++ "." ++ p ++ ":" ++ m ++ "(" ++ tempList as ++ ")"
  | callForeign _ m g as t =>
    "call_extern " ++ m ++ "." ++ g ++ "(" ++ tempList as ++ ") -> " ++ t.render
  | newObject _ p => "new " ++ p
  | cloneObject _ s p => "clone " ++ tempName s ++ " as " ++ p
  | fieldGet _ o p n => tempName o ++ "." ++ p ++ ":" ++ n
  | fieldSet o p n v => tempName o ++ "." ++ p ++ ":" ++ n ++ " = " ++ tempName v
  | indexGet _ o i => tempName o ++ "[" ++ tempName i ++ "]"
  | indexSet o i v => tempName o ++ "[" ++ tempName i ++ "] = " ++ tempName v
  | makeList _ t is => "make_list<" ++ t.render ++ "> [" ++ tempList is ++ "]"
  | makeMap _ k v es =>
    "make_map<" ++ k.render ++ "," ++ v.render ++ "> \x7b" ++
      commaList (es.map fun e => tempName e.1 ++ ": " ++ tempName e.2) ++ "\x7d"
  | makeView _ s i j t => "make_view<" ++ t.render ++ "> " ++ windowText s i j
  | makeSlice _ s i j t => "make_slice<" ++ t.render ++ "> " ++ windowText s i j
  | listPush l v => "list_push " ++ tempName l ++ ", " ++ tempName v
  | listPop _ l => "list_pop " ++ tempName l
  | listClear l => "list_clear " ++ tempName l
  | mapHas _ m k => "map_has " ++ tempName m ++ ", " ++ tempName k
  | mapRemove m k => "map_remove " ++ tempName m ++ ", " ++ tempName k
  | length _ o => "length " ++ tempName o
  | iterBegin _ i k t => "iter_begin " ++ k.word ++ " " ++ tempName i ++ " -> " ++ t.render
  | iterNext _ i => "iter_next " ++ tempName i
  | print v => "print " ++ tempName v
  | throw v => "throw " ++ tempName v
  | setupTry h => "setup_try " ++ h
  | endTry => "end_try"
  | catchValue _ => "catch_value"
  | instanceOf _ o p => "instance_of " ++ tempName o ++ ", " ++ p
  | check c => c.render

/-- The line of an instruction. -/
def Instr.render (i : Instr) : String := resultPart i.dest? ++ i.action

/-- The line of a terminator. -/
def Terminator.render : Terminator → String
  | ret t => "ret " ++ tempName t
  | retVoid => "ret_void"
  | jump l => "jump " ++ l
  | branch t a b => "branch_if " ++ tempName t ++ " ? " ++ a ++ " : " ++ b
  | branchIter t a b => "branch_iter_has_next " ++ tempName t ++ " ? " ++ a ++ " : " ++ b
  | unreachable => "unreachable"

/-- The lines of a block. -/
def Block.render (b : Block) : String :=
  "  " ++ b.label ++ ":\n" ++ String.join (b.instrs.map fun i => "    " ++ i.render ++ "\n") ++
    "    " ++ b.terminator.render ++ "\n"

/-- The lines of a function. -/
def Function.render (f : Function) : String :=
  "fn " ++ f.name ++ "(" ++ commaList (f.params.map fun p => p.name ++ ": " ++ p.ty.render) ++
    ") -> " ++ f.ret.render ++ " \x7b\n" ++ String.join (f.blocks.map Block.render) ++ "\x7d\n"

/-- The remarks on a layout. -/
def Layout.render (l : Layout) : String :=
  "; prototype " ++ l.name ++ " #" ++ toString l.id ++ "\n" ++
    String.join (l.fields.map fun f => ";   field " ++ f.name ++ ": " ++ f.ty.render ++ "\n") ++ "\n"

/-- The functions of a module, one after the other. -/
def Module.renderFunctions (m : Module) : String :=
  String.join (m.functions.map Function.render)

/-- The listing of a module. -/
def Module.render (m : Module) : String :=
  "; module " ++ m.name ++ "\n\n" ++ String.join (m.layouts.map Layout.render) ++
    String.join (m.functions.map fun f => f.render ++ "\n")

end ProtoScript.Ir
