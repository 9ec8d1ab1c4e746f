import ProtoScript.Constant.Basic
import ProtoScript.Diagnostic.Basic
import ProtoScript.Source.Operator
import ProtoScript.Ty.Basic

set_option autoImplicit false

/-!
# Problems

Everything that can be wrong with a program. A problem has a code and a wording; `Problem.diagnose`
puts it at a place.
-/

namespace ProtoScript

/-- Which part of a map's entries a problem is about. -/
inductive EntryPart where
  | key
  | value
  deriving DecidableEq, Repr

/-- The word for a part of an entry, of which there are several. -/
def EntryPart.plural : EntryPart → String
  | key => "keys"
  | value => "values"

/-- What can be wrong with a program. -/
inductive Problem where
  -- Prototypes
  | builtinRedeclared (name : String)
  | duplicatePrototype (name : String)
  | unknownParent (name parent : String)
  | sealedParent (name parent : String)
  | inheritanceCycle (name : String)
  | duplicateMember (member proto : String)
  | fieldShadows (field proto owner : String)
  | overrideNarrows (proto method owner : String)
  | overrideSignature (proto method owner : String)
  | constFieldWithoutInit (proto field : String)
  -- Imports
  | unknownModule (name : String)
  | duplicateImport (name : String)
  | unknownImport (module member : String)
  -- Groups
  | duplicateGroup (name : String)
  | groupBase (group : String) (base : Ty)
  | duplicateGroupMember (group member : String)
  | groupNotConstant (group member : String)
  | groupByteRange (value : Constant) (group member : String)
  | groupMemberType (group member : String) (found base : Ty)
  | groupClashesWithPrototype (name : String)
  -- Functions
  | duplicateFunction (name : String)
  | functionClashes (name : String)
  | duplicateParam (name : String) (line : Nat)
  | missingReturn (function : String) (ty : Ty)
  -- Statements
  | variableType (name : String) (ty : Ty)
  | constWithoutInit (name : String)
  | duplicateVariable (name : String) (line : Nat)
  | breakOutside
  | continueOutside
  | throwNonException (ty : Ty)
  | notIterable (ty : Ty)
  | loopVariable (name : String) (declared visited : Ty)
  | notSwitchable (ty : Ty)
  | armFallsThrough
  | returnSelf
  | returnFromVoid
  | returnType (expected found : Ty)
  | missingReturnValue (ty : Ty)
  | notCatchable (proto : String)
  | conditionNotBool (ty : Ty)
  -- Assignments
  | assignGroupMember (group member : String)
  | assignModuleMember (module member : String)
  | assignConstField (proto field : String)
  | assignConst (name : String)
  | assignGroup (name : String)
  | assignImported (name : String)
  | assignName (name : String)
  | writeInto (ty : Ty)
  | notAssignable
  | compoundResult (op : BinaryOp) (result target : Ty)
  -- Names
  | undefinedName (name : String)
  | undefinedFunction (name : String)
  | undefinedPrototype (name : String)
  | uninitialized (name : String)
  | selfOutside
  | importedFunctionAsValue (name : String)
  | groupAsValue (name : String)
  | moduleAsValue (name : String)
  | functionAsValue (name : String)
  | methodAsValue (proto method : String)
  -- Members
  | noSuchGroupMember (group member : String)
  | noSuchModuleMember (module member : String)
  | noSuchMember (proto member : String)
  | noSuchField (ty : Ty) (field : String)
  | noSuchMethod (ty : Ty) (method : String)
  | groupMethod (group : String)
  | internalField (proto field owner : String)
  | internalMethod (proto method owner : String)
  -- Calls
  | notFunction (name : String)
  | constantCalled (module member : String)
  | fieldCalled (proto field : String)
  | argumentCount (callee : String) (expected found : Nat)
  | printArguments (found : Nat)
  | notPrintable (ty : Ty)
  | emptyPop (list : String)
  -- Operators and values
  | typeMismatch (expected found : Ty)
  | operandType (symbol : String) (ty : Ty)
  | logicalOperands (op : BinaryOp) (left right : Ty)
  | operandsDiffer (op : BinaryOp) (left right : Ty)
  | branchesDiffer (thenTy elseTy : Ty)
  | byteLiteral (value : Int)
  | moduleConstantType (name : String) (ty : Ty)
  | notIndexable (ty : Ty)
  | indexType (ty : Ty)
  | invalidCast (source target : Ty)
  | castRange (value : Constant) (target : Ty)
  | listElements (expected found : Ty)
  | mapKeyScalar (ty : Ty)
  | mapEntries (part : EntryPart) (expected found : Ty)

namespace Problem

/-- The code of a problem. -/
def code : Problem → Code
  | builtinRedeclared .. => .builtinRedeclared
  | duplicatePrototype .. => .duplicatePrototype
  | unknownParent .. => .unknownParent
  | sealedParent .. => .sealedInheritance
  | inheritanceCycle .. => .inheritanceCycle
  | duplicateMember .. => .duplicateMember
  | fieldShadows .. => .fieldShadowsAncestor
  | overrideNarrows .. => .overrideVisibility
  | overrideSignature .. => .overrideSignature
  | unknownModule .. => .unknownModule
  | duplicateImport .. => .duplicateImport
  | unknownImport .. => .unknownImport
  | groupBase .. => .groupBaseType
  | duplicateGroupMember .. => .groupDuplicateMember
  | groupNotConstant .. => .groupNotConstant
  | groupMemberType .. => .groupMemberType
  | groupByteRange .. | byteLiteral .. => .byteLiteralRange
  | duplicateGroup .. | groupClashesWithPrototype .. | duplicateFunction .. | functionClashes ..
  | duplicateParam .. | duplicateVariable .. => .duplicateDeclaration
  | missingReturn .. | missingReturnValue .. => .missingReturnValue
  | constFieldWithoutInit .. | constWithoutInit .. => .constWithoutInit
  | breakOutside => .breakOutsideLoop
  | continueOutside => .continueOutsideLoop
  | throwNonException .. => .throwNonException
  | armFallsThrough => .switchFallthrough
  | returnSelf => .returnSelf
  | returnFromVoid | returnType .. => .returnTypeMismatch
  | notCatchable .. => .invalidCatchType
  | conditionNotBool .. => .conditionNotBool
  | assignGroupMember .. | assignGroup .. => .groupMemberAssign
  | assignModuleMember .. | assignConstField .. | assignConst .. | assignImported .. =>
    .constReassign
  | assignName .. | writeInto .. | notAssignable => .readOnlyTarget
  | undefinedName .. => .undefinedName
  | undefinedFunction .. => .undefinedFunction
  | undefinedPrototype .. => .undefinedPrototype
  | uninitialized .. => .uninitializedUse
  | selfOutside => .selfOutsideMethod
  | noSuchGroupMember .. | noSuchModuleMember .. | noSuchMember .. | noSuchField ..
  | noSuchMethod .. | groupMethod .. => .undefinedMember
  | internalField .. | internalMethod .. => .internalAccess
  | notFunction .. | constantCalled .. | fieldCalled .. => .notCallable
  | argumentCount .. | printArguments .. => .argumentCount
  | emptyPop .. => .staticEmptyPop
  | invalidCast .. => .invalidCast
  | castRange .. => .castNotRepresentable
  | notIterable .. | notSwitchable .. | importedFunctionAsValue .. | groupAsValue ..
  | moduleAsValue .. | functionAsValue .. | methodAsValue .. | notPrintable .. | operandType ..
  | logicalOperands .. | notIndexable .. | mapKeyScalar .. => .invalidOperand
  | variableType .. | loopVariable .. | compoundResult .. | typeMismatch .. | operandsDiffer ..
  | branchesDiffer .. | moduleConstantType .. | indexType .. | listElements .. | mapEntries .. =>
    .typeMismatch

/-- A text between single quotes. -/
def q (text : String) : String := "'" ++ text ++ "'"

/-- A type between single quotes. -/
def qt (ty : Ty) : String := q ty.render

/-- A member with its owner, between single quotes. -/
def qm (owner member : String) : String := q (owner ++ "." ++ member)

/-- The wording of a problem. -/
def message : Problem → String
  | builtinRedeclared n => "Prototype " ++ q n ++ " redeclares a built-in prototype"
  | duplicatePrototype n => "Prototype " ++ q n ++ " is already declared"
  | unknownParent n p => "Prototype " ++ q n ++ " extends unknown prototype " ++ q p
  | sealedParent n p => "Prototype " ++ q n ++ " cannot extend sealed prototype " ++ q p
  | inheritanceCycle n => "Inheritance chain of " ++ q n ++ " loops back to itself"
  | duplicateMember m p => "Duplicate member " ++ q m ++ " in prototype " ++ q p
  | fieldShadows f p o => "Field " ++ q f ++ " of " ++ q p ++ " shadows the field declared in " ++ q o
  | overrideNarrows p m o =>
    "Override " ++ qm p m ++ " narrows public method of " ++ q o ++ " to internal"
  | overrideSignature p m o =>
    "Override " ++ qm p m ++ " does not match the signature declared in " ++ q o
  | constFieldWithoutInit p f => "constant field " ++ qm p f ++ " needs an initializer"
  | unknownModule m => "Cannot find module " ++ q m
  | duplicateImport n => q n ++ " is already imported"
  | unknownImport m n | noSuchModuleMember m n => "Module " ++ q m ++ " has no member " ++ q n
  | duplicateGroup n => "group " ++ q n ++ " is declared more than once"
  | groupBase n t =>
    "group " ++ q n ++ " has base type " ++ qt t ++ "; expected a non-void scalar type"
  | duplicateGroupMember g m => "group " ++ q g ++ " already has a member " ++ q m
  | groupNotConstant g m => "initializer of " ++ qm g m ++ " is not a compile-time constant"
  | groupByteRange v g m =>
    "value " ++ v.render ++ " of " ++ qm g m ++ " does not fit in a byte (0..255)"
  | groupMemberType g m t b =>
    "member " ++ qm g m ++ " has type " ++ qt t ++ " but the group's base type is " ++ qt b
  | groupClashesWithPrototype n => "group " ++ q n ++ " conflicts with a prototype of the same name"
  | duplicateFunction n => "function " ++ q n ++ " is declared more than once"
  | functionClashes n => "function " ++ q n ++ " conflicts with an existing name"
  | duplicateParam n l =>
    "parameter " ++ q n ++ " is already declared (line " ++ toString l ++ ")"
  | missingReturn f t =>
    "function " ++ q f ++ " must return a value of type " ++ qt t ++ " on every path"
  | variableType n t => "variable " ++ q n ++ " cannot have type " ++ qt t
  | constWithoutInit n => "constant " ++ q n ++ " needs an initializer"
  | duplicateVariable n l =>
    q n ++ " is already declared in this scope (line " ++ toString l ++ ")"
  | breakOutside => "'break' outside of a loop or switch"
  | continueOutside => "'continue' outside of a loop"
  | throwNonException t =>
    "cannot throw a value of type " ++ qt t ++ "; expected an Exception"
  | notIterable t => "cannot iterate over a value of type " ++ qt t
  | loopVariable n d v =>
    "loop variable " ++ q n ++ " is declared " ++ qt d ++ " but the loop yields " ++ qt v
  | notSwitchable t => "cannot switch on a value of type " ++ qt t
  | armFallsThrough => "switch arm must end in 'break', 'return', or 'throw'"
  | returnSelf => "a method cannot return 'self'; return a clone instead"
  | returnFromVoid => "a void function cannot return a value"
  | returnType e f => "expected to return " ++ qt e ++ ", found " ++ qt f
  | missingReturnValue t => "missing return value of type " ++ qt t
  | notCatchable p => q p ++ " is not an Exception and cannot be caught"
  | conditionNotBool t => "condition must be 'bool', found " ++ qt t
  | assignGroupMember g m => "cannot assign to group member " ++ qm g m
  | assignModuleMember m n => "cannot assign to module member " ++ qm m n
  | assignConstField p f => "cannot assign to constant field " ++ qm p f
  | assignConst n => "cannot assign to constant " ++ q n
  | assignGroup n => "cannot assign to group " ++ q n
  | assignImported n => "cannot assign to imported " ++ q n
  | assignName n => "cannot assign to " ++ q n
  | writeInto t => "cannot write into a value of type " ++ qt t
  | notAssignable => "left-hand side of an assignment must be a variable, field, or element"
  | compoundResult op r t =>
    q (op.symbol ++ "=") ++ " produces " ++ qt r ++ ", which cannot be stored in " ++ qt t
  | undefinedName n => "Cannot find name " ++ q n
  | undefinedFunction n => "Cannot find function " ++ q n
  | undefinedPrototype n => "Cannot find prototype " ++ q n
  | uninitialized n => q n ++ " is used before being initialized"
  | selfOutside => "'self' can only be used inside a method"
  | importedFunctionAsValue n => q n ++ " is a function and must be called"
  | groupAsValue n => "group " ++ q n ++ " is not a value; use one of its members"
  | moduleAsValue n => "module " ++ q n ++ " is not a value"
  | functionAsValue n => "function " ++ q n ++ " must be called"
  | methodAsValue p m => "method " ++ qm p m ++ " must be called"
  | noSuchGroupMember g m => "Group " ++ q g ++ " has no member " ++ q m
  | noSuchMember p m => "Prototype " ++ q p ++ " has no member " ++ q m
  | noSuchField t f => "type " ++ qt t ++ " has no field " ++ q f
  | noSuchMethod t m => "type " ++ qt t ++ " has no method " ++ q m
  | groupMethod g => "group " ++ q g ++ " has no methods"
  | internalField p f o => "field " ++ qm p f ++ " is internal to " ++ q o
  | internalMethod p m o => "method " ++ qm p m ++ " is internal to " ++ q o
  | notFunction n => q n ++ " is not a function"
  | constantCalled m n => qm m n ++ " is a constant, not a function"
  | fieldCalled p f => "field " ++ qm p f ++ " is not a method"
  | argumentCount c e f =>
    q c ++ " expects " ++ toString e ++ " argument(s), found " ++ toString f
  | printArguments f => "'print' expects 1 argument, found " ++ toString f
  | notPrintable t => "cannot print a value of type " ++ qt t
  | emptyPop l => q (l ++ ".pop()") ++ " on a list that is statically empty"
  | typeMismatch e f => "expected " ++ qt e ++ ", found " ++ qt f
  | operandType s t => "operator " ++ q s ++ " cannot be applied to " ++ qt t
  | logicalOperands op l r =>
    q op.symbol ++ " needs 'bool' operands, found " ++ qt l ++ " and " ++ qt r
  | operandsDiffer op l r =>
    "operands of " ++ q op.symbol ++ " must have the same type, found " ++ qt l ++ " and " ++ qt r
  | branchesDiffer a b => "branches of '?:' have different types " ++ qt a ++ " and " ++ qt b
  | byteLiteral v => "literal " ++ toString v ++ " does not fit in a byte (0..255)"
  | moduleConstantType n t => "module constant " ++ q n ++ " has a value that is not a " ++ qt t
  | notIndexable t => "cannot index into a value of type " ++ qt t
  | indexType t => "index must be 'int', found " ++ qt t
  | invalidCast s t => "cannot cast " ++ qt s ++ " to " ++ qt t
  | castRange v t => v.render ++ " cannot be represented as " ++ qt t
  | listElements e f =>
    "list elements must share one type: expected " ++ qt e ++ ", found " ++ qt f
  | mapKeyScalar t => "map keys must be scalar, found " ++ qt t
  | mapEntries part e f =>
    "map " ++ part.plural ++ " must share one type: expected " ++ qt e ++ ", found " ++ qt f

/-- The problem at a place. -/
def diagnose (p : Problem) (file : String) (span : Span) : Diagnostic :=
  { file, span, code := p.code, message := p.message }

end Problem

end ProtoScript
