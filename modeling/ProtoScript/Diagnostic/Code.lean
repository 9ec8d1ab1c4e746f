set_option autoImplicit false

/-!
# Diagnostic codes

Every kind of problem has a code, a letter with a number, and a name. The number's range gives the
category.
-/

namespace ProtoScript

/-- The broad kind of a problem. -/
inductive Category where
  | parse
  | nameResolution
  | type
  | declaration
  | imports
  | internal
  deriving DecidableEq, Repr

namespace Category

/-- The category of a code's number. -/
def ofNumber (n : Nat) : Category :=
  if 1000 ≤ n ∧ n ≤ 1999 then parse
  else if 2000 ≤ n ∧ n ≤ 2999 then nameResolution
  else if 3000 ≤ n ∧ n ≤ 3099 then type
  else if 3100 ≤ n ∧ n ≤ 3999 then declaration
  else if 5000 ≤ n ∧ n ≤ 5999 then imports
  else internal

/-- The category in messages. -/
def text : Category → String
  | parse => "parse"
  | nameResolution => "name resolution"
  | type => "type"
  | declaration => "declaration"
  | imports => "import"
  | internal => "internal"

/-- The category in machine-readable reports. -/
def word : Category → String
  | nameResolution => "name_resolution"
  | c => c.text

end Category

/-- A code with its name. -/
structure Code where
  code : String
  name : String
  deriving DecidableEq, Repr

namespace Code

/-- A decimal number of 32 bits, possibly behind a plus sign. -/
def word32? (digits : List Char) : Option Nat :=
  let ds :=
    match digits with
    | '+' :: ds => ds
    | ds => ds
  if ds.isEmpty || !ds.all Char.isDigit then none
  else
    let n := ds.foldl (fun n c => 10 * n + (c.toNat - '0'.toNat)) 0
    if n < UInt32.size then some n else none

/-- The number behind the letter of a code, which is one byte; zero if there is none. -/
def number (c : Code) : Nat :=
  match c.code.toList with
  | [] => 0
  | letter :: digits => if letter.utf8Size = 1 then (word32? digits).getD 0 else 0

/-- The category of a code. -/
def category (c : Code) : Category := Category.ofNumber c.number

/-- The code and its name, as messages show them. -/
def render (c : Code) : String := c.code ++ " " ++ c.name

/-! ## The codes -/

def undefinedName : Code := ⟨"E2001", "UNDEFINED_NAME"⟩
def undefinedFunction : Code := ⟨"E2002", "UNDEFINED_FUNCTION"⟩
def undefinedPrototype : Code := ⟨"E2003", "UNDEFINED_PROTOTYPE"⟩
def undefinedMember : Code := ⟨"E2004", "UNDEFINED_MEMBER"⟩
def duplicateDeclaration : Code := ⟨"E2005", "DUPLICATE_DECLARATION"⟩
def typeMismatch : Code := ⟨"E3001", "TYPE_MISMATCH"⟩
def invalidOperand : Code := ⟨"E3002", "INVALID_OPERAND"⟩
def argumentCount : Code := ⟨"E3003", "ARGUMENT_COUNT"⟩
def conditionNotBool : Code := ⟨"E3004", "CONDITION_NOT_BOOL"⟩
def staticEmptyPop : Code := ⟨"E3005", "STATIC_EMPTY_POP"⟩
def invalidCast : Code := ⟨"E3006", "INVALID_CAST"⟩
def castNotRepresentable : Code := ⟨"E3007", "CAST_NOT_REPRESENTABLE"⟩
def constReassign : Code := ⟨"E3008", "CONST_REASSIGN"⟩
def constWithoutInit : Code := ⟨"E3009", "CONST_WITHOUT_INIT"⟩
def groupMemberAssign : Code := ⟨"E3010", "GROUP_MEMBER_ASSIGN"⟩
def returnTypeMismatch : Code := ⟨"E3011", "RETURN_TYPE_MISMATCH"⟩
def missingReturnValue : Code := ⟨"E3012", "MISSING_RETURN_VALUE"⟩
def breakOutsideLoop : Code := ⟨"E3013", "BREAK_OUTSIDE_LOOP"⟩
def continueOutsideLoop : Code := ⟨"E3014", "CONTINUE_OUTSIDE_LOOP"⟩
def switchFallthrough : Code := ⟨"E3015", "SWITCH_FALLTHROUGH"⟩
def invalidCatchType : Code := ⟨"E3016", "INVALID_CATCH_TYPE"⟩
def throwNonException : Code := ⟨"E3017", "THROW_NON_EXCEPTION"⟩
def uninitializedUse : Code := ⟨"E3018", "UNINITIALIZED_USE"⟩
def returnSelf : Code := ⟨"E3019", "RETURN_SELF"⟩
def notCallable : Code := ⟨"E3020", "NOT_CALLABLE"⟩
def selfOutsideMethod : Code := ⟨"E3021", "SELF_OUTSIDE_METHOD"⟩
def readOnlyTarget : Code := ⟨"E3022", "READ_ONLY_TARGET"⟩
def internalAccess : Code := ⟨"E3100", "INTERNAL_ACCESS"⟩
def byteLiteralRange : Code := ⟨"E3101", "BYTE_LITERAL_RANGE"⟩
def groupBaseType : Code := ⟨"E3110", "GROUP_BASE_TYPE"⟩
def groupNotConstant : Code := ⟨"E3111", "GROUP_NOT_CONSTANT"⟩
def groupDuplicateMember : Code := ⟨"E3112", "GROUP_DUPLICATE_MEMBER"⟩
def groupMemberType : Code := ⟨"E3113", "GROUP_MEMBER_TYPE"⟩
def builtinRedeclared : Code := ⟨"E3130", "BUILTIN_REDECLARED"⟩
def duplicateMember : Code := ⟨"E3131", "DUPLICATE_MEMBER"⟩
def fieldShadowsAncestor : Code := ⟨"E3132", "FIELD_SHADOWS_ANCESTOR"⟩
def unknownParent : Code := ⟨"E3133", "UNKNOWN_PARENT"⟩
def overrideVisibility : Code := ⟨"E3134", "OVERRIDE_VISIBILITY"⟩
def overrideSignature : Code := ⟨"E3135", "OVERRIDE_SIGNATURE"⟩
def inheritanceCycle : Code := ⟨"E3136", "INHERITANCE_CYCLE"⟩
def duplicatePrototype : Code := ⟨"E3137", "DUPLICATE_PROTOTYPE"⟩
def sealedInheritance : Code := ⟨"E3140", "SEALED_INHERITANCE"⟩
def unknownModule : Code := ⟨"E5001", "UNKNOWN_MODULE"⟩
def unknownImport : Code := ⟨"E5002", "UNKNOWN_IMPORT"⟩
def duplicateImport : Code := ⟨"E5003", "DUPLICATE_IMPORT"⟩

end Code

end ProtoScript
