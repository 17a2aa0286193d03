import BasicScript.Types.Membership

/-! # Faults

The causes of errors, and their wording.
-/

namespace BasicScript

/-- What a name is declared as. -/
inductive Entity where
  | variable
  | data
  | sub
  | alias
  | enum
  | type
  deriving DecidableEq, Repr

/-- Word for an entity in messages. -/
def Entity.word : Entity → String
  | .variable => "variable"
  | .data => "data"
  | .sub => "sub"
  | .alias => "alias"
  | .enum => "enum"
  | .type => "type"

/-- Causes of errors. Where the type of a value is shown, none stands for the missing value. -/
inductive Fault where
  | alreadyDeclared (entity : Entity) (name : String)
  | undeclared (entity : Entity) (name : String)
  | mismatchedType (expected : Ty) (got : Option Ty)
  /-- A composite literal is aimed at a type that is neither data nor array. -/
  | notComposite (target : Ty)
  | mismatchedSize (expected got : Nat)
  | mismatchedReturn (sub : String) (expected : Ty) (got : Option Ty)
  | mismatchedBuiltin (signature : String) (expected : Ty) (got : Option Ty)
  | invalidCast (source : Option Ty) (target : Ty)
  | cannotInfer
  | noYield (sub : String)
  | noMember (target member : String)
  | notIndexed (type : Option Ty)
  | notAccessed (type : Option Ty)
  | notIterable (type : Option Ty)
  | notPartitioned (expected got : Nat)
  | invalidIndex (index : String)
  | unresolvedPositions (sub : String)
  | unresolvedTypes (sub : String)
  | missingBuiltin (signature : String)
  | stackOverflow (limit : Nat)
  | assignedToNonReference
  | reassignedConstant (name : String)
  | assignedEmpty
  | noActiveScope
  | noDefault (type : Ty)
  | invalidTest (type : Option Ty)
  | invalidLeft (symbol : String) (type : Option Ty)
  | invalidRight (symbol : String) (type : Option Ty)
  | divisionByZero
  | unmatchedSignal (signal : String)
  /-- Raised by a native function. -/
  | custom (message : String)

/-- Name of the type of a value in messages. -/
def typeWord : Option Ty → String
  | some t => t.text
  | none => "empty"

namespace Fault

/-- Wording of a fault. -/
def message : Fault → String
  | .alreadyDeclared entity name =>
    entity.word ++ " `" ++ name ++ "` is already declared in this scope"
  | .undeclared entity name => "undeclared " ++ entity.word ++ " `" ++ name ++ "`"
  | .mismatchedType expected got =>
    "mismatched type: expected `" ++ expected.text ++ "`, got `" ++ typeWord got ++ "`"
  | .notComposite target =>
    "mismatched type: expected `data or array type`, got `" ++ target.text ++ "`"
  | .mismatchedSize expected got =>
    "mismatched array size: expected " ++ Nat.repr expected ++ " elements, got " ++ Nat.repr got
  | .mismatchedReturn sub expected got =>
    "sub `" ++ sub ++ "` yielded `" ++ typeWord got ++ "` but returns `" ++ expected.text ++ "`"
  | .mismatchedBuiltin signature expected got =>
    "builtin `" ++ signature ++ "` returns `" ++ typeWord got ++ "`, declared `"
      ++ expected.text ++ "`"
  | .invalidCast source target =>
    "cannot cast `" ++ typeWord source ++ "` to `" ++ target.text ++ "`"
  | .cannotInfer => "cannot infer a type from an empty value"
  | .noYield sub => "sub `" ++ sub ++ "` finished without a result"
  | .noMember target member => "`" ++ target ++ "` has no member `" ++ member ++ "`"
  | .notIndexed type => "`" ++ typeWord type ++ "` cannot be indexed"
  | .notAccessed type => "`" ++ typeWord type ++ "` has no members"
  | .notIterable type => "`" ++ typeWord type ++ "` is not iterable"
  | .notPartitioned expected got =>
    "expected " ++ Nat.repr expected ++ " elements, got " ++ Nat.repr got
  | .invalidIndex index => "invalid index `" ++ index ++ "`"
  | .unresolvedPositions sub =>
    "no overload of `" ++ sub ++ "` accepts the given number of arguments"
  | .unresolvedTypes sub => "no overload of `" ++ sub ++ "` accepts the given argument types"
  | .missingBuiltin signature => "no native function registered for `" ++ signature ++ "`"
  | .stackOverflow limit => "maximum call depth exceeded (limit: " ++ Nat.repr limit ++ ")"
  | .assignedToNonReference => "only variables can be assigned to"
  | .reassignedConstant name => "cannot reassign constant `" ++ name ++ "`"
  | .assignedEmpty => "cannot assign an empty value"
  | .noActiveScope => "no active scope"
  | .noDefault type => "type `" ++ type.text ++ "` has no default value"
  | .invalidTest type => "test expression must be `bool`, got `" ++ typeWord type ++ "`"
  | .invalidLeft symbol type =>
    "operator `" ++ symbol ++ "` cannot take a left operand of type `" ++ typeWord type ++ "`"
  | .invalidRight symbol type =>
    "operator `" ++ symbol ++ "` cannot take a right operand of type `" ++ typeWord type ++ "`"
  | .divisionByZero => "division by zero"
  | .unmatchedSignal signal => "`" ++ signal ++ "` has no enclosing target"
  | .custom message => message

/-- Faults that say that a value does not fit a type: they drop an overload from the choice
instead of ending the call. -/
def isTypeFault : Fault → Bool
  | .mismatchedType .. | .notComposite _ | .mismatchedSize .. | .notPartitioned ..
  | .cannotInfer => true
  | _ => false

/-- The fault for a value that was not admitted to a typed place. -/
def ofMismatch (expected : Ty) (got : Option Ty) : Mismatch → Fault
  | .type => .mismatchedType expected got
  | .size n m => .mismatchedSize n m

end Fault

end BasicScript
