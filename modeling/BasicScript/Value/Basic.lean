import BasicScript.Number.Basic
import BasicScript.Syntax.Tree
import BasicScript.Types.Basic

/-! # Values

Scalars, strings and enum entries are values in themselves. Arrays and
composites are handles on cells of the store, so that every holder of a handle
sees what the others write.
-/

namespace BasicScript

/-- A scope by its place in the table of scopes. -/
structure ScopeId where
  index : Nat
  deriving DecidableEq, Repr

/-- A scope and the scopes around it, the innermost first. -/
abbrev ScopePath := List ScopeId

/-- A variable, parameter or field by its place in the store. -/
structure CellId where
  index : Nat
  deriving DecidableEq, Repr

/-- An array by its place in the store. -/
structure ArrayId where
  index : Nat
  deriving DecidableEq, Repr

/-- A field whose type is known. -/
structure Field where
  name : String
  type : Ty
  constant : Bool
  /-- Stands in for an element that is not supplied. -/
  default : Option Expr

/-- A data declaration, with the scope in which its defaults are evaluated. -/
structure DataDecl where
  name : String
  fields : List Field
  scope : ScopePath

/-- Place of the first field of a name. -/
def DataDecl.fieldIndex? (d : DataDecl) (name : String) : Option Nat :=
  d.fields.findIdx? (·.name == name)

/-- Runtime values. -/
inductive Value where
  /-- No value supplied. -/
  | empty
  | none
  | bool (value : Bool)
  | number (value : Number)
  | char (value : Char)
  | string (value : String)
  | array (id : ArrayId)
  /-- An instance of a data declaration: one cell for each field. -/
  | data (decl : DataDecl) (cells : List CellId)
  | entry (enum name : String) (ordinal : Nat) (value : Value)

namespace Value

/-- Kind of a numeric value. -/
def kind? : Value → Option NumericKind
  | .number n => some n.kind
  | _ => Option.none

/-- The whole number denoted by a value of an integral kind. -/
def integral? : Value → Option Int
  | .number n => n.integral?
  | _ => Option.none

/-- Whether this is the value that stands for none supplied. -/
def isMissing : Value → Bool
  | .empty => true
  | _ => false

/-- Value of a constant. -/
def ofLiteral : Literal → Value
  | .none => .none
  | .bool b => .bool b
  | .byte n => .number (.byte n)
  | .short n => .number (.short n)
  | .int n => .number (.int n)
  | .long n => .number (.long n)
  | .float x => .number (.float x)
  | .double x => .number (.double x)
  | .char c => .char c
  | .string s => .string s

/-- A value of kind `int`. -/
def int (n : Int) : Value := .number (.ofInt n .int)

end Value

/-- An enum declaration; the entries stand in the order of their ordinals. -/
structure EnumDecl where
  name : String
  /-- Type of the values that the entries carry. -/
  type : Ty
  /-- Names and values of the entries. -/
  entries : List (String × Value)

namespace EnumDecl

/-- The entries as values, from a place in the list on. -/
def entryValues (enum : String) : Nat → List (String × Value) → List Value
  | _, [] => []
  | ordinal, (name, value) :: rest =>
    .entry enum name ordinal value :: entryValues enum (ordinal + 1) rest

/-- All entries in order. -/
def values (d : EnumDecl) : List Value := entryValues d.name 0 d.entries

/-- The first entry of a name. -/
def find? (d : EnumDecl) (name : String) : Option Value :=
  d.values.find? fun
    | .entry _ entry _ _ => entry == name
    | _ => false

end EnumDecl

end BasicScript
