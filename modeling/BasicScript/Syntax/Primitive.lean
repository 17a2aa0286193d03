/-! # Primitive types

The type keywords, and the ladder of numeric kinds among them:
`byte < short < int < long < float < double`.
-/

namespace BasicScript

/-- The type keywords. -/
inductive Primitive where
  | any
  | none
  | bool
  | byte
  | short
  | int
  | long
  | float
  | double
  | char
  | string
  deriving DecidableEq, Repr

/-- The numeric kinds, from the narrowest to the widest. -/
inductive NumericKind where
  | byte
  | short
  | int
  | long
  | float
  | double
  deriving DecidableEq, Repr

namespace NumericKind

/-- Place on the ladder, counted from the bottom. -/
def rank : NumericKind → Nat
  | .byte => 0
  | .short => 1
  | .int => 2
  | .long => 3
  | .float => 4
  | .double => 5

instance : LE NumericKind := ⟨fun a b => a.rank ≤ b.rank⟩

instance : DecidableRel (α := NumericKind) (· ≤ ·) :=
  fun a b => inferInstanceAs (Decidable (a.rank ≤ b.rank))

instance : LT NumericKind := ⟨fun a b => a.rank < b.rank⟩

instance : DecidableRel (α := NumericKind) (· < ·) :=
  fun a b => inferInstanceAs (Decidable (a.rank < b.rank))

/-- The wider of two kinds. -/
def wider (a b : NumericKind) : NumericKind := if a ≤ b then b else a

/-- The kinds of whole numbers. -/
def isIntegral : NumericKind → Bool
  | .byte | .short | .int | .long => true
  | .float | .double => false

/-- Keyword of a kind. -/
def primitive : NumericKind → Primitive
  | .byte => .byte
  | .short => .short
  | .int => .int
  | .long => .long
  | .float => .float
  | .double => .double

end NumericKind

namespace Primitive

/-- Spelling of the keyword. -/
def keyword : Primitive → String
  | .any => "any"
  | .none => "none"
  | .bool => "bool"
  | .byte => "byte"
  | .short => "short"
  | .int => "int"
  | .long => "long"
  | .float => "float"
  | .double => "double"
  | .char => "char"
  | .string => "string"

/-- The numeric kind that a keyword names. -/
def kind? : Primitive → Option NumericKind
  | .byte => some .byte
  | .short => some .short
  | .int => some .int
  | .long => some .long
  | .float => some .float
  | .double => some .double
  | _ => Option.none

@[simp] theorem kind?_primitive (k : NumericKind) : k.primitive.kind? = some k := by
  cases k <;> rfl

end Primitive

end BasicScript
