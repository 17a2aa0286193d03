import BasicScript.Number.Positional
import BasicScript.Syntax.Primitive

/-! # Numbers

The six numeric kinds and the moves between them. Whole numbers are reduced to
the width of their kind, numbers with a fraction are truncated and clamped to
64 bits before they become whole.
-/

namespace BasicScript

/-- A number of one of the six kinds. -/
inductive Number where
  | byte (value : Int8)
  | short (value : Int16)
  | int (value : Int32)
  | long (value : Int64)
  | float (value : Float32)
  | double (value : Float)

namespace Number

/-- Kind of a number. -/
def kind : Number → NumericKind
  | .byte _ => .byte
  | .short _ => .short
  | .int _ => .int
  | .long _ => .long
  | .float _ => .float
  | .double _ => .double

/-- The whole number denoted; of a number with a fraction, its whole part within 64 bits. -/
def toInt : Number → Int
  | .byte n => n.toInt
  | .short n => n.toInt
  | .int n => n.toInt
  | .long n => n.toInt
  | .float x => x.toFloat.toInt64.toInt
  | .double x => x.toInt64.toInt

/-- The number as a float. -/
def toFloat : Number → Float32
  | .float x => x
  | .double x => x.toFloat32
  | n => (Int64.ofInt n.toInt).toFloat32

/-- The number as a double. -/
def toDouble : Number → Float
  | .float x => x.toFloat
  | .double x => x
  | n => (Int64.ofInt n.toInt).toFloat

/-- The whole number denoted by a number of an integral kind. -/
def integral? (n : Number) : Option Int :=
  if n.kind.isIntegral then some n.toInt else none

/-- The number of a kind that a whole number of 64 bits stands for, reduced to the width. -/
def ofInt (n : Int) : NumericKind → Number
  | .byte => .byte (Int8.ofInt n)
  | .short => .short (Int16.ofInt n)
  | .int => .int (Int32.ofInt n)
  | .long => .long (Int64.ofInt n)
  | .float => .float (Int64.ofInt n).toFloat32
  | .double => .double (Int64.ofInt n).toFloat

/-- The same number in another kind, cut down to what the kind can hold. -/
def convert (n : Number) : NumericKind → Number
  | .float => .float n.toFloat
  | .double => .double n.toDouble
  | k => ofInt n.toInt k

/-- The same number in a kind that is no narrower. -/
def widen? (n : Number) (k : NumericKind) : Option Number :=
  if n.kind ≤ k then some (n.convert k) else none

/-- Two numbers after both have moved up to the wider of their kinds. -/
inductive Aligned where
  | whole (x y : Int) (kind : NumericKind)
  | float (x y : Float32)
  | double (x y : Float)

/-- Moves two numbers up to the wider of their kinds. -/
def align (a b : Number) : Aligned :=
  match a.kind.wider b.kind with
  | .float => .float a.toFloat b.toFloat
  | .double => .double a.toDouble b.toDouble
  | k => .whole a.toInt b.toInt k

/-- Equality on the ladder; not-a-number differs from itself. -/
def equal (a b : Number) : Bool :=
  match align a b with
  | .whole x y _ => x == y
  | .float x y => x == y
  | .double x y => x == y

/-- The one relation that holds, if any does. -/
def ordering? (less equal greater : Bool) : Option Ordering :=
  if less then some .lt else if equal then some .eq else if greater then some .gt else none

/-- Order on the ladder; not-a-number has no place in it. -/
def compare? (a b : Number) : Option Ordering :=
  match align a b with
  | .whole x y _ => some (compare x y)
  | .float x y => ordering? (x < y) (x == y) (y < x)
  | .double x y => ordering? (x < y) (x == y) (y < x)

/-- Identity of kind and number; not-a-number differs from itself. -/
def same : Number → Number → Bool
  | .byte x, .byte y => x == y
  | .short x, .short y => x == y
  | .int x, .int y => x == y
  | .long x, .long y => x == y
  | .float x, .float y => x == y
  | .double x, .double y => x == y
  | _, _ => false

/-- Whether the number is a zero of its kind. -/
def isZero : Number → Bool
  | .byte n => n == 0
  | .short n => n == 0
  | .int n => n == 0
  | .long n => n == 0
  | .float x => x == 0.0
  | .double x => x == 0.0

/-- The opposite number, reduced to the width of its kind. -/
def negate : Number → Number
  | .byte n => .byte (-n)
  | .short n => .short (-n)
  | .int n => .int (-n)
  | .long n => .long (-n)
  | .float x => .float (-x)
  | .double x => .double (-x)

/-- Written form. -/
def text : Number → String
  | .float x => float32Text x
  | .double x => floatText x
  | n => Int.repr n.toInt

@[simp] theorem kind_ofInt (n : Int) (k : NumericKind) : (ofInt n k).kind = k := by
  cases k <;> rfl

@[simp] theorem kind_convert (n : Number) (k : NumericKind) : (n.convert k).kind = k := by
  cases k <;> rfl

@[simp] theorem kind_negate (n : Number) : n.negate.kind = n.kind := by
  cases n <;> rfl

/-- A number that already has the kind stays as it is. -/
theorem convert_kind (n : Number) : n.convert n.kind = n := by
  cases n <;> simp [kind, convert, ofInt, toInt, toFloat, toDouble]

end Number

end BasicScript
