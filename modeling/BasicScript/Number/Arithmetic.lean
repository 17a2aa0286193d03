import BasicScript.Number.Basic
import BasicScript.Number.Remainder
import BasicScript.Syntax.Operator

/-! # Arithmetic

Both numbers move up to the wider kind. Whole numbers of all kinds go through
words of 64 bits, which wrap around, and the result is cut down to the width
of the kind; dividing by zero has no result. Numbers with a fraction follow
the binary formats.
-/

namespace BasicScript

/-- The operators of arithmetic. -/
inductive ArithOp where
  | add
  | subtract
  | multiply
  | divide
  | modulus
  deriving DecidableEq, Repr

namespace ArithOp

/-- Result on words, which wrap around; none for a zero divisor. -/
def onWord? : ArithOp → Int64 → Int64 → Option Int64
  | .add, x, y => some (x + y)
  | .subtract, x, y => some (x - y)
  | .multiply, x, y => some (x * y)
  | .divide, x, y => if y = 0 then none else some (x / y)
  | .modulus, x, y => if y = 0 then none else some (x % y)

/-- Result on floats. -/
def onFloat : ArithOp → Float32 → Float32 → Float32
  | .add, x, y => x + y
  | .subtract, x, y => x - y
  | .multiply, x, y => x * y
  | .divide, x, y => x / y
  | .modulus, x, y => float32Remainder x y

/-- Result on doubles. -/
def onDouble : ArithOp → Float → Float → Float
  | .add, x, y => x + y
  | .subtract, x, y => x - y
  | .multiply, x, y => x * y
  | .divide, x, y => x / y
  | .modulus, x, y => floatRemainder x y

end ArithOp

/-- The arithmetic operator among the operators of the language. -/
def BinaryOp.arith? : BinaryOp → Option ArithOp
  | .add => some .add
  | .subtract => some .subtract
  | .multiply => some .multiply
  | .divide => some .divide
  | .modulus => some .modulus
  | _ => none

/-- Result of an operator on two numbers; none for a zero divisor of whole numbers. -/
def Number.arith? (op : ArithOp) (a b : Number) : Option Number :=
  match align a b with
  | .whole x y k => (op.onWord? (.ofInt x) (.ofInt y)).map fun n => ofInt n.toInt k
  | .float x y => some (.float (op.onFloat x y))
  | .double x y => some (.double (op.onDouble x y))

end BasicScript
