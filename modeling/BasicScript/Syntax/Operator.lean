/-! # Operators

Symbols of the operators, and the names of the subs that a composite operand
hands an operator over to.
-/

namespace BasicScript

/-- Operators with two operands. -/
inductive BinaryOp where
  | assign
  | swap
  | or
  | and
  | equal
  | notEqual
  | less
  | lessEqual
  | greater
  | greaterEqual
  | is
  | isNot
  | concat
  | add
  | subtract
  | multiply
  | divide
  | modulus
  | as
  | dot
  deriving DecidableEq, Repr

/-- Operators with one operand. -/
inductive UnaryOp where
  | negate
  | not
  | length
  | stringify
  | unwrap
  deriving DecidableEq, Repr

namespace BinaryOp

/-- Spelling in error messages. -/
def symbol : BinaryOp → String
  | .assign => "="
  | .swap => "<>"
  | .or => "or"
  | .and => "and"
  | .equal => "=="
  | .notEqual => "!="
  | .less => "<"
  | .lessEqual => "<="
  | .greater => ">"
  | .greaterEqual => ">="
  | .is => "is"
  | .isNot => "is not"
  | .concat => "&"
  | .add => "+"
  | .subtract => "-"
  | .multiply => "*"
  | .divide => "/"
  | .modulus => "%"
  | .as => "as"
  | .dot => "."

/-- The sub that a composite left operand calls instead; only arithmetic can be overloaded. -/
def subName? : BinaryOp → Option String
  | .add => some "add"
  | .subtract => some "subtract"
  | .multiply => some "multiply"
  | .divide => some "divide"
  | .modulus => some "modulus"
  | _ => none

/-- The four operators that compare by order. -/
def isOrdering : BinaryOp → Bool
  | .less | .lessEqual | .greater | .greaterEqual => true
  | _ => false

end BinaryOp

namespace UnaryOp

/-- Spelling in error messages. -/
def symbol : UnaryOp → String
  | .negate => "-"
  | .not => "not"
  | .length => "length"
  | .stringify => "stringify"
  | .unwrap => "unwrap"

/-- The sub that a composite operand calls instead. -/
def subName? : UnaryOp → Option String
  | .negate => some "negate"
  | .length => some "length"
  | .stringify => some "stringify"
  | .not | .unwrap => none

end UnaryOp

end BasicScript
