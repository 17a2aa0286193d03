import BasicScript.Error.Fault
import BasicScript.Number.Arithmetic

/-! # Binary operators on values

Equality, order, concatenation, arithmetic and logic of two values that are at
hand. Operators that name a variable, a type or a member have no meaning here.
-/

namespace BasicScript

namespace BinaryOp

variable (σ : Store)

/-- The fault of a left operand. -/
def leftFault (op : BinaryOp) (v : Value) : Fault := .invalidLeft op.symbol (σ.typeOf? v)

/-- The fault of a right operand. -/
def rightFault (op : BinaryOp) (v : Value) : Fault := .invalidRight op.symbol (σ.typeOf? v)

/-- Order of two values: of numbers on the ladder, of characters and strings by code points.
Where there is none, the fault is with the right operand if the left one has an order. -/
def compare (op : BinaryOp) : Value → Value → Except Fault (Option Ordering)
  | .number a, .number b => .ok (a.compare? b)
  | .char a, .char b => .ok (some (Ord.compare a.toNat b.toNat))
  | .string a, .string b => .ok (some (compareOfLessAndEq a b))
  | .number _, w | .char _, w | .string _, w => .error (op.rightFault σ w)
  | v, _ => .error (op.leftFault σ v)

/-- Truth of an ordering operator; nothing holds of operands without an order. -/
def ordered (op : BinaryOp) (holds : Ordering → Bool) (v w : Value) : Except Fault Value :=
  match op.compare σ v w with
  | .ok order => .ok (.bool (order.any holds))
  | .error f => .error f

/-- Result of an arithmetic operator. -/
def arithmetic (op : BinaryOp) (arith : ArithOp) : Value → Value → Except Fault Value
  | .number a, .number b =>
    match Number.arith? arith a b with
    | some n => .ok (.number n)
    | none => .error .divisionByZero
  | .number _, w => .error (op.rightFault σ w)
  | v, _ => .error (op.leftFault σ v)

/-- Result of a logical operator. -/
def logical (op : BinaryOp) (f : Bool → Bool → Bool) : Value → Value → Except Fault Value
  | .bool a, .bool b => .ok (.bool (f a b))
  | .bool _, w => .error (op.rightFault σ w)
  | v, _ => .error (op.leftFault σ v)

/-- Result of an operator on two values. -/
def apply (op : BinaryOp) (v w : Value) : Except Fault Value :=
  match op with
  | .equal => .ok (.bool (σ.equal v w))
  | .notEqual => .ok (.bool !σ.equal v w)
  | .less => op.ordered σ Ordering.isLT v w
  | .lessEqual => op.ordered σ Ordering.isLE v w
  | .greater => op.ordered σ Ordering.isGT v w
  | .greaterEqual => op.ordered σ Ordering.isGE v w
  | .concat => .ok (.string (σ.text v ++ σ.text w))
  | .add => op.arithmetic σ .add v w
  | .subtract => op.arithmetic σ .subtract v w
  | .multiply => op.arithmetic σ .multiply v w
  | .divide => op.arithmetic σ .divide v w
  | .modulus => op.arithmetic σ .modulus v w
  | .and => op.logical σ Bool.and v w
  | .or => op.logical σ Bool.or v w
  | .assign | .swap | .is | .isNot | .as | .dot => .error (op.leftFault σ v)

/-- Whether the views that an operator takes of two values end. -/
def ends (op : BinaryOp) (v w : Value) : Bool :=
  match op with
  | .equal | .notEqual => σ.equalEnds v w
  | .concat => σ.textEnds v && σ.textEnds w
  | _ => true

end BinaryOp

end BasicScript
