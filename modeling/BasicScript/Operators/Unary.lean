import BasicScript.Run.Basic

/-! # Unary operators on values

Negation, length, text, and the parts of composites and enum entries.
-/

namespace BasicScript

namespace UnaryOp

/-- The fault of the operand. -/
def operandFault (op : UnaryOp) (v : Value) : Run Value := Run.failOn (.invalidLeft op.symbol) v

/-- A length as a value of kind `int`. -/
def lengthValue (n : Nat) : Run Value :=
  if n < Nat.pow 2 31 then pure (.int n) else Run.fail (.custom "length does not fit in `int`")

/-- Result of an operator on a value. -/
def apply : UnaryOp → Value → Run Value
  | .negate, .number n => pure (.number n.negate)
  | .not, .bool b => pure (.bool !b)
  | .length, .string s => lengthValue s.length
  | .length, .array id => do lengthValue (← Run.read fun s => (s.store.block id).values.size)
  | .stringify, v => do return .string (← Run.text v)
  | .unwrap, .entry _ _ _ v => pure v
  | .unwrap, .data _ cells => do
    Run.newArray (.prim .any) (← Run.read fun s => cells.map s.store.read)
  | op, v => op.operandFault v

end UnaryOp

end BasicScript
