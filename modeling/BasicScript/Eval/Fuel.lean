import BasicScript.Eval.Expr
import BasicScript.Eval.Stmt

/-! # Closing the rules

Each unit of fuel lets the rules nest once more. A run that ends within its
fuel ends in the same way with more of it.
-/

namespace BasicScript

namespace Evaluator

/-- The evaluator that may nest its rules `fuel` deep. -/
def ofFuel (library : Library) : Nat → Evaluator
  | 0 => exhausted library
  | fuel + 1 =>
    { library := library
      rounds := fuel
      eval := fun hint e => (ofFuel library fuel).expr hint e
      exec := fun s => (ofFuel library fuel).stmt s
      default := fun t => (ofFuel library fuel).defaultValue t
      invoke := fun name args => (ofFuel library fuel).callValues name args }

end Evaluator

end BasicScript
