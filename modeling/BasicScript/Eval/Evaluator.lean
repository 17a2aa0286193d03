import BasicScript.Library.Basic
import BasicScript.Run.Assignment

/-! # Evaluators

The rules of the language are written over an evaluator that already knows how
to treat expressions, statements, default values and calls. Closing that loop
costs one unit of fuel for each level of nesting.
-/

namespace BasicScript

/-- What the rules of evaluation start from. -/
structure Evaluator where
  library : Library
  /-- How often the body of a loop may run. -/
  rounds : Nat
  /-- Evaluates an expression; a composite literal may take its type from the context. -/
  eval : Option Ty → Expr → Run Value
  exec : Stmt → Run Flow
  /-- The value of a type that stands for none given. -/
  default : Ty → Run Value
  /-- Calls a sub by name. -/
  invoke : Caller

namespace Evaluator

/-- The evaluator that has no fuel. -/
def exhausted (library : Library) : Evaluator where
  library := library
  rounds := 0
  eval _ _ := Run.exhausted
  exec _ := Run.exhausted
  default _ := Run.exhausted
  invoke _ _ := Run.exhausted

variable (r : Evaluator)

/-- Executes statements in the current scope, up to the first signal. -/
def block : List Stmt → Run Flow
  | [] => pure .normal
  | stmt :: rest => do
    match ← r.exec stmt with
    | .normal => block rest
    | .signal s => pure (.signal s)

/-- Executes statements in a fresh scope. -/
def scopedBlock (body : List Stmt) : Run Flow := Run.inScope (r.block body)

end Evaluator

namespace Run

/-- Repeats a step as long as it asks for it, and at most `rounds` times. -/
def loop (step : Run LoopStep) : Nat → Run Flow
  | 0 => exhausted
  | rounds + 1 => do
    match ← step with
    | .again => loop step rounds
    | .stop => pure .normal
    | .pass s => pure (.signal s)

/-- Takes a step for each value, as long as the steps ask for more. -/
def forValues (step : Value → Run LoopStep) : List Value → Run Flow
  | [] => pure .normal
  | v :: vs => do
    match ← step v with
    | .again => forValues step vs
    | .stop => pure .normal
    | .pass s => pure (.signal s)

end Run

end BasicScript
