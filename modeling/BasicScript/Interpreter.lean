import BasicScript.Eval.Fuel
import BasicScript.Library.Core

/-! # The interpreter

What a host can ask of an interpreter: to run programs, to execute and
evaluate parts of them, and to look at variables. Programs run in the global
scope and leave their declarations there.
-/

namespace BasicScript

/-- How a program ended. -/
inductive Outcome where
  /-- At the end of the program, or at a `return` outside of subs. -/
  | completed
  | yielded (value : Value)

namespace Evaluator

variable (r : Evaluator)

/-- Executes the core declarations, unless that has been tried before. -/
def loadCore : Run Unit := fun s =>
  match s.core with
  | .pending => (do let _ ← r.block coreDeclarations : Run Unit) { s with core := .loaded }
  | .disabled | .loaded => .ok () s

/-- Runs a program. -/
def run (program : List Stmt) : Run Outcome := do
  r.loadCore
  match ← r.block program with
  | .normal | .signal .leave => pure .completed
  | .signal (.yield v) => pure (.yielded v)
  | .signal s => Run.fail (.unmatchedSignal s.text)

/-- Evaluates an expression in the current scope. -/
def evaluate (e : Expr) : Run Value := do
  r.loadCore
  r.eval none e

end Evaluator

/-- Value of a visible variable. -/
def State.valueOf? (s : State) (name : String) : Option Value :=
  (s.env.cell? name).map s.store.read

end BasicScript
