import BasicScript.Eval.Declaration

/-! # Statements

The forms of statements. Bodies run in scopes of their own; loops, `do` blocks
and switches take the signals that are aimed at them and pass on the others.
-/

namespace BasicScript

namespace Evaluator

variable (r : Evaluator)

/-- Evaluates a test, which must be a truth value. -/
def test (e : Expr) : Run Bool := do
  match ← r.eval none e with
  | .bool b => pure b
  | v => Run.atSpan e.span (do Run.fail (.invalidTest (← Run.typeOf v)))

/-- Runs the body of the first branch whose test holds. -/
def branches (otherwise : Option (List Stmt)) : List Branch → Run Flow
  | [] =>
    match otherwise with
    | some body => r.scopedBlock body
    | none => pure .normal
  | .mk test body :: rest => do
    if ← r.test test then r.scopedBlock body else branches otherwise rest

/-- Whether one of the listed values equals the subject of a switch. -/
def anyEqual (subject : Value) : List Expr → Run Bool
  | [] => pure false
  | e :: rest => do
    let v ← r.eval none e
    Run.ending (·.equalEnds subject v)
    if ← Run.read fun s => s.store.equal subject v then pure true else anyEqual subject rest

/-- Whether a case is chosen. -/
def caseMatches (subject : Value) : CaseTest → Run Bool
  | .values values => r.anyEqual subject values
  | .type written inverted => do
    let t ← r.resolveType written
    Run.read fun s => t.admits s.store subject != inverted
  | .otherwise => pure true

/-- Runs the first case that is chosen, and others after it where a case asks for that. -/
def cases (label : Option String) (subject : Value) : List Case → Run Flow
  | [] => pure .normal
  | .mk test body :: rest => do
    if ← r.caseMatches subject test then
      match (← r.scopedBlock body).caseStep label with
      | .done => pure .normal
      | .onward => cases label subject rest
      | .pass s => pure (.signal s)
    else cases label subject rest

/-- One round of a loop that tests first. -/
def whileStep (label : Option String) (test : Expr) (body : List Stmt) : Run LoopStep := do
  if ← r.test test then return (← r.scopedBlock body).loopStep label else pure .stop

/-- One round of a loop that tests last. -/
def untilStep (label : Option String) (test : Expr) (body : List Stmt) : Run LoopStep := do
  match (← r.scopedBlock body).loopStep label with
  | .again => return if ← r.test test then .stop else .again
  | step => pure step

/-- One round of a counting loop, with its test and its increment. -/
def countStep (label : Option String) (test increment : Expr) (body : List Stmt) :
    Run LoopStep := do
  match ← r.whileStep label test body with
  | .again => do
    let _ ← r.eval none increment
    pure .again
  | step => pure step

/-- A counting loop. The counter is a variable of a scope around the body; `name < limit` is
tested before each round and `name = name + step` is evaluated after it. -/
def countLoop (label : Option String) (name : String) (type : TypeExpr) (start limit : Expr)
    (step : Option Expr) (body : List Stmt) : Run Flow :=
  let counter := Expr.generated (.name name)
  let test := Expr.mk (.binary .less counter limit) limit.span
  let next := Expr.generated (.binary .add counter (step.getD (.generated (.literal (.int 1)))))
  let increment := Expr.mk (.binary .assign counter next) start.span
  Run.inScope do
    let t ← r.resolveType type
    let v ← r.eval t.hint? start
    bind name t v false
    Run.loop (r.countStep label test increment body) r.rounds

/-- One round of a loop over values. -/
def eachStep (label : Option String) (name : String) (t : Ty) (body : List Stmt) (v : Value) :
    Run LoopStep := do
  let flow ← Run.inScope do
    bind name t v false
    r.block body
  return flow.loopStep label

/-- One round of a loop that takes its values apart. -/
def eachOfStep (label : Option String) (names : List (String × TypeExpr)) (body : List Stmt)
    (v : Value) : Run LoopStep := do
  let vs ← Run.elementsOf v
  let flow ← Run.inScope do
    r.bindAll names vs false
    r.block body
  return flow.loopStep label

/-- Executes a form of statement. -/
def stmtKind : StmtKind → Run Flow
  | .none => pure .normal
  | .expression e => do
    let _ ← r.eval none e
    pure .normal
  | .declare name type init constant => do
    r.declareVariable name type init constant
    pure .normal
  | .declareEach names init constant => do
    let v ← r.eval none init
    r.bindAll names (← Run.elementsOf v) constant
    pure .normal
  | .block body => r.scopedBlock body
  | .doBlock label body => do return (← r.scopedBlock body).afterBlock label
  | .ifElse branches otherwise => r.branches otherwise branches
  | .switch label subject cases => do
    let v ← r.eval none subject
    r.cases label v cases
  | .whileLoop label test body => Run.loop (r.whileStep label test body) r.rounds
  | .untilLoop label test body => Run.loop (r.untilStep label test body) r.rounds
  | .forCount label name type start limit step body =>
    r.countLoop label name type start limit step body
  | .forEach label name type iterable body => do
    let t ← r.resolveType type
    Run.forValues (r.eachStep label name t body) (← r.iterationValues iterable)
  | .forEachOf label names iterable body => do
    Run.forValues (r.eachOfStep label names body) (← r.iterationValues iterable)
  | .data name fields => do
    r.declareData name fields
    pure .normal
  | .sub d => do
    r.declareSub d
    pure .normal
  | .alias name type => do
    r.declareAlias name type
    pure .normal
  | .enum name kind entries => do
    r.declareEnum name kind entries
    pure .normal
  | .breakTo label => pure (.signal (.breakTo label))
  | .nextTo label => pure (.signal (.nextTo label))
  | .leave => pure (.signal .leave)
  | .yield e => do
    let expected ← Run.read fun s => s.returns.head?
    let v ← r.eval (expected.bind Ty.hint?) e
    pure (.signal (.yield v))

/-- Executes a statement; an error leaves it with a note of the statement. -/
def stmt (s : Stmt) : Run Flow := Run.traced s.kind.describe s.span (r.stmtKind s.kind)

end Evaluator

end BasicScript
