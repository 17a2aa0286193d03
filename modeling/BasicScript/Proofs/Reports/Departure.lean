import BasicScript.Eval.Fuel
import BasicScript.Proofs.Control.Exits

/-! # Departures

An error departs from the statements and from the calls that it leaves, one
after the other. The rules are read here with a note of one's own choice at
each departure, in the place of the description and the span of a statement.
With the usual notes this is the evaluator as it is; other notes show which
executions an error went through.
-/

namespace BasicScript

/-- What an error can leave: an execution of a statement, or a call that was entered; with the
state in which it began. -/
inductive Departure where
  | statement (stmt : Stmt) (start : State)
  | call (sub : Sub) (span : Span) (start : State)

namespace Departure

/-- The entry of a trace that stands for a departure; calls have none. -/
def entry? : Departure → Option TraceEntry
  | .statement stmt _ => some ⟨stmt.kind.describe, stmt.span⟩
  | .call .. => none

/-- The call that is departed from. -/
def frame? : Departure → Option CallFrame
  | .statement .. => none
  | .call sub span _ => some ⟨sub.signature, span⟩

/-- Calls among departures. -/
def frames (path : List Departure) : List CallFrame := path.filterMap frame?

/-- The state in which the execution or the call began. -/
def start : Departure → State
  | .statement _ start | .call _ _ start => start

end Departure

/-- What is noted in the trace at a departure. -/
abbrev Notes := Departure → List TraceEntry

/-- The usual notes. -/
def Notes.usual : Notes := fun d => d.entry?.toList

/-- Notes a departure in the error that a run stops with. -/
def Run.noting {α : Type} (ν : Notes) (departure : State → Departure) (x : Run α) : Run α :=
  fun s => mapReport (fun e => { e with trace := e.trace ++ ν (departure s) }) x s

/-- Notes the departure from a call where the call is entered. -/
abbrev Notes.enter (ν : Notes) (sub : Sub) (span : Span) (x : Run Value) : Run Value :=
  Run.noting ν (.call sub span) x

namespace Evaluator

variable (r : Evaluator)

section Entering

/-! ## Calls with something done where they are entered -/

variable (enter : Sub → Span → Run Value → Run Value)

/-- Calls an overload whose parameters have their values. -/
def callSubBy (sub : Sub) (bound : List Value) (span : Span) : Run Value :=
  Run.asCall ⟨sub.signature, span⟩
    (enter sub span (if sub.native then r.callNative sub bound else r.runBody sub bound))

/-- Calls a sub by name. -/
def callPendingBy (name : String) (args : List Pending) (span : Span) : Run Value := do
  let (sub, bound) ← r.resolveOverload name args
  r.callSubBy enter sub bound span

/-- Calls a sub by name with values. -/
def callValuesBy (name : String) (values : List Value) : Run Value :=
  r.callPendingBy enter name (values.map .ready) .nowhere

/-- Evaluates a call expression; a receiver comes before the arguments. -/
def callExprBy (name : String) (receiver : Option Value) (args : List Argument) (span : Span) :
    Run Value := do
  let pending ← r.arguments args
  r.callPendingBy enter name ((receiver.map .ready).toList ++ pending) span

/-- A member, or a call with a receiver. -/
def dotExprBy (left right : Expr) : Run Value := do
  let target ← r.eval none left
  match right.kind with
  | .invoke name args => r.callExprBy enter name (some target) args right.span
  | .name member => getMember target member
  | _ =>
    let w ← r.eval none right
    Run.atSpan right.span (Run.failOn (.invalidRight BinaryOp.dot.symbol) w)

/-- Evaluates an expression; calls are the only forms that enter anything. -/
def exprBy (hint : Option Ty) (e : Expr) : Run Value :=
  Run.atSpan e.span <|
    match e.kind with
    | .invoke name args => r.callExprBy enter name none args e.span
    | .binary .dot left right => r.dotExprBy enter left right
    | kind => r.exprKind hint e.span kind

variable {r enter} (h : ∀ sub span x, enter sub span x = x)

include h

theorem callPendingBy_eq (name : String) (args : List Pending) (span : Span) :
    r.callPendingBy enter name args span = r.callPending name args span := by
  simp only [callPendingBy, callPending, callSubBy, callSub, h]

theorem callExprBy_eq (name : String) (receiver : Option Value) (args : List Argument)
    (span : Span) :
    r.callExprBy enter name receiver args span = r.callExpr name receiver args span := by
  simp only [callExprBy, callExpr, callPendingBy_eq h]

theorem dotExprBy_eq (left right : Expr) :
    r.dotExprBy enter left right = r.dotExpr left right := by
  refine congrArg (r.eval none left >>= ·) (funext fun target => ?_)
  cases right.kind with
  | invoke name args => exact callExprBy_eq h name (some target) args right.span
  | _ => rfl

theorem exprBy_eq (hint : Option Ty) (e : Expr) : r.exprBy enter hint e = r.expr hint e := by
  unfold exprBy expr
  congr 1
  split
  · next hkind => rw [hkind, callExprBy_eq h, exprKind]
  · next hkind => rw [hkind, dotExprBy_eq h, exprKind, binaryExpr]
  · rfl

end Entering

/-- The evaluator that notes departures in a way of its own. -/
def noting (library : Library) (ν : Notes) : Nat → Evaluator
  | 0 => exhausted library
  | fuel + 1 =>
    { library := library
      rounds := fuel
      eval := fun hint e => (noting library ν fuel).exprBy ν.enter hint e
      exec := fun s => Run.noting ν (.statement s) ((noting library ν fuel).stmtKind s.kind)
      default := fun t => (noting library ν fuel).defaultValue t
      invoke := fun name args => (noting library ν fuel).callValuesBy ν.enter name args }

/-- With the usual notes nothing changes. -/
theorem noting_usual (library : Library) (fuel : Nat) :
    noting library .usual fuel = ofFuel library fuel := by
  have henter : ∀ (sub : Sub) (span : Span) (x : Run Value), Notes.usual.enter sub span x = x := by
    intro sub span x
    funext s
    unfold Notes.enter Run.noting Run.mapReport
    cases hx : x s with
    | ok a t => rfl
    | error e t =>
      cases e with
      | outOfFuel => rfl
      | error e => simp [Stop.mapReport, Notes.usual, Departure.entry?]
  induction fuel with
  | zero => rfl
  | succ fuel ih =>
    simp only [noting, ofFuel, ih, exprBy_eq henter, callValuesBy, callPendingBy_eq henter]
    rfl

end Evaluator

end BasicScript
