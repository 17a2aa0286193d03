import BasicScript.Eval.Evaluator

/-! # Calls

Arguments are evaluated once, from left to right, before any overload is
looked at. An overload must fit their number, then their types; those with
fewer parameters are tried first. Defaults are evaluated for the overload that
was chosen, and for no other.
-/

namespace BasicScript

/-- An argument at the time when an overload is chosen. -/
inductive Pending where
  | ready (value : Value)
  /-- A composite literal that takes its type from the parameter. -/
  | deferred (literal : Expr)

/-- Whether an argument is the empty value. -/
def Pending.isMissing : Pending → Bool
  | .ready v => v.isMissing
  | .deferred _ => false

/-- Whether an expression is a composite literal without a type. -/
def Expr.isUntyped (e : Expr) : Bool :=
  match e.kind with
  | .instantiate none _ => true
  | _ => false

namespace Sub

/-- Puts an overload before the first that has at least as many parameters. -/
def insertByArity (sub : Sub) : List Sub → List Sub
  | [] => [sub]
  | other :: rest =>
    if sub.params.length ≤ other.params.length then sub :: other :: rest
    else other :: insertByArity sub rest

/-- Overloads in the order of their numbers of parameters; ties stay in place. -/
def byArity (subs : List Sub) : List Sub := subs.foldr insertByArity []

end Sub

namespace Evaluator

variable (r : Evaluator)

/-- Evaluates an argument of a call; a spread one becomes several. -/
def argument : Argument → Run (List Pending)
  | .mk true e => do
    let v ← r.eval none e
    let vs ← Run.atSpan e.span (Run.elementsOf v)
    return vs.map .ready
  | .mk false e => do
    if e.isUntyped then return [.deferred e]
    return [.ready (← r.eval none e)]

/-- Evaluates the arguments of a call. -/
def arguments : List Argument → Run (List Pending)
  | [] => pure []
  | arg :: rest => do
    let here ← r.argument arg
    return here ++ (← arguments rest)

/-- Value of an argument for a place of a type. -/
def argumentValue (t : Ty) : Pending → Run Value
  | .ready v => pure v
  | .deferred e => r.eval t.hint? e

/-- Fits an argument to a parameter. An empty argument counts as not supplied, unless the type of
the parameter is that of a tail. -/
def bindArgument (p : Parameter) : Option Pending → Run (Option Value)
  | none => pure none
  | some arg => do
    if arg.isMissing && !p.isVararg then return none
    return some (← Run.conform p.type (← r.argumentValue p.type arg))

/-- Fits arguments to the parameters that take one each. -/
def bindFixed : List Parameter → List Pending → Run (List (Option Value))
  | [], _ => pure []
  | p :: ps, args => do
    let slot ← r.bindArgument p args.head?
    return slot :: (← bindFixed ps args.tail)

/-- Fits all arguments to an overload; the tail becomes one array. -/
def bindArguments (sub : Sub) (args : List Pending) : Run (List (Option Value)) := do
  let slots ← r.bindFixed sub.fixed args
  match sub.vararg? with
  | none => pure slots
  | some p =>
    let element := p.type.element?.getD (.prim .any)
    let tail ← (args.drop sub.fixed.length).mapM fun arg => do
      Run.conform element (← r.argumentValue element arg)
    return slots ++ [some (← Run.newArray element tail)]

/-- The default of a parameter: its expression below the scope of the declaration, or else the
default of its type. -/
def parameterDefault (sub : Sub) (p : Parameter) : Run Value :=
  match p.default with
  | some e => Run.inLiveScope sub.scope (r.eval p.type.hint? e)
  | none => r.default p.type

/-- The value for a place: what was bound to it, or else the default. -/
def filled (sub : Sub) (p : Parameter) : Option Value → Run Value
  | some v => pure v
  | none => do Run.conform p.type (← r.parameterDefault sub p)

/-- Fills the places that the arguments left open. -/
def fillDefaults (sub : Sub) : List Parameter → List (Option Value) → Run (List Value)
  | p :: ps, slot :: slots => do
    let v ← r.filled sub p slot
    return v :: (← fillDefaults sub ps slots)
  | _, _ => pure []

/-- The first overload that takes the arguments, with all its values. A fault about types drops
an overload, any other error ends the search. -/
def firstAccepting (name : String) (args : List Pending) : List Sub → Run (Sub × List Value)
  | [] => Run.fail (.unresolvedTypes name)
  | sub :: rest =>
    Run.either (r.bindArguments sub args)
      (fun slots => do return (sub, ← r.fillDefaults sub sub.params slots))
      fun e => if e.fault.isTypeFault then firstAccepting name args rest else Run.stop e

/-- The visible overloads of a name that fit a number of arguments, in the order in which they
are tried. -/
def fittingOverloads (name : String) (count : Nat) : Run (List Sub) := do
  let candidates ← Run.read fun s => s.env.overloads name
  if candidates.isEmpty then Run.fail (.undeclared .sub name)
  let fitting := candidates.filter (·.fits count)
  if fitting.isEmpty then Run.fail (.unresolvedPositions name)
  return Sub.byArity fitting

/-- Chooses an overload for arguments. -/
def resolveOverload (name : String) (args : List Pending) : Run (Sub × List Value) := do
  r.firstAccepting name args (← fittingOverloads name args.length)

/-- Runs the function of a native sub; its result is tested, never converted. -/
def callNative (sub : Sub) (bound : List Value) : Run Value :=
  match r.library.lookup sub.signature with
  | none => Run.fail (.missingBuiltin sub.signature)
  | some native => do
    let v ← native.function r.invoke bound
    if ← Run.read fun s => sub.returns.admits s.store v then pure v
    else Run.failOn (.mismatchedBuiltin sub.signature sub.returns) v

/-- Declares the parameters of a call. -/
def declareParameters : List Parameter → List Value → Run Unit
  | p :: ps, v :: vs => do
    let _ ← Run.declareVariable p.name ⟨p.type, v, false⟩
    declareParameters ps vs
  | _, _ => pure ()

/-- First value of the result slot: the default of the return type, or the missing value where
that type has none. -/
def initialResult (t : Ty) : Run Value :=
  Run.either (r.default t) pure fun e =>
    match e.fault with
    | .noDefault _ => pure .empty
    | _ => Run.stop e

/-- The result of a call whose body has ended. -/
def bodyResult (sub : Sub) (slot : CellId) : Flow → Run Value
  | .normal | .signal .leave => do
    let v ← Run.read fun s => s.store.read slot
    if v.isMissing then Run.fail (.noYield sub.name) else pure v
  | .signal (.yield v) => Run.fit sub.returns v fun _ => .mismatchedReturn sub.name sub.returns
  | .signal signal => Run.fail (.unmatchedSignal signal.text)

/-- Runs the body of a sub below the scope of its declaration. The result is what the body
yields, or else what its result slot holds, a variable that bears the name of the sub. -/
def runBody (sub : Sub) (bound : List Value) : Run Value :=
  Run.inLiveScope sub.scope do
    declareParameters sub.params bound
    let initial ← r.initialResult sub.returns
    let slot ← Run.declareVariable sub.name ⟨sub.returns, initial, false⟩
    let flow ← Run.returning sub.returns (r.block sub.body)
    bodyResult sub slot flow

/-- Calls an overload whose parameters have their values. -/
def callSub (sub : Sub) (bound : List Value) (span : Span) : Run Value :=
  Run.asCall ⟨sub.signature, span⟩
    (if sub.native then r.callNative sub bound else r.runBody sub bound)

/-- Calls a sub by name. -/
def callPending (name : String) (args : List Pending) (span : Span) : Run Value := do
  let (sub, bound) ← r.resolveOverload name args
  r.callSub sub bound span

/-- Calls a sub by name with values. -/
def callValues (name : String) (values : List Value) : Run Value :=
  r.callPending name (values.map .ready) .nowhere

/-- Evaluates a call expression; a receiver comes before the arguments. -/
def callExpr (name : String) (receiver : Option Value) (args : List Argument) (span : Span) :
    Run Value := do
  let pending ← r.arguments args
  r.callPending name ((receiver.map .ready).toList ++ pending) span

end Evaluator

end BasicScript
