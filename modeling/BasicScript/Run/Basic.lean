import BasicScript.Control.Signal
import BasicScript.Run.State
import BasicScript.Types.Cast
import BasicScript.Types.Coercion

/-! # Runs

A run reads and changes the state, and ends with a result, an error, or for
want of fuel. The state survives an error, so that what was printed and stored
before it stays; scopes and calls are left again on every way out.
-/

namespace BasicScript

/-- Why a run stopped short. -/
inductive Stop where
  | error (report : Report)
  | outOfFuel

/-- Applies a change to the report of an error. -/
def Stop.mapReport (f : Report → Report) : Stop → Stop
  | .error e => .error (f e)
  | .outOfFuel => .outOfFuel

/-- Computations over the state of an interpreter. -/
abbrev Run := EStateM Stop State

namespace Run

variable {α : Type}

/-- Stops with a fault. -/
def fail (f : Fault) : Run α := fun s => .error (.error (.ofFault f)) s

/-- Stops with an error that has been under way. -/
def stop (e : Report) : Run α := fun s => .error (.error e) s

/-- Stops for want of fuel. -/
def exhausted : Run α := fun s => .error .outOfFuel s

/-- The value of an option, or a fault. -/
def require (f : Fault) : Option α → Run α
  | some a => pure a
  | none => fail f

/-- Reads from the state. -/
def read (f : State → α) : Run α := fun s => .ok (f s) s

/-- Applies a change to the error that a run stops with. -/
def mapReport (f : Report → Report) (x : Run α) : Run α := fun s =>
  match x s with
  | .ok a s' => .ok a s'
  | .error e s' => .error (e.mapReport f) s'

/-- Notes a span in the error that a run stops with. -/
def atSpan (span : Span) (x : Run α) : Run α := mapReport (·.orSpan span) x

/-- Notes a statement in the error that a run stops with. -/
def traced (what : String) (span : Span) (x : Run α) : Run α := mapReport (·.traced what span) x

/-- Goes on after a result, and after an error; nothing goes on after want of fuel. -/
def either {β : Type} (x : Run α) (onResult : α → Run β) (onError : Report → Run β) : Run β :=
  fun s =>
    match x s with
    | .ok a s' => onResult a s'
    | .error (.error e) s' => onError e s'
    | .error .outOfFuel s' => .error .outOfFuel s'

/-- Changes the state back on the way out, whatever the outcome. -/
def leaving (restore : State → State) (x : Run α) : Run α := fun s =>
  match x s with
  | .ok a s' => .ok a (restore s')
  | .error e s' => .error e (restore s')

/-- Leaves the innermost scope. -/
def popScope (s : State) : State := { s with env := s.env.pop }

/-- Runs in a fresh scope below the current one. -/
def inScope (x : Run α) : Run α := fun s => leaving popScope x { s with env := s.env.push }

/-- Runs in a fresh scope below a path. -/
def inScopeBelow (path : ScopePath) (x : Run α) : Run α := fun s =>
  leaving popScope x { s with env := s.env.pushBelow path }

/-- Runs in a fresh scope below one that must still be reached. -/
def inLiveScope (path : ScopePath) (x : Run α) : Run α := fun s =>
  if s.env.isLive path then inScopeBelow path x s else fail .noActiveScope s

/-- Leaves the innermost call. -/
def popCall (s : State) : State := { s with calls := s.calls.pop }

/-- Runs as a call; an error on its way out notes the active calls. -/
def asCall (frame : CallFrame) (x : Run α) : Run α := fun s =>
  match s.calls.push frame with
  | .error f => .error (.error ((Report.ofFault f).orSpan frame.span)) s
  | .ok calls =>
    match x { s with calls := calls } with
    | .ok a s' => .ok a (popCall s')
    | .error e s' => .error (e.mapReport (·.withBacktrace s'.calls.frames)) (popCall s')

/-- Leaves the innermost return type. -/
def popReturns (s : State) : State := { s with returns := s.returns.tail }

/-- Runs with a type that `yield` is aimed at. -/
def returning (t : Ty) (x : Run α) : Run α := fun s =>
  leaving popReturns x { s with returns := t :: s.returns }

/-- Type of a value. -/
def typeOf (v : Value) : Run (Option Ty) := read fun s => s.store.typeOf? v

/-- Goes on where a view of values ends. A view without an end would take more than any fuel. -/
def ending (ends : Store → Bool) : Run Unit := fun s =>
  if ends s.store then .ok () s else exhausted s

/-- Text of a value. -/
def text (v : Value) : Run String := do
  ending (·.textEnds v)
  read fun s => s.store.text v

/-- Stops with a fault about the type of a value. -/
def failOn (f : Option Ty → Fault) (v : Value) : Run α := do fail (f (← typeOf v))

/-- The visible variable of a name. -/
def cellOf (name : String) : Run CellId := do
  require (.undeclared .variable name) (← read fun s => s.env.cell? name)

/-- Elements of a sequence. -/
def elementsOf (v : Value) : Run (List Value) := do
  match ← read fun s => s.store.elements? v with
  | some vs => pure vs
  | none => failOn .notIterable v

/-- Position that an index stands for. -/
def position (index : Value) : Run Nat := do
  match index.integral? with
  | some n => if 0 ≤ n then pure n.toNat else fail (.invalidIndex (← text index))
  | none => fail (.invalidIndex (← text index))

/-- The value at a position, or a fault that shows the index. -/
def atIndex (index : Value) : Option α → Run α
  | some a => pure a
  | none => do fail (.invalidIndex (← text index))

/-- Adds an array. -/
def newArray (element : Ty) (values : List Value) : Run Value := fun s =>
  let (id, store) := s.store.newArray element values
  .ok (.array id) { s with store := store }

/-- Adds a cell. -/
def newCell (c : Cell) : Run CellId := fun s =>
  let (id, store) := s.store.newCell c
  .ok id { s with store := store }

/-- Fits a value to a typed place; a value that is not admitted is a fault. -/
def fit (t : Ty) (v : Value) (rejected : Mismatch → Option Ty → Fault) : Run Value := fun s =>
  match t.conform s.store v with
  | .ok (w, store) => .ok w { s with store := store }
  | .error m => fail (rejected m (s.store.typeOf? v)) s

/-- Fits a value to a typed place. -/
def conform (t : Ty) (v : Value) : Run Value := fit t v fun m got => .ofMismatch t got m

/-- Casts a value to a type. -/
def cast (t : Ty) (v : Value) : Run Value := do
  ending fun σ => t.castEnds σ v
  fun s =>
    match t.cast s.store v with
    | some (w, store) => .ok w { s with store := store }
    | none => fail (.invalidCast (s.store.typeOf? v) t) s

/-- Changes the store. -/
def modifyStore (f : Store → Store) : Run Unit := fun s => .ok () { s with store := f s.store }

/-- Changes the scopes, if the current one takes the declaration of an entity. -/
def declare (entity : Entity) (name : String) (takes : Environment → Bool)
    (add : Environment → Environment) : Run Unit := fun s =>
  if takes s.env then .ok () { s with env := add s.env }
  else fail (.alreadyDeclared entity name) s

/-- Declares a variable in the current scope. -/
def declareVariable (name : String) (c : Cell) : Run CellId := fun s =>
  if s.env.takesVariable name then
    let (id, store) := s.store.newCell c
    .ok id { s with store := store, env := s.env.addVariable name id }
  else fail (.alreadyDeclared .variable name) s

end Run

end BasicScript
