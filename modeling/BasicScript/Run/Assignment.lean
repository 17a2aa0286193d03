import BasicScript.Run.Basic

/-! # Assignment

A value reaches a cell through the declared type of the cell. Constants take
no value after their first, and the missing value is never assigned.
-/

namespace BasicScript

/-- What becomes of a value that is put into a cell. -/
inductive Put where
  | stored (value : Value) (store : Store)
  | rejected (mismatch : Mismatch)
  | constant

/-- Puts a value into a cell through its declared type. -/
def Store.put (σ : Store) (id : CellId) (v : Value) : Put :=
  if (σ.cell id).constant then .constant
  else
    match (σ.cell id).type.conform σ v with
    | .ok (w, σ') => .stored w (σ'.write id w)
    | .error m => .rejected m

namespace Run

/-- Assigns a value to the cell that goes by a name; the answer is the value as it was stored. -/
def assign (id : CellId) (name : String) (v : Value) : Run Value := do
  if v.isMissing then fail .assignedEmpty
  let c ← read fun s => s.store.cell id
  if c.constant then fail (.reassignedConstant name)
  let w ← conform c.type v
  modifyStore (·.write id w)
  pure w

/-- Puts a value into a cell; where it is not accepted, nothing happens. -/
def putBack (id : CellId) (v : Value) (s : State) : State :=
  match s.store.put id v with
  | .stored _ store => { s with store := store }
  | .rejected _ | .constant => s

/-- Exchanges the values of two cells. If the second does not accept its value, the first is
given its old value back. -/
def exchange (a b : CellId) (nameA nameB : String) : Run Value := do
  let va ← read fun s => s.store.read a
  let vb ← read fun s => s.store.read b
  let stored ← assign a nameA vb
  fun s =>
    match assign b nameB va s with
    | .ok _ s' => .ok stored s'
    | .error e s' => .error e (putBack a va s')

end Run

end BasicScript
