import BasicScript.Value.Basic

/-! # The store

Cells hold the values of variables, parameters and fields under a declared
type; arrays hold values under the type of their elements. The store only
grows: a handle stays good for ever, and the declared type of a cell, the
element type of an array and its length never change.
-/

namespace BasicScript

/-- Storage of one variable, parameter or field. -/
structure Cell where
  type : Ty
  value : Value
  constant : Bool

/-- Storage of one array. -/
structure ArrayBlock where
  element : Ty
  values : Array Value

/-- All storage of a run. -/
structure Store where
  cells : Array Cell
  arrays : Array ArrayBlock

namespace Store

/-- The store of a fresh interpreter. -/
def fresh : Store := ⟨#[], #[]⟩

/-- The cell behind a handle. -/
def cell (σ : Store) (id : CellId) : Cell := σ.cells[id.index]?.getD ⟨.prim .any, .none, true⟩

/-- The array behind a handle. -/
def block (σ : Store) (id : ArrayId) : ArrayBlock := σ.arrays[id.index]?.getD ⟨.prim .any, #[]⟩

/-- Value of a cell. -/
def read (σ : Store) (id : CellId) : Value := (σ.cell id).value

/-- Elements of an array. -/
def elements (σ : Store) (id : ArrayId) : List Value := (σ.block id).values.toList

/-- Adds a cell. -/
def newCell (σ : Store) (c : Cell) : CellId × Store :=
  (⟨σ.cells.size⟩, { σ with cells := σ.cells.push c })

/-- Adds an array. -/
def newArray (σ : Store) (element : Ty) (values : List Value) : ArrayId × Store :=
  (⟨σ.arrays.size⟩, { σ with arrays := σ.arrays.push ⟨element, values.toArray⟩ })

/-- Overwrites the value of a cell. -/
def write (σ : Store) (id : CellId) (v : Value) : Store :=
  { σ with cells := σ.cells.modify id.index fun c => { c with value := v } }

/-- Overwrites an element of an array; a place outside the array changes nothing. -/
def setElement (σ : Store) (id : ArrayId) (i : Nat) (v : Value) : Store :=
  { σ with
    arrays := σ.arrays.modify id.index fun b => { b with values := b.values.setIfInBounds i v } }

/-- More than the number of handles that a chain of values without a cycle passes. -/
def depth (σ : Store) : Nat := σ.cells.size + σ.arrays.size + 1

end Store

end BasicScript
