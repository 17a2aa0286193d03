import BasicScript.Eval.Evaluator

/-! # Types and composite values

Written types are looked up where they are used. Arrays and instances are
built from their elements, each fitted to its place; what is not supplied
comes from a default.
-/

namespace BasicScript

namespace Evaluator

variable (r : Evaluator)

/-- Size of an array type; a negative one admits every length. -/
def arraySize (size : Expr) : Run (Option Nat) := do
  let v ← r.eval none size
  match v.integral? with
  | some n => pure (if 0 ≤ n then some n.toNat else none)
  | none => Run.failOn (.mismatchedType (.prim .int)) v

/-- Looks up a written type in the current scope. -/
def resolveType : TypeExpr → Run Ty
  | .inferred => pure .inferred
  | .prim p => pure (.prim p)
  | .array element none => do return .array (← resolveType element) none
  | .array element (some size) => do
    let t ← resolveType element
    return .array t (← r.arraySize size)
  | .vararg element => do return .vararg (← resolveType element)
  | .named name => do
    Run.require (.undeclared .type name) (← Run.read fun s => s.env.namedType? name)

/-- The value of the element that stands for a field, or the missing value. -/
def suppliedValue (t : Ty) : Option Expr → Run Value
  | some e => r.eval t.hint? e
  | none => pure .empty

/-- The value of a field: the element, its default, or the default of its type. -/
def fieldValue (scope : ScopePath) (field : Field) (element : Option Expr) : Run Value := do
  let supplied ← r.suppliedValue field.type element
  if supplied.isMissing then
    match field.default with
    | some e => Run.inLiveScope scope (r.eval field.type.hint? e)
    | none => r.default field.type
  else pure supplied

/-- Cells for fields, in order, from as many elements as are left. -/
def fieldCells (scope : ScopePath) : List Field → List Expr → Run (List CellId)
  | [], _ => pure []
  | field :: fields, elements => do
    let v ← r.fieldValue scope field elements.head?
    let w ← Run.conform field.type v
    let cell ← Run.newCell ⟨field.type, w, field.constant⟩
    let cells ← fieldCells scope fields elements.tail
    return cell :: cells

/-- An instance of the visible data declaration of a name. -/
def instantiateData (name : String) (elements : List Expr) : Run Value := do
  let decl ← Run.require (.undeclared .data name) (← Run.read fun s => s.env.data? name)
  if decl.fields.length < elements.length then
    Run.fail (.notPartitioned decl.fields.length elements.length)
  return .data decl (← r.fieldCells decl.scope decl.fields elements)

/-- An array from elements, filled up to the size if there is one. -/
def instantiateArray (element : Ty) (size : Option Nat) (elements : List Expr) : Run Value := do
  let count := size.getD elements.length
  if count < elements.length then Run.fail (.mismatchedSize count elements.length)
  let given ← elements.mapM fun e => do Run.conform element (← r.eval element.hint? e)
  let filler ← (List.replicate (count - elements.length) element).mapM r.default
  Run.newArray element (given ++ filler)

/-- A value of a composite type from its elements. -/
def instantiate : Ty → List Expr → Run Value
  | .data name, elements => r.instantiateData name elements
  | .array element size, elements => r.instantiateArray element size elements
  | .vararg element, elements => r.instantiateArray element none elements
  | t, _ => Run.fail (.notComposite t)

/-- An array literal; its elements share the type that all of them have in common. -/
def arrayLiteral (hint : Option Ty) (elements : List Expr) : Run Value := do
  let typed ← elements.mapM fun e => do
    let v ← r.eval hint e
    return (v, ← Run.require .cannotInfer (← Run.typeOf v))
  let element :=
    match typed with
    | [] => .prim .any
    | (_, t) :: rest => rest.foldl (fun t p => t.common p.2) t
  let values ← typed.mapM fun p => Run.conform element p.1
  Run.newArray element values

/-- The value of a type that stands for none given. -/
def defaultValue : Ty → Run Value
  | .prim .any | .prim .none => pure .none
  | .prim .bool => pure (.bool false)
  | .prim .char => pure (.char '\x00')
  | .prim .string => pure (.string "")
  | .prim p =>
    match p.kind? with
    | some k => pure (.number (.ofInt 0 k))
    | none => Run.fail (.noDefault (.prim p))
  | .inferred => Run.fail (.noDefault .inferred)
  | .array element size => do
    Run.newArray element (← (List.replicate (size.getD 0) element).mapM r.default)
  | .vararg element => Run.newArray element []
  | .data name => r.instantiateData name []
  | .enum name => do
    let decl ← Run.require (.undeclared .enum name) (← Run.read fun s => s.env.enum? name)
    Run.require (.noDefault (.enum name)) decl.values.head?

/-- The values that a `for` loop walks: the elements of a sequence, or the entries of an enum
that is named by a type. -/
def iterationValues (iterable : Expr) : Run (List Value) := do
  match iterable.kind with
  | .type written =>
    match ← r.resolveType written with
    | .enum name =>
      let decl ← Run.require (.undeclared .enum name) (← Run.read fun s => s.env.enum? name)
      pure decl.values
    | _ => Run.elementsOf (← r.eval none iterable)
  | _ => Run.elementsOf (← r.eval none iterable)

end Evaluator

end BasicScript
