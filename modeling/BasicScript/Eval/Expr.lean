import BasicScript.Eval.Call
import BasicScript.Eval.Composite
import BasicScript.Operators.Binary
import BasicScript.Operators.Unary

/-! # Expressions

The forms of expressions. Operators on a composite left operand are calls of
subs; the remaining ones work on values that are at hand.
-/

namespace BasicScript

namespace Evaluator

variable (r : Evaluator)

/-- Result of an operator on values, as a run. -/
def applyBinary (op : BinaryOp) (v w : Value) : Run Value := do
  Run.ending fun σ => op.ends σ v w
  match ← Run.read fun s => op.apply s.store v w with
  | .ok result => pure result
  | .error f => Run.fail f

/-- A prefix expression. -/
def unaryExpr (op : UnaryOp) (operand : Expr) : Run Value := do
  let v ← r.eval none operand
  match v, op.subName? with
  | .data .., some sub =>
    -- the text of a composite has a form of its own where no sub gives one
    if op != .stringify || (← Run.read fun s => s.env.hasSub sub) then r.invoke sub [v]
    else op.apply v
  | _, _ => op.apply v

/-- An assignment to a variable. -/
def assignExpr (left right : Expr) : Run Value := do
  match left.kind with
  | .name name =>
    let cell ← Run.cellOf name
    let type ← Run.read fun s => (s.store.cell cell).type
    let v ← r.eval type.hint? right
    Run.assign cell name v
  | _ => Run.atSpan left.span (Run.fail .assignedToNonReference)

/-- An exchange of two variables. -/
def swapExpr (left right : Expr) : Run Value := do
  match left.kind, right.kind with
  | .name a, .name b =>
    let cellA ← Run.cellOf a
    let cellB ← Run.cellOf b
    Run.exchange cellA cellB a b
  | _, _ => Run.fail .assignedToNonReference

/-- `and` and `or`; the right operand is evaluated only where the left one does not decide. -/
def logicExpr (op : BinaryOp) (decisive : Bool) (left right : Expr) : Run Value := do
  match ← r.eval none left with
  | .bool a =>
    if a == decisive then pure (.bool decisive)
    else
      match ← r.eval none right with
      | .bool b => pure (.bool b)
      | w => Run.atSpan right.span (Run.failOn (.invalidRight op.symbol) w)
  | v => Run.atSpan left.span (Run.failOn (.invalidLeft op.symbol) v)

/-- The type on the right of `is` and `as`. -/
def typeOperand (op : BinaryOp) (right : Expr) : Run Ty := do
  match right.kind with
  | .type written => Run.atSpan right.span (r.resolveType written)
  | _ =>
    let w ← r.eval none right
    Run.atSpan right.span (do Run.fail (.invalidRight op.symbol (← Run.typeOf w)))

/-- A test whether a value belongs to a type. -/
def isExpr (op : BinaryOp) (expected : Bool) (left right : Expr) : Run Value := do
  let v ← r.eval none left
  let t ← r.typeOperand op right
  return .bool ((← Run.read fun s => t.admits s.store v) == expected)

/-- A cast. -/
def castExpr (left right : Expr) : Run Value := do
  let v ← r.eval none left
  let t ← r.typeOperand .as right
  Run.cast t v

/-- The cell of a field by name. -/
def fieldCell (decl : DataDecl) (cells : List CellId) (member : String) : Run CellId :=
  Run.require (.noMember decl.name member)
    ((decl.fieldIndex? member).bind fun i => cells[i]?)

/-- Reads a field of a composite, or a property of an enum entry. -/
def getMember (target : Value) (member : String) : Run Value := do
  match target with
  | .data decl cells =>
    let cell ← fieldCell decl cells member
    Run.read fun s => s.store.read cell
  | .entry enum name ordinal value =>
    match member with
    | "name" => pure (.string name)
    | "ordinal" => pure (.int (min ordinal (Nat.pow 2 31 - 1)))
    | "value" => pure value
    | _ => Run.fail (.noMember enum member)
  | v => Run.failOn .notAccessed v

/-- A member, or a call with a receiver. -/
def dotExpr (left right : Expr) : Run Value := do
  let target ← r.eval none left
  match right.kind with
  | .invoke name args => r.callExpr name (some target) args right.span
  | .name member => getMember target member
  | _ =>
    let w ← r.eval none right
    Run.atSpan right.span (Run.failOn (.invalidRight BinaryOp.dot.symbol) w)

/-- Operators on two values; a composite on the left calls a sub. -/
def valueExpr (op : BinaryOp) (left right : Expr) : Run Value := do
  let v ← r.eval none left
  let w ← r.eval none right
  match v, op.subName? with
  | .data .., some sub => r.invoke sub [v, w]
  | _, _ => applyBinary op v w

/-- An infix expression. -/
def binaryExpr (op : BinaryOp) (left right : Expr) : Run Value :=
  match op with
  | .assign => r.assignExpr left right
  | .swap => swapExpr left right
  | .and => r.logicExpr .and false left right
  | .or => r.logicExpr .or true left right
  | .is => r.isExpr .is true left right
  | .isNot => r.isExpr .isNot false left right
  | .as => r.castExpr left right
  | .dot => r.dotExpr left right
  | op => r.valueExpr op left right

/-- Reads an element of a sequence. -/
def getIndex (target index : Value) : Run Value := do
  match target with
  | .string s =>
    let i ← Run.position index
    Run.atIndex index (s.toList[i]?.map .char)
  | .array id =>
    let i ← Run.position index
    Run.atIndex index (← Run.read fun s => (s.store.block id).values[i]?)
  | .data _ cells =>
    let i ← Run.position index
    Run.atIndex index (← Run.read fun s => cells[i]?.map s.store.read)
  | v => Run.failOn .notIndexed v

/-- Stores into an array; the place is looked up after the value is known. -/
def setArrayElement (id : ArrayId) (index : Value) (value : Expr) : Run Value := do
  let i ← Run.position index
  let element ← Run.read fun s => (s.store.block id).element
  let v ← r.eval element.hint? value
  let w ← Run.conform element v
  if i < (← Run.read fun s => (s.store.block id).values.size) then
    Run.modifyStore (·.setElement id i w)
    pure w
  else Run.atIndex index none

/-- Stores into a field by its position. -/
def setFieldAt (decl : DataDecl) (cells : List CellId) (index : Value) (value : Expr) :
    Run Value := do
  let i ← Run.position index
  let cell ← Run.atIndex index cells[i]?
  let field ← Run.atIndex index decl.fields[i]?
  let type ← Run.read fun s => (s.store.cell cell).type
  let v ← r.eval type.hint? value
  Run.assign cell field.name v

/-- Replaces a character of the string that a variable holds. -/
def setCharacter (target : Expr) (text : String) (index : Value) (value : Expr) : Run Value := do
  match target.kind with
  | .name name =>
    let i ← Run.position index
    match ← r.eval none value with
    | .char c =>
      let chars := text.toList
      if i < chars.length then
        let cell ← Run.cellOf name
        let _ ← Run.assign cell name (.string (String.ofList (chars.set i c)))
        pure (.char c)
      else Run.atIndex index none
    | v => Run.failOn (.mismatchedType (.prim .char)) v
  | _ => Run.atSpan target.span (Run.fail .assignedToNonReference)

/-- A store into an element of a sequence. -/
def setIndexExpr (target index value : Expr) : Run Value := do
  let t ← r.eval none target
  let i ← r.eval none index
  match t with
  | .array id => r.setArrayElement id i value
  | .data decl cells => r.setFieldAt decl cells i value
  | .string s => r.setCharacter target s i value
  | v => Run.failOn .notIndexed v

/-- A store into a field. -/
def setMemberExpr (target : Expr) (member : String) (value : Expr) : Run Value := do
  match ← r.eval none target with
  | .data decl cells =>
    let cell ← fieldCell decl cells member
    let type ← Run.read fun s => (s.store.cell cell).type
    let v ← r.eval type.hint? value
    Run.assign cell member v
  | .entry enum _ _ _ =>
    if member = "name" ∨ member = "ordinal" ∨ member = "value" then
      Run.fail (.reassignedConstant member)
    else Run.fail (.noMember enum member)
  | v => Run.failOn .notAccessed v

/-- An entry of an enum. -/
def enumEntry (enum entry : String) : Run Value := do
  let decl ← Run.require (.undeclared .enum enum) (← Run.read fun s => s.env.enum? enum)
  Run.require (.noMember enum entry) (decl.find? entry)

/-- Evaluates a form of expression. -/
def exprKind (hint : Option Ty) (span : Span) : ExprKind → Run Value
  | .empty => pure .empty
  | .literal l => pure (.ofLiteral l)
  | .name name => do
    let cell ← Run.cellOf name
    Run.read fun s => s.store.read cell
  | .type written => do r.default (← r.resolveType written)
  | .array elements => r.arrayLiteral (hint.bind fun t => t.element?.bind Ty.hint?) elements
  | .unary op operand => r.unaryExpr op operand
  | .binary op left right => r.binaryExpr op left right
  | .getIndex target index => do
    let t ← r.eval none target
    let i ← r.eval none index
    getIndex t i
  | .setIndex target index value => r.setIndexExpr target index value
  | .getMember target member => do getMember (← r.eval none target) member
  | .setMember target member value => r.setMemberExpr target member value
  | .invoke name args => r.callExpr name none args span
  | .instantiate (some written) elements => do
    r.instantiate (← r.resolveType written) elements
  | .instantiate none elements =>
    match hint with
    | some t => r.instantiate t elements
    | none => Run.fail .cannotInfer
  | .enumEntry enum entry => enumEntry enum entry

/-- Evaluates an expression; an error takes the span of the innermost node that failed. -/
def expr (hint : Option Ty) (e : Expr) : Run Value :=
  Run.atSpan e.span (r.exprKind hint e.span e.kind)

end Evaluator

end BasicScript
