import BasicScript.Eval.Composite

/-! # Declarations

Variables, subs, data types, aliases and enums enter the current scope once
all that they need is known.
-/

namespace BasicScript

namespace Evaluator

variable (r : Evaluator)

/-- Type of a variable that is to hold a value; without an annotation it is that of the value. -/
def bindingType (v : Value) : Ty → Run Ty
  | .inferred => do Run.require .cannotInfer (← Run.typeOf v)
  | t => pure t

/-- Declares a variable that holds a value; without a type it takes that of the value. -/
def bind (name : String) (type : Ty) (v : Value) (constant : Bool) : Run Unit := do
  let t ← bindingType v type
  let w ← Run.conform t v
  let _ ← Run.declareVariable name ⟨t, w, constant⟩

/-- Declares one variable for each value. -/
def bindEach (constant : Bool) : List (String × TypeExpr) → List Value → Run Unit
  | (name, written) :: names, v :: vs => do
    let t ← r.resolveType written
    bind name t v constant
    bindEach constant names vs
  | _, _ => pure ()

/-- Declares as many variables as there are values. -/
def bindAll (names : List (String × TypeExpr)) (vs : List Value) (constant : Bool) : Run Unit := do
  if names.length ≠ vs.length then Run.fail (.notPartitioned names.length vs.length)
  r.bindEach constant names vs

/-- Declares a variable with an initial value, or with the default of its type. -/
def declareVariable (name : String) (written : TypeExpr) (init : Expr) (constant : Bool) :
    Run Unit := do
  let t ← r.resolveType written
  let v ← r.eval t.hint? init
  if v.isMissing then
    if t = .inferred then Run.atSpan init.span (Run.fail .cannotInfer)
    else bind name t (← r.default t) constant
  else bind name t v constant

/-- Looks up the types of parameters. -/
def parameters (params : List Param) : Run (List Parameter) :=
  params.mapM fun p => do return ⟨p.name, ← r.resolveType p.type, p.default⟩

/-- Looks up a return type; a missing one stands for `none`. -/
def returnType : TypeExpr → Run Ty
  | .inferred => pure (.prim .none)
  | written => r.resolveType written

/-- Tests that the library has a function of a signature and a return type. -/
def requireNative (signature : String) (returns : Ty) : Run Unit := do
  let native ← Run.require (.missingBuiltin signature) (r.library.lookup signature)
  if native.returns ≠ returns then
    Run.fail (.mismatchedBuiltin signature returns (some native.returns))

/-- Declares an overload. A builtin one must have a function of the same return type. -/
def declareSub (d : SubDef) : Run Unit := do
  let params ← r.parameters d.params
  let returns ← r.returnType d.returns
  let signature := signatureText d.name (params.map (·.type))
  if d.builtin then r.requireNative signature returns
  let scope ← Run.read fun s => s.env.current
  let sub : Sub := ⟨d.name, params, returns, d.body, signature, scope, d.builtin⟩
  Run.declare .sub signature (·.takesSub d.name signature) (·.addSub sub)

/-- Declares a data type. -/
def declareData (name : String) (fields : List FieldDef) : Run Unit := do
  let fields ← fields.mapM fun f => do
    return (⟨f.name, ← r.resolveType f.type, f.constant, f.default⟩ : Field)
  let scope ← Run.read fun s => s.env.current
  Run.declare .data name (·.takesData name) (·.addData ⟨name, fields, scope⟩)

/-- Declares an alias. -/
def declareAlias (name : String) (written : TypeExpr) : Run Unit := do
  let t ← r.resolveType written
  Run.declare .alias name (·.takesAlias name) (·.addAlias name t)

/-- The value that an enum entry carries where none is written: its ordinal if the type is one of
whole numbers or inferred, and else the default of the type. -/
def ordinalValue (t : Ty) (ordinal : Nat) : Run Value :=
  match t with
  | .inferred => pure (.int ordinal)
  | t =>
    match t.kind? with
    | some k => if k.isIntegral then pure (.number (.ofInt ordinal k)) else r.default t
    | none => r.default t

/-- The value written for an entry of an enum, or what stands for it. -/
def entryElement (t : Ty) (ordinal : Nat) : List Expr → Run Value
  | e :: _ => r.eval t.hint? e
  | [] => r.ordinalValue t ordinal

/-- The value of an entry of an enum over a type. -/
def basicEntry (t : Ty) (ordinal : Nat) (elements : List Expr) : Run Value := do
  let v ← r.entryElement t ordinal elements
  match t with
  | .inferred => if v.isMissing then Run.fail .cannotInfer else pure v
  | t => Run.conform t v

/-- Names and values of entries, from an ordinal on. -/
def entryValues (value : Nat → List Expr → Run Value) :
    Nat → List EntryDef → Run (List (String × Value))
  | _, [] => pure []
  | ordinal, e :: rest => do
    let v ← value ordinal e.elements
    return (e.name, v) :: (← entryValues value (ordinal + 1) rest)

/-- Type of the values of an enum, with the names and values of its entries. -/
def enumEntries (kind : EnumKind) (entries : List EntryDef) :
    Run (Ty × List (String × Value)) :=
  match kind with
  | .basic written => do
    let t ← r.resolveType written
    return (t, ← entryValues (r.basicEntry t) 0 entries)
  | .data data => do
    let t ← r.resolveType (.named data)
    return (t, ← entryValues (fun _ elements => r.instantiate t elements) 0 entries)

/-- Declares an enum. -/
def declareEnum (name : String) (kind : EnumKind) (entries : List EntryDef) : Run Unit := do
  let (t, built) ← r.enumEntries kind entries
  Run.declare .enum name (·.takesEnum name) (·.addEnum ⟨name, t, built⟩)

end Evaluator

end BasicScript
