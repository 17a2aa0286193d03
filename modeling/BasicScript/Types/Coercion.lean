import BasicScript.Types.Membership

/-! # Coercion

Implicit moves up the numeric ladder, and from characters to whole numbers.
An array is rebuilt only when an element or the type of its elements changes,
so one that already fits keeps its identity. A value that reaches a typed
place is coerced first and tested afterwards.
-/

namespace BasicScript

/-- What coercion does to a value. -/
inductive Coerced where
  | same
  | changed (value : Value) (store : Store)
  /-- A number is too wide. -/
  | failed

namespace Coerced

/-- Coerces values from left to right: whether one changed, and what they became. -/
def each (f : Store → Value → Coerced) : Store → List Value → Option (Bool × List Value × Store)
  | σ, [] => some (false, [], σ)
  | σ, v :: vs =>
    match f σ v with
    | .failed => none
    | .same =>
      match each f σ vs with
      | none => none
      | some (moved, ws, σ') => some (moved, v :: ws, σ')
    | .changed w σ₁ =>
      match each f σ₁ vs with
      | none => none
      | some (_, ws, σ₂) => some (true, w :: ws, σ₂)

/-- The value after coercion, if it did not fail. -/
def result? (σ : Store) (v : Value) : Coerced → Option (Value × Store)
  | .same => some (v, σ)
  | .changed w σ' => some (w, σ')
  | .failed => none

end Coerced

namespace Ty

/-- Coerces the elements of an array. -/
def coerceElements (element : Ty) (f : Store → Value → Coerced) (σ : Store) (id : ArrayId) :
    Coerced :=
  if element.acceptsAnything then .same
  else
    match Coerced.each f σ (σ.elements id) with
    | none => .failed
    | some (moved, ws, σ') =>
      if moved || (σ.block id).element ≠ element then
        let (id', σ'') := σ'.newArray element ws
        .changed (.array id') σ''
      else .same

/-- Coerces a scalar to a numeric kind. -/
def coerceNumber (k : NumericKind) (σ : Store) : Value → Coerced
  | .number n =>
    if n.kind = k then .same
    else
      match n.widen? k with
      | some m => .changed (.number m) σ
      | none => .failed
  | .char c =>
    match k with
    | .int | .long => .changed (.number (.ofInt c.toNat k)) σ
    | _ => .same
  | _ => .same

/-- Coerces a value to a type. -/
def coerce : Ty → Store → Value → Coerced
  | .prim p, σ, v =>
    match p.kind? with
    | some k => coerceNumber k σ v
    | none => .same
  | .array element _, σ, .array id => coerceElements element (coerce element) σ id
  | .vararg element, σ, .array id => coerceElements element (coerce element) σ id
  | _, _, _ => .same

/-- Fits a value to a typed place: coerces it, then tests the outcome. -/
def conform (t : Ty) (σ : Store) (v : Value) : Except Mismatch (Value × Store) :=
  match (t.coerce σ v).result? σ v with
  | none => .error .type
  | some (w, σ') =>
    match t.check σ' w with
    | .ok _ => .ok (w, σ')
    | .error m => .error m

end Ty

end BasicScript
