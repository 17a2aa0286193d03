import BasicScript.Number.Reading
import BasicScript.Types.Membership

/-! # Casts

Explicit conversion. Numbers are cut down to the kind, strings are read and
written, characters stand for their code points, and arrays and strings are
cast element by element. Whatever no rule covers must belong to the type.
-/

namespace BasicScript

/-- The character of a code point. -/
def charOfCode? (n : Int) : Option Char :=
  if 0 ≤ n ∧ n.toNat.isValidChar then some (Char.ofNat n.toNat) else none

namespace Ty

/-- Casts a value to a numeric kind. -/
def castNumber? (k : NumericKind) : Value → Option Number
  | .number n => some (n.convert k)
  | .char c => some (.ofInt c.toNat k)
  | .bool b => some (.ofInt (if b then 1 else 0) k)
  | .string s =>
    let text := trimBlank s.toList
    if k.isIntegral then (readInt64? text).map (Number.ofInt · k)
    else (readDouble? text).map fun x => (Number.double x).convert k
  | _ => none

/-- Casts a value to a type keyword. -/
def castPrimitive? (σ : Store) : Primitive → Value → Option Value
  | .any, v => some v
  | .string, v => some (.string (σ.text v))
  | .bool, .string s =>
    match String.ofList (trimBlank s.toList) with
    | "true" => some (.bool true)
    | "false" => some (.bool false)
    | _ => none
  | .bool, .number n => some (.bool !n.isZero)
  | .char, .string s =>
    match s.toList with
    | [c] => some (.char c)
    | _ => none
  | .char, .number n =>
    match n.integral? with
    | some code => (charOfCode? code).map .char
    | none => none
  | p, v =>
    match p.kind? with
    | some k => (castNumber? k v).map .number
    | none => if p.admits v then some v else none

/-- Casts values from left to right. -/
def castEach (f : Store → Value → Option (Value × Store)) :
    Store → List Value → Option (List Value × Store)
  | σ, [] => some ([], σ)
  | σ, v :: vs =>
    match f σ v with
    | none => none
    | some (w, σ₁) =>
      match castEach f σ₁ vs with
      | none => none
      | some (ws, σ₂) => some (w :: ws, σ₂)

/-- Casts the elements of a new array, which must then belong to the type. -/
def castElements (t element : Ty) (f : Store → Value → Option (Value × Store)) (σ : Store)
    (elements : List Value) : Option (Value × Store) :=
  match castEach f σ elements with
  | none => none
  | some (ws, σ₁) =>
    let (id, σ₂) := σ₁.newArray element ws
    if t.admits σ₂ (.array id) then some (.array id, σ₂) else none

/-- Casts a value to a type. -/
def cast : Ty → Store → Value → Option (Value × Store)
  | _, _, .empty => none
  | .prim p, σ, v => (castPrimitive? σ p v).map fun w => (w, σ)
  | .array element size, σ, v =>
    match v with
    | .string s =>
      castElements (.array element size) element (cast element) σ (s.toList.map .char)
    | .array id => castElements (.array element size) element (cast element) σ (σ.elements id)
    | _ => none
  | .vararg element, σ, v =>
    match v with
    | .string s => castElements (.vararg element) element (cast element) σ (s.toList.map .char)
    | .array id => castElements (.vararg element) element (cast element) σ (σ.elements id)
    | _ => none
  | t, σ, v => if t.admits σ v then some (v, σ) else none

/-- Whether casts from left to right, up to the first that fails, ask only for texts that end. -/
def castEachEnds (f : Store → Value → Option (Value × Store)) (ends : Value → Bool) :
    Store → List Value → Bool
  | _, [] => true
  | σ, v :: vs =>
    ends v &&
      match f σ v with
      | none => true
      | some (_, σ₁) => castEachEnds f ends σ₁ vs

/-- Whether a cast asks only for texts that end. -/
def castEnds : Ty → Store → Value → Bool
  | .prim .string, σ, v => σ.textEnds v
  | .array element _, σ, .array id =>
    castEachEnds (cast element) (castEnds element σ) σ (σ.elements id)
  | .vararg element, σ, .array id =>
    castEachEnds (cast element) (castEnds element σ) σ (σ.elements id)
  | _, _, _ => true

end Ty

end BasicScript
