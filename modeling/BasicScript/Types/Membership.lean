import BasicScript.Value.View

/-! # Membership of types

The structural test whether a value belongs to a type. It never converts, the
missing value belongs to no type, and the length of an array is looked at
before its elements.
-/

namespace BasicScript

/-- Why a value does not belong to a type. -/
inductive Mismatch where
  | type
  | size (expected got : Nat)
  deriving DecidableEq, Repr

/-- Values of a type keyword. -/
def Primitive.admits : Primitive → Value → Bool
  | .any, _ => true
  | .none, .none => true
  | .bool, .bool _ => true
  | .char, .char _ => true
  | .string, .string _ => true
  | p, .number n => p.kind? == some n.kind
  | _, _ => false

namespace Ty

variable (σ : Store)

/-- Tests a value against a type. -/
def check : Ty → Value → Except Mismatch Unit
  | _, .empty => .error .type
  | .inferred, _ => .ok ()
  | .prim p, v => if p.admits v then .ok () else .error .type
  | .array element size, .array id =>
    match size with
    | some n =>
      if (σ.elements id).length ≠ n then .error (.size n (σ.elements id).length)
      else if element.acceptsAnything then .ok () else (σ.elements id).forM (check element)
    | none => if element.acceptsAnything then .ok () else (σ.elements id).forM (check element)
  | .vararg element, .array id =>
    if element.acceptsAnything then .ok () else (σ.elements id).forM (check element)
  | .data name, .data d _ => if d.name = name then .ok () else .error .type
  | .enum name, .entry owner _ _ _ => if owner = name then .ok () else .error .type
  | _, _ => .error .type

/-- Whether a value belongs to a type. -/
def admits (t : Ty) (v : Value) : Bool :=
  match t.check σ v with
  | .ok _ => true
  | .error _ => false

/-- The value itself, if it belongs to the type. -/
def filter? (t : Ty) (v : Value) : Option Value := if t.admits σ v then some v else none

end Ty

end BasicScript
