import BasicScript.Syntax.Primitive
import BasicScript.Text.Case

/-! # Types

A written type whose names have been looked up and whose sizes have been
evaluated. Data and enum types are known by name.
-/

namespace BasicScript

/-- Types of values. -/
inductive Ty where
  /-- No annotation: every value but the empty one. -/
  | inferred
  | prim (primitive : Primitive)
  /-- Arrays, of the given length if there is one. -/
  | array (element : Ty) (size : Option Nat)
  /-- Arrays that hold the tail of an argument list. -/
  | vararg (element : Ty)
  | data (name : String)
  | enum (name : String)
  deriving DecidableEq, Repr

namespace Ty

/-- The type of a numeric kind. -/
def ofKind (k : NumericKind) : Ty := .prim k.primitive

/-- The numeric kind that the type names. -/
def kind? : Ty → Option NumericKind
  | .prim p => p.kind?
  | _ => none

/-- Types of whole numbers. -/
def isIntegral (t : Ty) : Bool := t.kind?.any NumericKind.isIntegral

/-- Element type of the array types. -/
def element? : Ty → Option Ty
  | .array element _ | .vararg element => some element
  | _ => none

/-- Whether every value but the empty one belongs to the type, unchanged. -/
def acceptsAnything : Ty → Bool
  | .inferred | .prim .any => true
  | _ => false

/-- The type that a composite literal may take from its context. -/
def hint? (t : Ty) : Option Ty := if t.acceptsAnything then none else some t

/-- Written form, in lower case: `int`, `int[]`, `int[3]`, `int*`, `point`. -/
def text : Ty → String
  | .inferred => "any"
  | .prim p => p.keyword
  | .array element none => element.text ++ "[]"
  | .array element (some n) => element.text ++ "[" ++ Nat.repr n ++ "]"
  | .vararg element => element.text ++ "*"
  | .data name | .enum name => lowerCase name

/-- The type that the elements of an array literal share: an equal type, the wider numeric kind,
unsized arrays of what their elements share, and otherwise `any`. -/
def common (a b : Ty) : Ty :=
  if a = b then a
  else
    match a.kind?, b.kind? with
    | some j, some k => if k ≤ j then a else b
    | _, _ =>
      match a, b with
      | .array x _, .array y _ => .array (common x y) none
      | _, _ => .prim .any

end Ty

end BasicScript
