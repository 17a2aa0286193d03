import BasicScript.Value.Basic

/-! # Subs

An overload as a scope keeps it: parameters with known types, and the
signature that tells it from the other overloads of the name.
-/

namespace BasicScript

/-- A parameter whose type is known. -/
structure Parameter where
  name : String
  type : Ty
  /-- Stands in for an argument that is not supplied. -/
  default : Option Expr

/-- Whether the parameter takes the tail of the argument list. -/
def Parameter.isVararg (p : Parameter) : Bool :=
  match p.type with
  | .vararg _ => true
  | _ => false

/-- One overload of a sub. -/
structure Sub where
  name : String
  params : List Parameter
  returns : Ty
  body : List Stmt
  /-- Name and parameter types in lower case. -/
  signature : String
  /-- The scope of the declaration: bodies and defaults run below it. -/
  scope : ScopePath
  /-- Whether the library supplies the function. -/
  native : Bool

/-- Normal form of a name with parameter types: `name(type,type)`. -/
def signatureText (name : String) (types : List Ty) : String :=
  lowerCase name ++ "(" ++ ",".intercalate (types.map Ty.text) ++ ")"

namespace Sub

/-- The parameter that takes the tail, if there is one. -/
def vararg? (s : Sub) : Option Parameter := s.params.getLast?.filter Parameter.isVararg

/-- Parameters that take one argument each. -/
def fixed (s : Sub) : List Parameter := if s.vararg?.isSome then s.params.dropLast else s.params

/-- Whether a number of arguments fits: no more than the parameters take, and a default for each
parameter that gets none. -/
def fits (s : Sub) (count : Nat) : Bool :=
  (count ≤ s.fixed.length || s.vararg?.isSome)
    && (s.fixed.drop count).all fun p => p.default.isSome

end Sub

end BasicScript
