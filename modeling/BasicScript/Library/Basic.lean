import BasicScript.Run.Basic

/-! # Libraries

Subs without a body get their function from a library, by signature.
-/

namespace BasicScript

/-- How a native function calls a sub by name. -/
abbrev Caller := String → List Value → Run Value

/-- A native function, with the type that its results must have. -/
structure Builtin where
  returns : Ty
  function : Caller → List Value → Run Value

/-- Native functions by signature. -/
structure Library where
  natives : List (String × Builtin)

namespace Library

/-- A library without functions. -/
def empty : Library := ⟨[]⟩

/-- The function of a signature, spelled exactly so. -/
def lookup (l : Library) (signature : String) : Option Builtin := l.natives.lookup signature

/-- Binds a signature to a function, in place of any other. -/
def register (l : Library) (signature : String) (b : Builtin) : Library :=
  ⟨(signature, b) :: l.natives.filter (·.1 != signature)⟩

end Library

end BasicScript
