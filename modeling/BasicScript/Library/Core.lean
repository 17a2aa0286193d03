import BasicScript.Syntax.Tree

/-! # Core declarations

The statements that bind the standard library. They run once in the global
scope, before the first program.
-/

namespace BasicScript

/-- The declaration of a builtin sub of one parameter. -/
def builtinDeclaration (name param : String) (type : TypeExpr) (returns : Primitive) : Stmt :=
  .generated (.sub (.mk name [⟨param, type, none⟩] (.prim returns) [] true))

/-- The declarations of all builtin subs. -/
def coreDeclarations : List Stmt := [
  builtinDeclaration "print" "value" (.prim .any) .none,
  builtinDeclaration "println" "value" (.prim .any) .none,
  builtinDeclaration "abs" "n" (.prim .int) .int,
  builtinDeclaration "abs" "n" (.prim .double) .double,
  builtinDeclaration "sqrt" "n" (.prim .double) .double,
  builtinDeclaration "floor" "n" (.prim .double) .double,
  builtinDeclaration "upper" "text" (.prim .string) .string,
  builtinDeclaration "lower" "text" (.prim .string) .string,
  builtinDeclaration "ord" "c" (.prim .char) .int,
  builtinDeclaration "chr" "code" (.prim .int) .char,
  builtinDeclaration "size" "items" (.array (.prim .any) none) .int]

end BasicScript
