import BasicScript.Library.Basic

/-! # The standard library

Printing, numbers, letter case, code points and array sizes.
-/

namespace BasicScript

namespace Library

/-- A native function of one argument. -/
def unary (f : Value → Run Value) : Caller → List Value → Run Value := fun _ args =>
  match args with
  | [v] => f v
  | _ => Run.fail (.custom "expected exactly one argument")

/-- The fault of a value that a native function has no rule for. -/
def unexpected (name : String) (v : Value) : Run Value :=
  Run.failOn (fun t => .custom (name ++ ": unexpected " ++ typeWord t)) v

/-- Prints a value, in the way given. -/
def printing (print : Console → String → Console) (v : Value) : Run Value := do
  let text ← Run.text v
  fun s => .ok .none { s with console := print s.console text }

/-- Absolute value of an `int`; the least one stays as it is. -/
def absInt : Value → Run Value
  | .number (.int n) => pure (.number (.int (if n < 0 then -n else n)))
  | v => unexpected "abs" v

/-- A function on doubles. -/
def onDouble (name : String) (f : Float → Float) : Value → Run Value
  | .number (.double x) => pure (.number (.double (f x)))
  | v => unexpected name v

/-- A function on strings. -/
def onString (name : String) (f : String → String) : Value → Run Value
  | .string s => pure (.string (f s))
  | v => unexpected name v

/-- Code point of a character. -/
def ord : Value → Run Value
  | .char c => pure (.int c.toNat)
  | v => unexpected "ord" v

/-- Character of a code point. -/
def chr : Value → Run Value
  | .number (.int n) =>
    match charOfCode? n.toInt with
    | some c => pure (.char c)
    | none => Run.fail (.custom ("chr: " ++ Int.repr n.toInt ++ " is not a code point"))
  | v => unexpected "chr" v

/-- Number of elements of an array. -/
def size : Value → Run Value
  | .array id => do
    let n ← Run.read fun s => (s.store.block id).values.size
    if n < Nat.pow 2 31 then pure (.int n) else Run.fail (.custom "size: array too large")
  | v => unexpected "size" v

/-- The functions that every interpreter has at hand. -/
def standard : Library := ⟨[
  ("print(any)", ⟨.prim .none, unary (printing Console.print)⟩),
  ("println(any)", ⟨.prim .none, unary (printing Console.printLine)⟩),
  ("abs(int)", ⟨.prim .int, unary absInt⟩),
  ("abs(double)", ⟨.prim .double, unary (onDouble "abs" Float.abs)⟩),
  ("sqrt(double)", ⟨.prim .double, unary (onDouble "sqrt" Float.sqrt)⟩),
  ("floor(double)", ⟨.prim .double, unary (onDouble "floor" Float.floor)⟩),
  ("upper(string)", ⟨.prim .string, unary (onString "upper" upperCase)⟩),
  ("lower(string)", ⟨.prim .string, unary (onString "lower" lowerCase)⟩),
  ("ord(char)", ⟨.prim .int, unary ord⟩),
  ("chr(int)", ⟨.prim .char, unary chr⟩),
  ("size(any[])", ⟨.prim .int, unary size⟩)]⟩

end Library

end BasicScript
