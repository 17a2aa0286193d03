import BasicScript.Text.Blank
import BasicScript.Value.Store

/-! # Views of values

What a value shows of itself: its type, the sequence of its elements, its text
and whether it counts as empty. Nested values are followed through the store.
Text, emptiness and equality need no end: a value that is a part of itself is
followed round and round. A view that has not ended after as many handles as
there are, or pairs of them where two values are compared, goes round, and shows
nothing; runs that ask for it do not end.
-/

namespace BasicScript

namespace Store

variable (σ : Store)

/-- Type of a value; the missing value has none. -/
def typeOf? : Value → Option Ty
  | .empty => none
  | .none => some (.prim .none)
  | .bool _ => some (.prim .bool)
  | .number n => some (.ofKind n.kind)
  | .char _ => some (.prim .char)
  | .string _ => some (.prim .string)
  | .array id => some (.array (σ.block id).element none)
  | .data d _ => some (.data d.name)
  | .entry enum _ _ _ => some (.enum enum)

/-- Elements of a sequence: characters, array elements, or the values of fields. -/
def elements? : Value → Option (List Value)
  | .string s => some (s.toList.map .char)
  | .array id => some (σ.elements id)
  | .data _ cells => some (cells.map σ.read)
  | _ => none

/-- Text of a value; none if it takes more than `depth` handles. -/
def textWithin : Nat → Value → Option String
  | _, .empty => some "empty"
  | _, .none => some "none"
  | _, .bool b => some (if b then "true" else "false")
  | _, .number n => some n.text
  | _, .char c => some (String.singleton c)
  | _, .string s => some s
  | _, .entry _ name _ _ => some name
  | 0, .array _ => none
  | 0, .data .. => none
  | depth + 1, .array id =>
    ((σ.elements id).mapM (textWithin depth)).map fun parts => "[" ++ ", ".intercalate parts ++ "]"
  | depth + 1, .data d cells =>
    (cells.mapM fun c => textWithin depth (σ.read c)).map fun parts =>
      d.name ++ "\x7b" ++ ", ".intercalate parts ++ "\x7d"

/-- Text of a value; none if it has no end. -/
def text? (v : Value) : Option String := σ.textWithin σ.depth v

/-- Whether the text of a value has an end. -/
def textEnds (v : Value) : Bool := (σ.text? v).isSome

/-- Text of a value that has one. -/
def text (v : Value) : String := (σ.text? v).getD ""

/-- The value that enum entries carry in the end. -/
def payload : Value → Value
  | .entry _ _ _ v => payload v
  | v => v

/-- Whether a value counts as empty; none if it takes more than `depth` handles to tell. -/
def isEmptyWithin (depth : Nat) (v : Value) : Option Bool :=
  match payload v, depth with
  | .empty, _ | .none, _ => some true
  | .bool b, _ => some !b
  | .number n, _ => some n.isZero
  | .char c, _ => some (c == '\x00')
  | .string s, _ => some (s.toList.all isBlank)
  | .array id, _ => some (σ.elements id).isEmpty
  | .data .., 0 => none
  | .data _ cells, depth + 1 => cells.allM fun c => isEmptyWithin depth (σ.read c)
  | .entry .., _ => some true

/-- Whether a value counts as empty: nothing, zero, blank, or composed of such values. -/
def isEmpty? (v : Value) : Option Bool := σ.isEmptyWithin σ.depth v

/-- Whether a value for which that can be told counts as empty. -/
def isEmpty (v : Value) : Bool := (σ.isEmpty? v).getD false

/-- Compares lists element by element up to the first difference, unless their lengths differ. -/
def eachSame {α : Type} (same : α → α → Option Bool) (as bs : List α) : Option Bool :=
  if as.length = bs.length then (as.zip bs).allM fun p => same p.1 p.2 else some false

/-- Structural equality; none if it takes more than `depth` handles to tell. -/
def sameWithin : Nat → Value → Value → Option Bool
  | _, .empty, .empty => some true
  | _, .none, .none => some true
  | _, .bool a, .bool b => some (a == b)
  | _, .number a, .number b => some (a.same b)
  | _, .char a, .char b => some (a == b)
  | _, .string a, .string b => some (a == b)
  | _, .entry e _ i _, .entry f _ j _ => some (e == f && i == j)
  | 0, .array a, .array b => if a = b then some true else none
  | depth + 1, .array a, .array b =>
    if a = b then some true else eachSame (sameWithin depth) (σ.elements a) (σ.elements b)
  | 0, .data d as, .data e bs =>
    if d.name ≠ e.name then some false else if as = bs then some true else none
  | depth + 1, .data d as, .data e bs =>
    if d.name ≠ e.name then some false else if as = bs then some true
    else eachSame (fun a b => sameWithin depth (σ.read a) (σ.read b)) as bs
  | _, _, _ => some false

/-- Structural equality: the same handle, or equal kinds and equal parts. -/
def same? (v w : Value) : Option Bool := σ.sameWithin (σ.depth * σ.depth) v w

/-- Structural equality of values for which that can be told. -/
def same (v w : Value) : Bool := (σ.same? v w).getD false

/-- Equality of the language: numbers are compared on the ladder, and a missing value equals
whatever counts as empty. -/
def equal? : Value → Value → Option Bool
  | .empty, w => σ.isEmpty? w
  | v, .empty => σ.isEmpty? v
  | .number a, .number b => some (a.equal b)
  | v, w => σ.same? v w

/-- Whether it can be told that two values are equal. -/
def equalEnds (v w : Value) : Bool := (σ.equal? v w).isSome

/-- Equality of values for which that can be told. -/
def equal (v w : Value) : Bool := (σ.equal? v w).getD false

end Store

end BasicScript
