import BasicScript.Number.Dyadic

/-! # Reading numbers

Whole numbers are an optional sign and digits. Doubles may also have a point,
an exponent, or be one of the words for infinity and not-a-number in any case;
they are rounded to the nearest double.
-/

namespace BasicScript

/-- Value of a decimal digit. -/
def digit? (c : Char) : Option Nat :=
  if '0' ≤ c ∧ c ≤ '9' then some (c.toNat - '0'.toNat) else none

/-- Value of a run of digits, after the value of those before it. -/
def readDigits (value : Nat) : List Char → Nat
  | [] => value
  | c :: rest => readDigits (10 * value + (digit? c).getD 0) rest

/-- A sign, if there is one, and what follows it. -/
def splitSign : List Char → Bool × List Char
  | '+' :: rest => (false, rest)
  | '-' :: rest => (true, rest)
  | cs => (false, cs)

/-- Reads digits only, and at least one. -/
def readNat? (cs : List Char) : Option Nat :=
  if cs.isEmpty || !cs.all (fun c => (digit? c).isSome) then none else some (readDigits 0 cs)

/-- Reads a whole number. -/
def readInt? (cs : List Char) : Option Int :=
  let (negative, digits) := splitSign cs
  (readNat? digits).map fun n => if negative then -(n : Int) else n

/-- Reads a whole number of 64 bits. -/
def readInt64? (cs : List Char) : Option Int :=
  (readInt? cs).filter fun n => -(Nat.pow 2 63 : Int) ≤ n ∧ n < Nat.pow 2 63

/-- Every number of at least `10 ^ decimalLimit` is infinite as a double, and every number below
its inverse is zero. -/
def decimalLimit : Int := 400

/-- The double nearest to `digits * 10 ^ exponent`, where `digits` has `count` digits. -/
def decimalDouble (negative : Bool) (digits count : Nat) (exponent : Int) : Float :=
  if digits = 0 ∨ exponent + count < -decimalLimit then nearestDouble negative 0 1
  else if decimalLimit < exponent + count then nearestDouble negative (Nat.pow 2 1024) 1
  else nearestDouble negative (digits * Nat.pow 10 exponent.toNat) (Nat.pow 10 (-exponent).toNat)

/-- Reads the exponent of a double; nothing at all stands for zero. -/
def readExponent? : List Char → Option Int
  | [] => some 0
  | 'e' :: rest | 'E' :: rest => readInt? rest
  | _ => none

/-- Reads a double without its sign. -/
def readMagnitude? (negative : Bool) (cs : List Char) : Option Float :=
  let word := String.ofList (cs.map Char.toLower)
  if word = "inf" ∨ word = "infinity" then
    some (nearestDouble negative (Nat.pow 2 1024) 1)
  else if word = "nan" then some (0.0 / 0.0)
  else
    let isDigit := fun c => (digit? c).isSome
    let whole := cs.takeWhile isDigit
    let rest := cs.dropWhile isDigit
    let (fraction, tail) :=
      match rest with
      | '.' :: after => (after.takeWhile isDigit, after.dropWhile isDigit)
      | _ => ([], rest)
    let digits := whole ++ fraction
    if digits.isEmpty then none
    else (readExponent? tail).map fun exponent =>
      decimalDouble negative (readDigits 0 digits) (digits.dropWhile (· == '0')).length
        (exponent - fraction.length)

/-- Reads a double. -/
def readDouble? (cs : List Char) : Option Float :=
  let (negative, magnitude) := splitSign cs
  readMagnitude? negative magnitude

end BasicScript
