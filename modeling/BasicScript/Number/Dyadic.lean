/-! # Floating-point numbers as exact fractions

A finite floating-point number is a whole number times a power of two. Reading
a format gives that form; writing it rounds any fraction of whole numbers to
the nearest double, a tie going to the even neighbour.
-/

namespace BasicScript

/-- The number `mantissa * 2 ^ exponent`. -/
structure Dyadic where
  mantissa : Nat
  exponent : Int
  deriving DecidableEq, Repr

/-- What the bits of a floating-point number denote. -/
inductive FloatClass where
  | nan
  | infinite (negative : Bool)
  /-- `atStep` holds where the numbers just below lie closer together than those above. -/
  | finite (negative : Bool) (magnitude : Dyadic) (atStep : Bool)

/-- Widths of the two fields of a binary format. -/
structure BinaryFormat where
  fractionBits : Nat
  exponentBits : Nat

namespace BinaryFormat

/-- The format of `float`. -/
def single : BinaryFormat := ⟨23, 8⟩

/-- The format of `double`. -/
def double : BinaryFormat := ⟨52, 11⟩

/-- Exponent of the spacing of the least numbers. -/
def leastExponent (f : BinaryFormat) : Int :=
  2 - (Nat.pow 2 (f.exponentBits - 1) : Int) - f.fractionBits

/-- Meaning of a bit pattern. -/
def classify (f : BinaryFormat) (bits : Nat) : FloatClass :=
  let fraction := bits % Nat.pow 2 f.fractionBits
  let biased := bits / Nat.pow 2 f.fractionBits % Nat.pow 2 f.exponentBits
  let negative := bits / Nat.pow 2 (f.fractionBits + f.exponentBits) % 2 == 1
  if biased + 1 = Nat.pow 2 f.exponentBits then
    if fraction = 0 then .infinite negative else .nan
  else if biased = 0 then
    .finite negative ⟨fraction, f.leastExponent⟩ false
  else
    .finite negative ⟨Nat.pow 2 f.fractionBits + fraction, f.leastExponent + (biased - 1 : Nat)⟩
      (fraction == 0 && biased != 1)

end BinaryFormat

/-- Meaning of a double. -/
def classifyDouble (x : Float) : FloatClass := BinaryFormat.double.classify x.toBits.toNat

/-- Meaning of a float. -/
def classifySingle (x : Float32) : FloatClass := BinaryFormat.single.classify x.toBits.toNat

/-- The quotient `num / den`, rounded to a whole number, ties to even. -/
def roundQuotient (num den : Nat) : Nat :=
  let q := num / den
  let r := num % den
  if 2 * r < den then q
  else if den < 2 * r then q + 1
  else q + q % 2

/-- Bits of the double nearest to the positive fraction `num / den`. -/
def nearestDoubleBits (num den : Nat) : Nat :=
  -- `2 ^ top` is the greatest power of two that is at most the fraction
  let estimate : Int := (Nat.log2 num : Int) - Nat.log2 den
  let top :=
    if den * Nat.pow 2 estimate.toNat ≤ num * Nat.pow 2 (-estimate).toNat then estimate
    else estimate - 1
  let unit := max (top - 52) (-1074)
  let mantissa := roundQuotient (num * Nat.pow 2 (-unit).toNat) (den * Nat.pow 2 unit.toNat)
  min ((unit + 1074).toNat * Nat.pow 2 52 + mantissa) (2047 * Nat.pow 2 52)

/-- The double nearest to `num / den`, with a sign. -/
def nearestDouble (negative : Bool) (num den : Nat) : Float :=
  let bits := if num = 0 then 0 else nearestDoubleBits num den
  Float.ofBits (UInt64.ofNat (if negative then Nat.pow 2 63 + bits else bits))

/-- The double nearest to a dyadic number, with a sign. -/
def Dyadic.toDouble (negative : Bool) (d : Dyadic) : Float :=
  nearestDouble negative (d.mantissa * Nat.pow 2 d.exponent.toNat) (Nat.pow 2 (-d.exponent).toNat)

end BasicScript
