import BasicScript.Number.Dyadic

/-! # Remainder of floating-point division

The quotient is truncated toward zero, so the remainder has the sign of the
dividend. It is computed on whole numbers and is exact.
-/

namespace BasicScript

/-- Remainder of two magnitudes, on the finer of their two grids. -/
def Dyadic.mod (a b : Dyadic) : Dyadic :=
  let unit := min a.exponent b.exponent
  let x := a.mantissa * Nat.pow 2 (a.exponent - unit).toNat
  let y := b.mantissa * Nat.pow 2 (b.exponent - unit).toNat
  ⟨x % y, unit⟩

/-- Remainder of two doubles; undefined for an infinite dividend and for a zero divisor. -/
def floatRemainder (x y : Float) : Float :=
  match classifyDouble x, classifyDouble y with
  | .finite negative a _, .finite _ b _ =>
    if b.mantissa = 0 then 0.0 / 0.0 else (a.mod b).toDouble negative
  | .finite .., .infinite _ => x
  | _, _ => 0.0 / 0.0

/-- Remainder of two floats; the double computed on the way is one of the floats. -/
def float32Remainder (x y : Float32) : Float32 := (floatRemainder x.toFloat y.toFloat).toFloat32

end BasicScript
