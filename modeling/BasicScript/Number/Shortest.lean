import BasicScript.Number.Dyadic

/-! # Shortest decimal digits

Of all decimal numbers that read back as a given floating-point number, the
one with the fewest digits, and of these the nearest. A number that lies
halfway between two such decimals takes the upper one.
-/

namespace BasicScript

/-- The number `digits * 10 ^ exponent`. -/
structure Decimal where
  digits : Nat
  exponent : Int
  deriving DecidableEq, Repr

/-- Decimal exponent from which the search starts: no coarser grid meets the number. -/
def Dyadic.coarsestGrid (d : Dyadic) : Int :=
  let bits := (Nat.log2 d.mantissa : Int) + 1 + d.exponent
  Int.fdiv (bits * 30103) 100000 + 2

/-- The multiple of `10 ^ grid` that reads back as `d` and is nearest to it. -/
def Dyadic.onGrid? (d : Dyadic) (atStep : Bool) (grid : Int) : Option Nat :=
  -- everything is counted in quarters of the spacing `2 ^ d.exponent`, times powers of ten
  let scale := Nat.pow 10 (-grid).toNat * Nat.pow 2 d.exponent.toNat
  let step := 4 * (Nat.pow 10 grid.toNat * Nat.pow 2 (-d.exponent).toNat)
  let value := 4 * d.mantissa * scale
  let below := (if atStep then 1 else 2) * scale
  let above := 2 * scale
  let even := d.mantissa % 2 == 0
  let lower := value / step
  let downward := value % step
  let upward := step - downward
  let lowerReads := if even then downward ≤ below else downward < below
  let upperReads := if even then upward ≤ above else upward < above
  if lower ≠ 0 ∧ lowerReads ∧ (¬upperReads ∨ downward < upward) then some lower
  else if upperReads then some (lower + 1)
  else none

/-- The first hit on `count` grids, each ten times finer than the one before. -/
def Dyadic.searchGrids (d : Dyadic) (atStep : Bool) : Nat → Int → Option Decimal
  | 0, _ => none
  | count + 1, grid =>
    match d.onGrid? atStep grid with
    | some digits => some ⟨digits, grid⟩
    | none => d.searchGrids atStep count (grid - 1)

/-- Fewest digits that read back as a positive number. -/
def Dyadic.shortest (d : Dyadic) (atStep : Bool) : Decimal :=
  (d.searchGrids atStep 24 d.coarsestGrid).getD ⟨d.mantissa, 0⟩

end BasicScript
