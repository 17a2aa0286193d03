import BasicScript.Number.Shortest

/-! # Text of floating-point numbers

Digits are written out in full, never with an exponent; whole numbers carry no
point. Zero keeps its sign.
-/

namespace BasicScript

/-- Digits with zeros or a point put in. -/
def Decimal.positional (d : Decimal) : String :=
  let digits := (Nat.repr d.digits).toList
  if 0 ≤ d.exponent then
    String.ofList (digits ++ List.replicate d.exponent.toNat '0')
  else
    let places := (-d.exponent).toNat
    if places < digits.length then
      let whole := digits.length - places
      String.ofList (digits.take whole ++ '.' :: digits.drop whole)
    else
      String.ofList ('0' :: '.' :: (List.replicate (places - digits.length) '0' ++ digits))

/-- Text of a classified number. -/
def FloatClass.text : FloatClass → String
  | .nan => "NaN"
  | .infinite negative => if negative then "-inf" else "inf"
  | .finite negative magnitude atStep =>
    let digits :=
      if magnitude.mantissa = 0 then "0" else (magnitude.shortest atStep).positional
    if negative then "-" ++ digits else digits

/-- Text of a double. -/
def floatText (x : Float) : String := (classifyDouble x).text

/-- Text of a float. -/
def float32Text (x : Float32) : String := (classifySingle x).text

end BasicScript
