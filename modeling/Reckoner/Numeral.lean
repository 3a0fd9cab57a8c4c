import Reckoner.Decimal.Shortest

/-! # The text of a number

Numbers are written in positional notation with the fewest digits that read back, never with an
exponent.  Both zeros are `0`.
-/
namespace Reckoner.Numeral

def text (x : Float) : String :=
  if x.isNaN then "NaN"
  else if x.isInf then (if 0.0 < x then "Infinity" else "-Infinity")
  else if x == 0.0 then "0"
  else if x < 0.0 then "-" ++ String.ofList (Decimal.shortest (-x)).positional
  else String.ofList (Decimal.shortest x).positional

end Reckoner.Numeral
