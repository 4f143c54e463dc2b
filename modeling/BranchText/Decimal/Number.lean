import BranchText.Decimal.Nearest

/-!
# Numbers with a fraction and an exponent

The double nearest to a number as notations write it: digits, a point and more digits, and a power
of ten. Powers that lie beyond every double are not multiplied out.
-/

namespace BranchText

namespace Decimal

/-- The double nearest to `digits * 10 ^ power`. -/
def nearestScaled (digits : Nat) (power : Int) : Float :=
  let size : Int := (Nat.log2 digits : Int) / 3
  if digits = 0 then 0.0
  else if 400 < power then Float.ofBits 0x7FF0000000000000
  else if size + power < -400 then 0.0
  else if 0 ≤ power then nearestDouble (digits * Nat.pow 10 power.toNat) 1
  else nearestDouble digits (Nat.pow 10 (-power).toNat)

/-- The double nearest to a number given by the characters of its parts; the exponent keeps its
sign. -/
def nearestToParts (whole fraction exponent : List Char) : Float :=
  let digits := appendDigits 0 (whole ++ fraction)
  let size := appendDigits 0 (exponent.filter isDigit)
  let power : Int := if exponent.contains '-' then -(size : Int) else size
  nearestScaled digits (power - fraction.length)

end Decimal

end BranchText
