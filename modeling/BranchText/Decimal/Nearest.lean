import BranchText.Decimal.Basic

/-!
# The double nearest to a quotient

`nearestDouble` rounds a quotient of natural numbers to the nearest double, a value halfway
between two doubles going to the one whose last bit is zero. All arithmetic is on natural numbers,
so the result is correctly rounded for every quotient, subnormal ones included.
-/

namespace BranchText

namespace Decimal

/-- Rounds `num / den` to the nearest whole number, halves to the even one. -/
def roundHalfEven (num den : Nat) : Nat :=
  let quotient := num / den
  let twice := 2 * (num % den)
  if twice < den then quotient
  else if twice > den then quotient + 1
  else quotient + quotient % 2

/-- The quotient `num / den` divided by `2 ^ exponent`, rounded to the nearest whole number. -/
def scaled (num den : Nat) (exponent : Int) : Nat :=
  if 0 ≤ exponent then roundHalfEven num (den <<< exponent.toNat)
  else roundHalfEven (num <<< (-exponent).toNat) den

/-- The power of two of the last bit of the double nearest to `num / den`: the significand has 53
bits unless the value is subnormal. -/
def lastBitExponent (num den : Nat) : Int :=
  let estimate : Int := (Nat.log2 num : Int) - (Nat.log2 den : Int)
  let reaches : Bool :=
    if 0 ≤ estimate then decide (den <<< estimate.toNat ≤ num)
    else decide (den ≤ num <<< (-estimate).toNat)
  let exponent := if reaches then estimate - 52 else estimate - 53
  if exponent < -1074 then -1074 else exponent

/-- The first bit of the significand of a double that is not subnormal: two to the power of 52. -/
def hiddenBit : Nat := 0x10000000000000

/-- The bits of the double nearest to `num / den`, where `den` is positive. -/
def nearestBits (num den : Nat) : UInt64 :=
  if num = 0 then 0
  else
    let exponent := lastBitExponent num den
    let significand := scaled num den exponent
    let infinity : Nat := 0x7FF0000000000000
    let bits :=
      if significand < hiddenBit then significand
      else (exponent + 1075).toNat * hiddenBit + (significand - hiddenBit)
    UInt64.ofNat (if bits < infinity then bits else infinity)

/-- The double nearest to `num / den`, where `den` is positive. -/
def nearestDouble (num den : Nat) : Float := Float.ofBits (nearestBits num den)

/-- The double nearest to the written number. -/
def toFloat (decimal : Decimal) : Float :=
  nearestDouble decimal.digits (Nat.pow 10 decimal.places)

end Decimal

end BranchText
