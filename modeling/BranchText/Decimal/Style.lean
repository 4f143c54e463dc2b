import BranchText.Decimal.Shortest

/-!
# Number styles

The same shortest digits are written differently in messages, in object notation and by scripts.
A `Style` says when a number is written with an exponent and whether a whole number keeps a point
and a zero.
-/

namespace BranchText

namespace Decimal

/-- How a double is written once its digits are known. -/
structure Style where
  /-- Whether a whole number in positional form ends in `.0`. -/
  keepsPoint : Bool
  /-- Positive magnitudes below this one are written with an exponent. -/
  smallestPositional : Float
  /-- Magnitudes above this one are written with an exponent. -/
  largestPositional : Float
  /-- Whether a negative zero keeps its sign. -/
  signsZero : Bool

namespace Style

/-- The largest finite double. -/
def largestFinite : Float := Float.ofBits 0x7FEFFFFFFFFFFFFF

/-- Weights in messages: never an exponent, whole numbers without a point. -/
def message : Style := ⟨false, 0.0, largestFinite, true⟩

/-- Weights in object notation: never an exponent, always a point. -/
def objectNotation : Style := ⟨true, 0.0, largestFinite, true⟩

/-- Numbers in the output of scripts: positional between about `1e-13` and `1e13`, those bounds
being kept in single precision. -/
def scriptText : Style :=
  ⟨true, Float.ofBits 0x3D3C25C260000000, Float.ofBits 0x42A2309CE0000000, false⟩

/-- Numbers inside printed arrays and objects of scripts: positional from `1e-4` up to, and not
including, `1e16`. -/
def scriptElement : Style :=
  ⟨true, Float.ofBits 0x3F1A36E2EB1C432D, Float.ofBits 0x4341C37937E07FFF, true⟩

end Style

/-- The digits of a natural number. -/
def digitChars (n : Nat) : List Char := Nat.toDigits 10 n

/-- Digits with their exponent written out, in positional form. -/
def positional (keepsPoint : Bool) (number : Digits) : List Char :=
  let digits := digitChars number.digits
  if 0 ≤ number.exponent then
    digits ++ List.replicate number.exponent.toNat '0' ++ (if keepsPoint then ['.', '0'] else [])
  else
    let places := (-number.exponent).toNat
    let padded := List.replicate (places + 1 - digits.length) '0' ++ digits
    let whole := padded.length - places
    padded.take whole ++ '.' :: padded.drop whole

/-- Digits with one digit before the point and an exponent. -/
def scientific (number : Digits) : List Char :=
  match digitChars number.digits with
  | [] => []
  | first :: others =>
    let exponent := number.exponent + others.length
    let mantissa := if others.isEmpty then [first] else first :: '.' :: others
    let sign := if exponent < 0 then ['-'] else []
    mantissa ++ 'e' :: sign ++ digitChars exponent.natAbs

/-- Writes a double in the given style. -/
def write (style : Style) (x : Float) : String :=
  if x.isNaN then "NaN"
  else
    let magnitude := x.abs
    let negative := x.toBits >>> 63 != 0 && (style.signsZero || magnitude > 0.0)
    let body :=
      if magnitude > Style.largestFinite then ['i', 'n', 'f']
      else if magnitude > style.largestPositional ||
          (magnitude > 0.0 && magnitude < style.smallestPositional) then
        scientific (shortest magnitude)
      else positional style.keepsPoint (shortest magnitude)
    String.ofList (if negative then '-' :: body else body)

end Decimal

end BranchText
