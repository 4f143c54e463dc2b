import BranchText.Decimal.Nearest

/-!
# Shortest decimal digits of a double

A double stands for every real number that rounds to it. `shortest` finds the decimal with the
fewest digits in that interval, and of those with equally few the one nearest to the double
itself. The search looks at the two neighbours of the value on the decimal grids with one, two,
three and more digits; an interval that holds a point of a grid holds one of these neighbours.
-/

namespace BranchText

namespace Decimal

/-- The positive real number `significand * 2 ^ exponent`, with the interval that rounds to it. -/
structure Binary where
  significand : Nat
  exponent : Int
  /-- Whether the next smaller double is only half as far away as the next larger one. -/
  narrowBelow : Bool
  deriving Repr, DecidableEq

/-- The magnitude of a finite double. -/
def Binary.ofFloat (x : Float) : Binary :=
  let bits := x.toBits.toNat
  let fraction : Nat := bits % hiddenBit
  let field : Nat := bits / hiddenBit % 2048
  if field = 0 then ⟨fraction, -1074, false⟩
  else ⟨hiddenBit + fraction, (field : Int) - 1075, fraction = 0 && field > 1⟩

/-- The number `digits * 10 ^ exponent`. -/
structure Digits where
  digits : Nat
  exponent : Int
  deriving Repr, DecidableEq

namespace Digits

/-- Drops zeros at the end of the digits, at most `fuel` of them. -/
def trim : Nat → Digits → Digits
  | 0, number => number
  | fuel + 1, ⟨digits, exponent⟩ =>
    if digits ≠ 0 ∧ digits % 10 = 0 then trim fuel ⟨digits / 10, exponent + 1⟩
    else ⟨digits, exponent⟩

end Digits

/-- A value with the bounds of its interval, all over one denominator. -/
structure Interval where
  low : Nat
  value : Nat
  high : Nat
  den : Nat
  /-- Whether the bounds themselves belong to the interval. -/
  closed : Bool

/-- The reals that round to a double: half way to each neighbour, the ends included when the last
bit of the significand is zero. -/
def Binary.interval (x : Binary) : Interval :=
  let quarter : Int := x.exponent - 2
  let up := if 0 ≤ quarter then 1 <<< quarter.toNat else 1
  let den := if 0 ≤ quarter then 1 else 1 <<< (-quarter).toNat
  let middle := 4 * x.significand
  { low := (middle - if x.narrowBelow then 1 else 2) * up
    value := middle * up
    high := (middle + 2) * up
    den := den
    closed := x.significand % 2 = 0 }

namespace Interval

/-- Whether `digits * 10 ^ exponent` lies in the interval. -/
def holds (interval : Interval) (number : Digits) : Bool :=
  let scale := if 0 ≤ number.exponent then Nat.pow 10 number.exponent.toNat else 1
  let shrink := if 0 ≤ number.exponent then 1 else Nat.pow 10 (-number.exponent).toNat
  let point := number.digits * scale * interval.den
  let low := interval.low * shrink
  let high := interval.high * shrink
  if interval.closed then low ≤ point && point ≤ high else low < point && point < high

/-- The largest multiple of `10 ^ exponent` that does not exceed the value. -/
def below (interval : Interval) (exponent : Int) : Digits :=
  let digits :=
    if 0 ≤ exponent then interval.value / (interval.den * Nat.pow 10 exponent.toNat)
    else interval.value * Nat.pow 10 (-exponent).toNat / interval.den
  ⟨digits, exponent⟩

/-- Whether the value is nearer to the lower end than to the upper end of its grid cell. -/
def nearerBelow (interval : Interval) (lower : Digits) : Bool :=
  let scale := if 0 ≤ lower.exponent then Nat.pow 10 lower.exponent.toNat else 1
  let shrink := if 0 ≤ lower.exponent then 1 else Nat.pow 10 (-lower.exponent).toNat
  2 * (interval.value * shrink) < (2 * lower.digits + 1) * scale * interval.den

/-- The neighbour on one grid that lies in the interval, the nearer of two and the upper of two
equally near ones. -/
def pointOn? (interval : Interval) (exponent : Int) : Option Digits :=
  let lower := interval.below exponent
  let upper : Digits := ⟨lower.digits + 1, exponent⟩
  let lowerHolds := lower.digits ≠ 0 && interval.holds lower
  match lowerHolds, interval.holds upper with
  | true, true => some (if interval.nearerBelow lower then lower else upper)
  | true, false => some lower
  | false, true => some upper
  | false, false => none

/-- Searches finer and finer grids, starting with steps of `10 ^ exponent`. -/
def search (interval : Interval) : Nat → Int → Digits
  | 0, exponent => interval.below exponent
  | fuel + 1, exponent =>
    match interval.pointOn? exponent with
    | some number => number
    | none => interval.search fuel (exponent - 1)

end Interval

/-- The decimal exponent of the first digit of a positive quotient, or one more. -/
def leadingExponent (num den : Nat) : Int :=
  if num ≥ den then ((num / den).log2 * 30103 / 100000 + 1 : Nat)
  else -((den / num).log2 * 30103 / 100000 : Nat)

/-- The shortest digits that read back as the magnitude of a finite double; nothing for zero.

The first grid is coarser than the value, and a grid with seventeen digits is fine enough to
separate all doubles, so twenty grids always hold a point of the interval. -/
def shortest (x : Float) : Digits :=
  let binary := Binary.ofFloat x
  if binary.significand = 0 then ⟨0, 0⟩
  else
    let interval := binary.interval
    Digits.trim 20 (interval.search 20 (leadingExponent interval.value interval.den))

end Decimal

end BranchText
