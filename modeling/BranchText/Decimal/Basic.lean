/-!
# Decimals as written

A document writes weights as decimal numbers. `Decimal` keeps such a number exactly as it stands:
its digits, read as one whole number, and how many of them stand after the point.
-/

namespace BranchText

/-- The number `digits / 10 ^ places`. -/
structure Decimal where
  digits : Nat
  places : Nat
  deriving Repr, DecidableEq, Inhabited

namespace Decimal

/-- The value of a digit character; characters that are no digits count as zero. -/
def digitValue (c : Char) : Nat :=
  if '0' ≤ c ∧ c ≤ '9' then c.toNat - '0'.toNat else 0

/-- Appends the digit characters `cs` to the number `value`. -/
def appendDigits (value : Nat) (cs : List Char) : Nat :=
  cs.foldl (fun value c => 10 * value + digitValue c) value

/-- Whether the character is one of the ten decimal digits. -/
def isDigit (c : Char) : Bool := '0' ≤ c && c ≤ '9'

/-- Reads digits with an optional point and further digits. -/
def ofChars (cs : List Char) : Decimal :=
  let whole := cs.takeWhile isDigit
  match cs.dropWhile isDigit with
  | '.' :: fraction => ⟨appendDigits (appendDigits 0 whole) fraction, fraction.length⟩
  | _ => ⟨appendDigits 0 whole, 0⟩

end Decimal

end BranchText
