/-!
# Hexadecimal digits

Escapes name characters by their code points in hexadecimal digits.
-/

namespace BranchText

namespace Hex

/-- The value of a hexadecimal digit. -/
def value? (c : Char) : Option Nat :=
  if '0' ≤ c ∧ c ≤ '9' then some (c.toNat - '0'.toNat)
  else if 'a' ≤ c ∧ c ≤ 'f' then some (c.toNat - 'a'.toNat + 10)
  else if 'A' ≤ c ∧ c ≤ 'F' then some (c.toNat - 'A'.toNat + 10)
  else none

/-- The number written by hexadecimal digits. -/
def number? (digits : List Char) : Option Nat := do
  return (← digits.mapM value?).foldl (fun number value => 16 * number + value) 0

/-- The character with a code point. Code points of surrogates belong to no character. -/
def char? (point : Nat) : Option Char :=
  if point.isValidChar then some (Char.ofNat point) else none

end Hex

end BranchText
