import BranchText.Script.Value

/-!
# The operators of scripts

Integers stay within 64 bits: an operation that leaves the range, or divides by zero, has no
result. An integer beside a double is taken as a double. A text takes the text of anything added
to either side of it.
-/

namespace BranchText

namespace Script

/-- An integer within 64 bits. -/
def wholeNumber? (value : Int) : Option Value :=
  if smallestInteger ≤ value ∧ value ≤ largestInteger then some (.integer value) else none

/-- An operation on integers. -/
def onIntegers? (operator : Operator) (left right : Int) : Option Value :=
  match operator with
  | .add => wholeNumber? (left + right)
  | .subtract => wholeNumber? (left - right)
  | .multiply => wholeNumber? (left * right)
  | .divide => if right = 0 then none else wholeNumber? (Int.tdiv left right)
  | .remainder =>
    if right = 0 || (left = smallestInteger && right = -1) then none
    else wholeNumber? (Int.tmod left right)
  | .equal => some (.boolean (left == right))

/-- The remainder of a division of doubles that is rounded toward zero; it has the sign of the
dividend and is exact. -/
def remainderOf (dividend divisor : Float) : Float :=
  if dividend.isNaN || divisor.isNaN || dividend.isInf || divisor == 0.0 then
    Float.ofBits 0x7FF8000000000000
  else if divisor.isInf then dividend
  else
    let left := Decimal.Binary.ofFloat dividend
    let right := Decimal.Binary.ofFloat divisor
    let exponent := min left.exponent right.exponent
    let whole (binary : Decimal.Binary) : Nat :=
      binary.significand <<< (binary.exponent - exponent).toNat
    let rest := whole left % whole right
    let magnitude :=
      if 0 ≤ exponent then Decimal.nearestDouble (rest <<< exponent.toNat) 1
      else Decimal.nearestDouble rest (1 <<< (-exponent).toNat)
    if dividend.toBits >>> 63 != 0 then -magnitude else magnitude

/-- An operation on doubles. -/
def onDoubles (operator : Operator) (left right : Float) : Value :=
  match operator with
  | .add => .double (left + right)
  | .subtract => .double (left - right)
  | .multiply => .double (left * right)
  | .divide => .double (left / right)
  | .remainder => .double (remainderOf left right)
  | .equal => .boolean (left == right)

/-- The result of an operator, if it has one for these operands. -/
def operate? (operator : Operator) (left right : Value) : Option Value :=
  match operator, left, right with
  | .equal, left, right => some (.boolean (left.same right))
  | .add, .text left, right => some (.text (left ++ right.display))
  | .add, left, .text right => some (.text (left.display ++ right))
  | operator, .integer left, .integer right => onIntegers? operator left right
  | operator, left, right => do
    return onDoubles operator (← left.number?) (← right.number?)

/-- The operand with the other sign. -/
def negated? : Value → Option Value
  | .integer value => wholeNumber? (-value)
  | .double value => some (.double (-value))
  | _ => none

end Script

end BranchText
