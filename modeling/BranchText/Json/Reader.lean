import BranchText.Decimal.Number
import BranchText.Json.Basic
import BranchText.Text.Hex
import BranchText.Text.Scan

/-!
# Reading JSON

A text is one value with blanks around it. Integers that fit into 64 bits are integers; other
numbers, and zero with a minus sign, are doubles. Escaped surrogates have to come in pairs.
-/

namespace BranchText

namespace Json

namespace Reader

/-- Whether a character is a blank. -/
def isBlank (c : Char) : Bool := c = ' ' || c = '\t' || c = '\n' || c = '\r'

/-- Takes blanks. -/
def blanks : Scan Unit := discard (Scan.takeWhile isBlank)

/-- Takes digits, at least one. -/
def digits : Scan (List Char) := do
  let taken ← Scan.takeWhile Decimal.isDigit
  if taken.isEmpty then Scan.fail else return taken

/-- Takes digits that do not start with an idle zero. -/
def wholeDigits : Scan (List Char) := do
  let taken ← digits
  match taken with
  | '0' :: _ :: _ => Scan.fail
  | taken => return taken

/-- Takes a fraction and its point, if there is one. -/
def fraction : Scan (List Char) := do
  if ← Scan.accept ['.'] then digits else return []

/-- Takes an exponent with its sign, if there is one. -/
def exponent : Scan (List Char) := do
  let next ← Scan.peek?
  if next = some 'e' || next = some 'E' then
    discard Scan.next
    if ← Scan.accept ['-'] then return '-' :: (← digits)
    else
      discard (Scan.accept ['+'])
      digits
  else return []

/-- The number with these parts. -/
def numberOf (negative : Bool) (whole fraction exponent : List Char) : Json :=
  let value := Decimal.appendDigits 0 whole
  if fraction.isEmpty && exponent.isEmpty && !negative && value < UInt64.size then integer value
  else if fraction.isEmpty && exponent.isEmpty && negative && value ≠ 0
      && value ≤ UInt64.size / 2 then
    integer (-(value : Int))
  else
    let magnitude := Decimal.nearestToParts whole fraction exponent
    double (if negative then -magnitude else magnitude)

/-- Takes a number. -/
def number : Scan Json := do
  let negative ← Scan.accept ['-']
  let whole ← wholeDigits
  let places ← fraction
  return numberOf negative whole places (← exponent)

/-- Takes four hexadecimal digits. -/
def codeUnit : Scan Nat := do Scan.some? (Hex.number? (← Scan.take 4))

/-- Takes a character after the start of its escape; a pair of surrogates is one character. -/
def codePoint : Scan Char := do
  let unit ← codeUnit
  if 0xD800 ≤ unit && unit < 0xDC00 then
    Scan.require ['\\', 'u']
    let low ← codeUnit
    if 0xDC00 ≤ low && low < 0xE000 then
      Scan.some? (Hex.char? (0x10000 + 0x400 * (unit - 0xD800) + (low - 0xDC00)))
    else Scan.fail
  else Scan.some? (Hex.char? unit)

/-- Takes an escape after its backslash. -/
def escape : Scan Char := do
  match ← Scan.next with
  | '\x22' => return '\x22'
  | '\\' => return '\\'
  | '/' => return '/'
  | 'b' => return '\x08'
  | 'f' => return '\x0c'
  | 'n' => return '\n'
  | 'r' => return '\r'
  | 't' => return '\t'
  | 'u' => codePoint
  | _ => Scan.fail

/-- Takes the characters of a text up to its closing quote, at most `limit` of them. -/
def quotedUpTo : Nat → List Char → Scan (List Char)
  | 0, _ => Scan.fail
  | limit + 1, taken => do
    match ← Scan.next with
    | '\x22' => return taken.reverse
    | '\\' => quotedUpTo limit ((← escape) :: taken)
    | c => if c.toNat < 32 then Scan.fail else quotedUpTo limit (c :: taken)

/-- Takes a text between quotes. -/
def text : Scan String := do
  Scan.require ['\x22']
  return String.ofList (← quotedUpTo ((← get).length + 1) [])

/-- Takes one member of an object. -/
def member (value : Scan Json) : Scan (String × Json) := do
  let key ← text
  blanks
  Scan.require [':']
  blanks
  return (key, ← value)

/-- Takes a value, `inner` being for the values inside it. -/
def valueWith (inner : Scan Json) : Scan Json := do
  match ← Scan.peek? with
  | some 'n' => Scan.require ['n', 'u', 'l', 'l']; return .null
  | some 't' => Scan.require ['t', 'r', 'u', 'e']; return .bool true
  | some 'f' => Scan.require ['f', 'a', 'l', 's', 'e']; return .bool false
  | some '\x22' => return .text (← text)
  | some '[' =>
    discard Scan.next
    return .list (← Scan.separated false blanks ']' inner)
  | some '\x7b' =>
    discard Scan.next
    return .object (← Scan.separated false blanks '\x7d' (member inner))
  | _ => number

/-- Takes a value with at most `depth` values inside each other. -/
def value : Nat → Scan Json
  | 0 => Scan.fail
  | depth + 1 => valueWith (value depth)

end Reader

/-- Reads a text that holds one value. Each value inside another takes a character, so they are
not nested deeper than the text is long. -/
def read? (text : List Char) : Option Json :=
  Scan.whole? (do
    Reader.blanks
    let value ← Reader.value (text.length + 1)
    Reader.blanks
    return value) text

end Json

end BranchText
