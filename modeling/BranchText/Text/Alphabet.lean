import BranchText.Text.Alphabet.Alphabetic
import BranchText.Text.Alphabet.Numeric
import BranchText.Text.Alphabet.Uppercase

/-!
# Alphabets

What the reader of documents and the cleanup passes need to know about characters. An `Alphabet`
collects it, so that laws of the passes can be stated for every alphabet that has the properties
they need; `Alphabet.unicode` is the one that programs use.
-/

namespace BranchText

/-- The properties of characters that matter to text. -/
structure Alphabet where
  isAlphabetic : Char → Bool
  isNumeric : Char → Bool
  isWhitespace : Char → Bool
  /-- The upper case of a character, which may be several. -/
  upper : Char → List Char
  /-- The lower case of a character, as far as the letters from `a` to `z` are concerned. -/
  lower : Char → List Char

namespace Alphabet

/-- Whether the character is a letter or a number. -/
def isAlphanumeric (alphabet : Alphabet) (c : Char) : Bool :=
  alphabet.isAlphabetic c || alphabet.isNumeric c

/-- Whether a code point lies in one of the ranges, which ascend. -/
def inRanges : List (Nat × Nat) → Nat → Bool
  | [], _ => false
  | (low, high) :: rest, point =>
    if point < low then false else if point ≤ high then true else inRanges rest point

/-- The ranges of white space. -/
def whitespaceRanges : List (Nat × Nat) :=
  [(0x9, 0xD), (0x20, 0x20), (0x85, 0x85), (0xA0, 0xA0), (0x1680, 0x1680), (0x2000, 0x200A),
    (0x2028, 0x2029), (0x202F, 0x202F), (0x205F, 0x205F), (0x3000, 0x3000)]

/-- The upper case of a code point by the runs, if it has one there. -/
def upperByRun? : List UpperRun → Nat → Option Nat
  | [], _ => none
  | run :: rest, point =>
    if point < run.first then none
    else if point ≤ run.last && (point - run.first) % run.step = 0 then
      some (run.upper + (point - run.first))
    else upperByRun? rest point

/-- The upper case of a character by the Unicode standard. -/
def unicodeUpper (c : Char) : List Char :=
  match upperSequences.lookup c.toNat with
  | some points => points.map Char.ofNat
  | none =>
    match upperByRun? upperRuns c.toNat with
    | some point => [Char.ofNat point]
    | none => [c]

/-- Outside the ASCII range only the dotted capital I and the Kelvin sign have a letter from `a`
to `z` in their lower case. -/
def latinLower (c : Char) : List Char :=
  if 'A' ≤ c ∧ c ≤ 'Z' then [Char.ofNat (c.toNat + 32)]
  else if c = 'İ' then ['i', '\u0307']
  else if c.toNat = 0x212A then ['k']
  else [c]

/-- The character properties of the Unicode standard, version 15. -/
def unicode : Alphabet where
  isAlphabetic c := inRanges alphabeticRanges c.toNat
  isNumeric c := inRanges numericRanges c.toNat
  isWhitespace c := inRanges whitespaceRanges c.toNat
  upper := unicodeUpper
  lower := latinLower

end Alphabet

end BranchText
