import BranchText.Text.Alphabet
import BranchText.Text.Alphabet.Unprintable

/-!
# String literals

How text is shown between double quotes: controls and quotes after a backslash, and everything
that has no printed form of its own, or extends the character before it, by its code point.
-/

namespace BranchText

namespace Literal

/-- A character by its code point. -/
def byCodePoint (c : Char) : List Char :=
  ['\\', 'u', '{'] ++ Nat.toDigits 16 c.toNat ++ ['}']

/-- Whether a character can be shown as it is. -/
def isPlain (c : Char) : Bool :=
  !Alphabet.inRanges Alphabet.extendingRanges c.toNat
    && !Alphabet.inRanges Alphabet.unprintableRanges c.toNat

/-- How a character is written inside a literal. -/
def escape (c : Char) : List Char :=
  if c = '\x00' then ['\\', '0']
  else if c = '\t' then ['\\', 't']
  else if c = '\r' then ['\\', 'r']
  else if c = '\n' then ['\\', 'n']
  else if c = '\x22' then ['\\', '\x22']
  else if c = '\\' then ['\\', '\\']
  else if isPlain c then [c]
  else byCodePoint c

end Literal

/-- The literal for a text, with its quotes. -/
def literal (text : String) : String :=
  String.ofList ('\x22' :: text.toList.flatMap Literal.escape ++ ['\x22'])

end BranchText
