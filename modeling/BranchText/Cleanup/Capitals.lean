import BranchText.Text.Alphabet

/-!
# Capitals

The first letter of the text and of every sentence becomes a capital. A sentence starts after a
mark that ends one and white space. A digit starts a sentence too, without being changed, and other
characters before its first letter are passed over.
-/

namespace BranchText

namespace Cleanup

/-- Marks that end a sentence. -/
def endsSentence (c : Char) : Bool := ['.', '!', '?'].contains c

/-- Where in a sentence the pass is. -/
structure SentencePlace where
  /-- Whether the next letter is the first of a sentence. -/
  atStart : Bool
  /-- Whether only marks were read since a mark that ends a sentence. -/
  afterEnd : Bool
  deriving Repr, DecidableEq

namespace SentencePlace

/-- The place after a character that is not made a capital. -/
def after (alphabet : Alphabet) (place : SentencePlace) (c : Char) : SentencePlace :=
  if endsSentence c then { place with afterEnd := true }
  else if alphabet.isWhitespace c then { place with atStart := place.atStart || place.afterEnd }
  else if !place.atStart || alphabet.isAlphanumeric c then ⟨false, false⟩
  else place

end SentencePlace

/-- Corrects the text that follows a place. -/
def capitalizeFrom (alphabet : Alphabet) (place : SentencePlace) : List Char → List Char
  | [] => []
  | c :: rest =>
    if place.atStart && alphabet.isAlphabetic c then
      alphabet.upper c ++ capitalizeFrom alphabet ⟨false, false⟩ rest
    else c :: capitalizeFrom alphabet (place.after alphabet c) rest

/-- Makes the first letter of every sentence a capital. -/
def correctCapitals (alphabet : Alphabet) (text : List Char) : List Char :=
  capitalizeFrom alphabet ⟨true, false⟩ text

end Cleanup

end BranchText
