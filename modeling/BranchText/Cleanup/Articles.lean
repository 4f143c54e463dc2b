import BranchText.Text.Alphabet

/-!
# Articles

`a` stands before a consonant sound and `an` before a vowel sound. An article that does not agree
with the word after it is replaced by the other one, with the case of its first letter. Only white
space may stand between the two. Each article is judged by the words of the text as it was.
-/

namespace BranchText

namespace Cleanup

/-- A run of characters that form a word, or a run of the others. -/
inductive Piece where
  | word (chars : List Char)
  | gap (chars : List Char)
  deriving Repr, DecidableEq

namespace Piece

/-- The characters of a piece. -/
def chars : Piece → List Char
  | word chars => chars
  | gap chars => chars

/-- Puts a character in front of the pieces of a text. -/
def attachTo (isWordChar : Bool) (c : Char) (pieces : List Piece) : List Piece :=
  match isWordChar, pieces with
  | true, word chars :: rest => word (c :: chars) :: rest
  | true, rest => word [c] :: rest
  | false, gap chars :: rest => gap (c :: chars) :: rest
  | false, rest => gap [c] :: rest

end Piece

/-- Whether a character can be part of a word. -/
def isWordChar (alphabet : Alphabet) (c : Char) : Bool :=
  alphabet.isAlphanumeric c || c = '\x27'

/-- The words of a text and the gaps between them. -/
def pieces (alphabet : Alphabet) : List Char → List Piece
  | [] => []
  | c :: rest => Piece.attachTo (isWordChar alphabet c) c (pieces alphabet rest)

/-- Beginnings with a vowel sound although they start with a consonant. -/
def vowelSounds : List String := ["hour", "honest", "honor", "honour", "heir", "herb"]

/-- Beginnings with a consonant sound although they start with a vowel. -/
def consonantSounds : List String :=
  ["once", "uni", "use", "usu", "uti", "eu", "ewe", "ubiq", "uk"]

/-- A word in lower case. -/
def lowerWord (alphabet : Alphabet) (word : List Char) : List Char := word.flatMap alphabet.lower

/-- Whether a word starts with a vowel sound. -/
def startsWithVowelSound (alphabet : Alphabet) (word : List Char) : Bool :=
  let lower := lowerWord alphabet word
  if vowelSounds.any (·.toList.isPrefixOf lower) then true
  else if lower = ['o', 'n', 'e'] || consonantSounds.any (·.toList.isPrefixOf lower) then false
  else
    match lower with
    | [] => false
    | first :: _ => ['a', 'e', 'i', 'o', 'u'].contains first

/-- Whether a word starts in upper case. -/
def startsUpper (alphabet : Alphabet) : List Char → Bool
  | [] => false
  | first :: _ => alphabet.lower first != [first]

/-- Whether a word is an article, and if so, whether it is `an`. -/
def article? (alphabet : Alphabet) (word : List Char) : Option Bool :=
  let lower := lowerWord alphabet word
  if lower = ['a'] then some false
  else if lower = ['a', 'n'] then some true
  else none

/-- The word before `next`, corrected if it is an article that does not agree. -/
def agreeWith (alphabet : Alphabet) (word next : List Char) : List Char :=
  match article? alphabet word with
  | none => word
  | some isAn =>
    let wantsAn := startsWithVowelSound alphabet next
    if wantsAn = isAn then word
    else
      let first := if startsUpper alphabet word then 'A' else 'a'
      if wantsAn then [first, 'n'] else [first]

/-- Corrects the articles in a list of pieces. -/
def correctPieces (alphabet : Alphabet) : List Piece → List Char
  | [] => []
  | .word word :: .gap gap :: .word next :: rest =>
    (if gap.all alphabet.isWhitespace then agreeWith alphabet word next else word)
      ++ gap ++ correctPieces alphabet (.word next :: rest)
  | piece :: rest => piece.chars ++ correctPieces alphabet rest

/-- Makes every article agree with the word after it. -/
def correctArticles (alphabet : Alphabet) (text : List Char) : List Char :=
  correctPieces alphabet (pieces alphabet text)

end Cleanup

end BranchText
