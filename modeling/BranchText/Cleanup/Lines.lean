import BranchText.Text.Alphabet

/-!
# Lines

The two passes that work on lines. `normalizeLineBreaks` comes first: all line breaks become line
feeds and runs of blank lines shrink to one. `collapseWhitespace` comes later: runs of spaces and
tabs become single spaces, lines are trimmed, blank lines at both ends are dropped, and the text
ends in one line feed.
-/

namespace BranchText

namespace Cleanup

/-- Splits a text at every character that is a separator. -/
def splitAtEvery (isSeparator : Char → Bool) : List Char → List (List Char)
  | [] => [[]]
  | c :: rest =>
    if isSeparator c then [] :: splitAtEvery isSeparator rest
    else
      match splitAtEvery isSeparator rest with
      | [] => [[c]]
      | part :: parts => (c :: part) :: parts

/-- The lines of a text, without their line feeds. -/
def lines (text : List Char) : List (List Char) := splitAtEvery (· = '\n') text

/-- Joins parts with one character between any two. -/
def joinWith (separator : Char) : List (List Char) → List Char
  | [] => []
  | [part] => part
  | part :: parts => part ++ separator :: joinWith separator parts

/-- Turns carriage returns, with or without a line feed, into line feeds. -/
def unifyLineBreaks : List Char → List Char
  | [] => []
  | '\r' :: '\n' :: rest => '\n' :: unifyLineBreaks rest
  | '\r' :: rest => '\n' :: unifyLineBreaks rest
  | c :: rest => c :: unifyLineBreaks rest

/-- Keeps the first line of each run of blank lines; `afterBlank` says that one was just kept. -/
def squeezeBlankLines (alphabet : Alphabet) (afterBlank : Bool) :
    List (List Char) → List (List Char)
  | [] => []
  | line :: rest =>
    if line.all alphabet.isWhitespace then
      if afterBlank then squeezeBlankLines alphabet true rest
      else line :: squeezeBlankLines alphabet true rest
    else line :: squeezeBlankLines alphabet false rest

/-- Line feeds for all line breaks, and at most one blank line at a time. -/
def normalizeLineBreaks (alphabet : Alphabet) (text : List Char) : List Char :=
  joinWith '\n' (squeezeBlankLines alphabet false (lines (unifyLineBreaks text)))

/-- Whether the character is a space or a tab. -/
def isBlank (c : Char) : Bool := c = ' ' || c = '\t'

/-- The words of a line, single spaces between them. -/
def collapseLine (line : List Char) : List Char :=
  joinWith ' ' ((splitAtEvery isBlank line).filter (!·.isEmpty))

/-- Drops empty lines at both ends. -/
def trimEmptyLines (lines : List (List Char)) : List (List Char) :=
  ((lines.dropWhile (·.isEmpty)).reverse.dropWhile (·.isEmpty)).reverse

/-- Single spaces within lines, none around them, and one line feed at the end. -/
def collapseWhitespace (text : List Char) : List Char :=
  joinWith '\n' (trimEmptyLines ((lines text).map collapseLine)) ++ ['\n']

end Cleanup

end BranchText
