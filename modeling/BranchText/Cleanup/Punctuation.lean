import BranchText.Cleanup.Lines

/-!
# Punctuation

Punctuation attaches to the word before it: spaces and tabs directly before a mark are dropped.
-/

namespace BranchText

namespace Cleanup

/-- Marks that attach to the word before them. -/
def isPunctuation (c : Char) : Bool := [',', '.', ';', ':', '!', '?'].contains c

/-- Puts a character after a text that is kept last character first. -/
def attach (written : List Char) (c : Char) : List Char :=
  c :: if isPunctuation c then written.dropWhile isBlank else written

/-- Drops the spaces and tabs before punctuation. -/
def snapPunctuation (text : List Char) : List Char := (text.foldl attach []).reverse

end Cleanup

end BranchText
