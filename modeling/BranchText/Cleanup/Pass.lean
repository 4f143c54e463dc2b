import BranchText.Cleanup.Articles
import BranchText.Cleanup.Capitals
import BranchText.Cleanup.Punctuation
import BranchText.Settings.Basic

/-!
# Cleanup

Cleanup runs once over the text of a whole render: line breaks, punctuation, capitals, white space
and articles, in this order. Settings switch passes off; the two passes for lines go together.
-/

namespace BranchText

namespace CleanupSettings

/-- Runs a pass if it is on. -/
def runIf (on : Bool) (pass : List Char → List Char) (text : List Char) : List Char :=
  if on then pass text else text

/-- Tidies a text, by the character properties of an alphabet. -/
def tidy (settings : CleanupSettings) (alphabet : Alphabet) (text : List Char) : List Char :=
  let text := runIf settings.whitespace (Cleanup.normalizeLineBreaks alphabet) text
  let text := runIf settings.punctuation Cleanup.snapPunctuation text
  let text := runIf settings.capitalization (Cleanup.correctCapitals alphabet) text
  let text := runIf settings.whitespace Cleanup.collapseWhitespace text
  runIf settings.articles (Cleanup.correctArticles alphabet) text

/-- Tidies a text. -/
def apply (settings : CleanupSettings) (text : String) : String :=
  String.ofList (settings.tidy .unicode text.toList)

end CleanupSettings

end BranchText
