import BranchText.Decimal.Style

/-!
# Read errors

What can be wrong with the text of a document, each fault with the byte offset it is reported at.
Faults are causes; `ReadError.message` words them.
-/

namespace BranchText

/-- A fault in the text of a document outside its script blocks and quoted literals. -/
inductive Fault where
  | unclosedComment
  | unclosedParen
  | unclosedBrace
  | unclosedVerbatim
  | strayBrace
  /-- The set flag on a reference. -/
  | setReference
  | expectedReference
  /-- Written weights that sum to more than one hundred. -/
  | overweight (sum : Float)
  | expectedColon (identifier : String)
  | expectedIdentifier
  | expectedSeparator (found : String)
  | expectedChoice (found : String)
  | expectedClose (found : String)
  | legacyChoice
  | expectedMapping
  | fallbackNotLast
  | expectedBranch
  | invalidBranch (written : String)
  | expectedArrow (found : String)
  | expectedModeColon
  | expectedQuoted
  | expectedRuleArrow
  | expectedRuleSeparator
  deriving Repr

/-- A construct of script text that was opened and not closed. -/
inductive OpenText where
  | script
  | string
  | regex
  | comment
  | quoted
  deriving Repr, DecidableEq

/-- Why a document cannot be read, and where. -/
inductive ReadError where
  | malformed (offset : Nat) (fault : Fault)
  | unclosedScript (offset : Nat) (text : OpenText)
  /-- A branch index with two mappings in one reference. -/
  | duplicateBranch (branch : Nat) (offset : Nat)
  deriving Repr

namespace Fault

/-- The wording of a fault. -/
def message : Fault → String
  | unclosedComment => "unterminated block comment"
  | unclosedParen => "unterminated '(': no matching ')'"
  | unclosedBrace => "unterminated '\x7b': no matching '\x7d'"
  | unclosedVerbatim => "unterminated '[[': no matching ']]'"
  | strayBrace => "unexpected '\x7d' without a matching '\x7b'"
  | setReference => "'|' cannot be applied to a reference"
  | expectedReference => "expected '@' after 'eval'"
  | overweight sum =>
    "explicit weights sum to " ++ Decimal.write .message sum ++ ", which exceeds 100"
  | expectedColon identifier => "expected ':' after identifier '" ++ identifier ++ "'"
  | expectedIdentifier => "expected an identifier"
  | expectedSeparator found => "expected ',' or '\x7d', found '" ++ found ++ "'"
  | expectedChoice found => "expected '(', '[', '\x7b' or 'call', found '" ++ found ++ "'"
  | expectedClose found => "expected '\x7d', found '" ++ found ++ "'"
  | legacyChoice => "mode declarations cannot be used as a choice"
  | expectedMapping => "expected a mapping after ':'"
  | fallbackNotLast => "the fallback must be the last entry"
  | expectedBranch => "expected a branch index"
  | invalidBranch written =>
    "branch index must be a non-negative integer, found '" ++ written ++ "'"
  | expectedArrow found => "expected ',' or '->', found '" ++ found ++ "'"
  | expectedModeColon => "expected ':' after mode name"
  | expectedQuoted => "expected a quoted literal"
  | expectedRuleArrow => "expected '->' in mode rule"
  | expectedRuleSeparator => "expected ',' or '\x7d' in mode rules"

end Fault

namespace OpenText

/-- The wording of an unclosed construct. -/
def message : OpenText → String
  | script => "unterminated script block: no matching ']'"
  | string => "unterminated string literal"
  | regex => "unterminated regex literal"
  | comment => "unterminated block comment"
  | quoted => "unterminated quoted literal"

end OpenText

namespace ReadError

/-- The byte offset an error is reported at. -/
def offset : ReadError → Nat
  | malformed offset _ => offset
  | unclosedScript offset _ => offset
  | duplicateBranch _ offset => offset

/-- The full text of an error. -/
def message : ReadError → String
  | malformed offset fault =>
    "syntax error at offset " ++ toString offset ++ ": " ++ fault.message
  | unclosedScript offset text =>
    "script syntax error at offset " ++ toString offset ++ ": " ++ text.message
  | duplicateBranch branch offset =>
    "branch index " ++ toString branch ++ " is mapped more than once (offset "
      ++ toString offset ++ ")"

end ReadError

end BranchText
