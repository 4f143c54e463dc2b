/-!
# Tokens

A token is a lexeme of document text with the byte range it was read from. The text of a token is
what it stands for, which differs from the source where a backslash escapes a character.
-/

namespace BranchText

/-- The kinds of tokens. -/
inductive TokenKind where
  | whitespace
  | newline
  | lineComment
  | blockCommentStart
  | blockCommentEnd
  | doubleQuote
  | singleQuote
  | backtick
  | leftParen
  | rightParen
  | leftBrace
  | rightBrace
  | leftBracket
  | rightBracket
  | doubleLeftBracket
  | doubleRightBracket
  | comma
  | colon
  | at
  | hash
  | pipe
  | arrow
  | call
  | eval
  | mode
  | use
  | match
  | number
  | text
  | endOfText
  deriving Repr, DecidableEq, Inhabited

namespace TokenKind

/-- Whether the kind is one of the words with a meaning of their own. -/
def isKeyword : TokenKind → Bool
  | .call | .eval | .mode | .use | .match => true
  | _ => false

/-- Whether tokens of the kind only separate others. -/
def isTrivia : TokenKind → Bool
  | .whitespace | .newline => true
  | _ => false

/-- The quote character of the kinds that open a quoted literal. -/
def quote? : TokenKind → Option Char
  | .doubleQuote => some '\x22'
  | .singleQuote => some '\x27'
  | .backtick => some '\x60'
  | _ => none

end TokenKind

/-- A lexeme and the byte range it covers. -/
structure Token where
  kind : TokenKind
  start : Nat
  stop : Nat
  text : String
  deriving Repr, DecidableEq

namespace Token

/-- How a message names the token. -/
def shown (token : Token) : String :=
  match token.kind with
  | .endOfText => "end of input"
  | .newline => "line break"
  | _ => token.text

end Token

end BranchText
