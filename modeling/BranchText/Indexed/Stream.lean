import BranchText.Indexed.Access
import BranchText.Script.Extent
import BranchText.Text.Quoted

/-!
# Tokens and searches by byte index

The token stream at byte indices, and the searches for the end of a script block, of a quoted
literal and of a comment. The searches go through the bytes of characters outside ASCII one by one,
and a backslash takes the next byte along, which may be the first of several.
-/

namespace BranchText

namespace Indexed

/-- The number of bytes of the run of blanks, or the number, that starts a text in bytes. -/
def runLength (bytes : List Char) : Nat :=
  match bytes with
  | [] => 0
  | first :: rest => (Lexeme.ofRun first rest).length

/-- Whether a text starts with a run of blanks or with a number. -/
def startsRun : List Char → Bool
  | [] => false
  | first :: rest =>
    first != '\\' && (Lexeme.fixed? (first :: rest)).isNone &&
      (Lexeme.isBlank first || Decimal.isDigit first)

/-- The token at a byte index, comments not skipped. Runs are measured in bytes and sliced. -/
def scan (index : Nat) : Indexed Token := do
  let found ← place index
  if startsRun found.rest then
    let stop := index + runLength ((bytesOf (← source)).drop index)
    let text ← slice index stop
    return ⟨found.token.kind, index, stop, String.ofList text⟩
  else return found.token

/-- The byte index of the line break that ends a line comment, whose text starts at `start`, or of
the end of the source. -/
def lineEnd (start : Nat) : Indexed Nat := do
  discard (place start)
  let bytes := bytesOf (← source)
  match (bytes.drop start).idxOf? '\n' with
  | none => return bytes.length
  | some length =>
    let before ← byteAt (start + length - 1)
    return max start (if before = '\r' then start + length - 1 else start + length)

/-- The byte index after a block comment that opens at `opening` and whose text starts at
`start`. -/
def commentEnd (opening start : Nat) : Indexed Nat := do
  discard (place start)
  match lengthOfBlockComment? ((bytesOf (← source)).drop start) with
  | none => throw (.malformed opening .unclosedComment)
  | some length => return start + length

/-- What is searched for from a byte index on. -/
inductive Search : Type → Type where
  /-- The next token that is no comment. -/
  | token (index : Nat) : Search Token
  /-- The byte index of the bracket that closes the script block opened at `opening`. -/
  | scriptEnd (opening : Nat) (state : Extent.State) (index : Nat) : Search Nat
  /-- The byte index of the quote that closes the literal opened at `opening`. -/
  | quoteEnd (quote : Char) (opening index : Nat) : Search Nat
  /-- The rest of a verbatim text, behind which the stream goes on. -/
  | verbatim (opening index : Nat) (text : List Char) : Search (List Char)

/-- Goes from byte index to byte index until something is found. -/
def Search.find {α : Type} : Search α → Indexed α
  | .token index => do
    let token ← scan index
    match token.kind with
    | .lineComment =>
      let stop ← lineEnd token.stop
      Search.token stop |>.find
    | .blockCommentStart =>
      let stop ← commentEnd token.start token.stop
      return ⟨.whitespace, stop, stop, " "⟩
    | _ => return token
  | .scriptEnd opening state index => do
    let bytes := bytesOf (← source)
    if index < bytes.length then
      let byte ← byteAt index
      match Extent.step state index byte bytes[index + 1]? with
      | .one state => Search.scriptEnd opening state (index + 1) |>.find
      | .two state => Search.scriptEnd opening state (index + 2) |>.find
      | .close => return index
      | .fail error => throw error
    else throw (Extent.errorAtEnd opening state)
  | .quoteEnd quote opening index => do
    if index < (bytesOf (← source)).length then
      let byte ← byteAt index
      if byte = '\\' then Search.quoteEnd quote opening (index + 2) |>.find
      else if byte = '\n' && quote != '\x60' then throw (.unclosedScript opening .quoted)
      else if byte = quote then return index
      else Search.quoteEnd quote opening (index + 1) |>.find
    else throw (.unclosedScript opening .quoted)
  | .verbatim opening index text => do
    if index < (bytesOf (← source)).length then
      let found ← place index
      match found.rest with
      | '\\' :: ']' :: ']' :: _ =>
        Search.verbatim opening (index + 3) (text ++ [']', ']']) |>.find
      | ']' :: ']' :: _ =>
        jump (index + 2)
        return text
      | c :: _ => Search.verbatim opening (index + c.utf8Size) (text ++ [c]) |>.find
      | [] => outside
    else throw (.malformed opening .unclosedVerbatim)
partial_fixpoint

/-- Looks at the next token without taking it. -/
def peek : Indexed Token := do
  match (← get).ahead with
  | some token => return token
  | none =>
    let token ← (Search.token (← here)).find
    modify fun lexer => { lexer with ahead := some token }
    return token

/-- Takes the next token. -/
def next : Indexed Token := do
  let token ← peek
  jump token.stop
  return token

end Indexed

end BranchText
