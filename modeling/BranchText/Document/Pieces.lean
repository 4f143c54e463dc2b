import BranchText.Document.Basic
import BranchText.Script.Extent
import BranchText.Text.Alphabet
import BranchText.Text.Quoted
import BranchText.Token.Stream

/-!
# Pieces of documents

The parts of the grammar that do not nest: trivia, identifiers, flags, index lists, quoted and
verbatim text, and the passage of nodes that a sequence gathers. Each reader takes a cursor and
returns a `Reading`: a value, the cursor after it, and a bound on what is left, which is how
readers that call one another are seen to end.
-/

namespace BranchText

/-- A value read from a text, and the rest of the text, which is shorter than `limit`. -/
structure Reading (α : Type) (limit : Nat) where
  value : α
  rest : Cursor
  size_lt : rest.size < limit

/-- Mode declarations and switches, which belong to a document and not to the place they stand. -/
structure Legacy where
  modes : List ModeDeclaration
  switches : List String

namespace Legacy

/-- No declarations. -/
def empty : Legacy := ⟨[], []⟩

instance : Append Legacy where
  append first second := ⟨first.modes ++ second.modes, first.switches ++ second.switches⟩

end Legacy

/-- The nodes of a sequence read so far, last first, and the text after them. -/
structure Passage where
  nodes : List Node
  text : String

namespace Passage

/-- Nothing read. -/
def empty : Passage := ⟨[], ""⟩

/-- Adds text at the end. -/
def append (passage : Passage) (text : String) : Passage :=
  { passage with text := passage.text ++ text }

/-- Turns the text at the end into a node. It joins a text node just before it; no text makes no
node. -/
def flush (passage : Passage) : List Node :=
  if passage.text.isEmpty then passage.nodes
  else
    match passage.nodes with
    | .text before :: rest => .text (before ++ passage.text) :: rest
    | nodes => .text passage.text :: nodes

/-- Adds what a block stands for, which may be nothing. -/
def addBlock (passage : Passage) (node : Option Node) : Passage :=
  match node with
  | some node => ⟨node :: passage.flush, ""⟩
  | none => ⟨passage.flush, ""⟩

/-- The nodes in order. -/
def close (passage : Passage) : List Node := passage.flush.reverse

end Passage

namespace Reader

/-- Fails at the end of the text if the parenthesis at `enclosing` is still open. -/
def allClosed (enclosing : Option Nat) : Except ReadError Unit :=
  match enclosing with
  | some opening => .error (.malformed opening .unclosedParen)
  | none => .ok ()

/-- Skips tokens of the kinds that `skipped` accepts, none of which is the end of the text. -/
def skipWhile (skipped : TokenKind → Bool) (atEnd : skipped .endOfText = false) (cursor : Cursor) :
    Except ReadError (Reading Unit (cursor.size + 1)) :=
  match cursor.next with
  | .error error => .error error
  | .ok lexed =>
    if more : skipped lexed.token.kind = true then
      have progress := lexed.size_lt (fun kind => by rw [kind, atEnd] at more; cases more)
      match skipWhile skipped atEnd lexed.after with
      | .error error => .error error
      | .ok reading =>
        .ok ⟨(), reading.rest, Nat.lt_of_lt_of_le reading.size_lt (Nat.le_succ_of_le progress)⟩
    else .ok ⟨(), cursor, Nat.lt_succ_self _⟩
termination_by cursor.size

/-- Skips blanks and line breaks. -/
def skipTrivia (cursor : Cursor) : Except ReadError (Reading Unit (cursor.size + 1)) :=
  skipWhile TokenKind.isTrivia rfl cursor

/-- Skips blanks. -/
def skipBlanks (cursor : Cursor) : Except ReadError (Reading Unit (cursor.size + 1)) :=
  skipWhile (· == .whitespace) rfl cursor

/-- Whether a character can be part of an identifier. -/
def isIdentifierChar (c : Char) : Bool :=
  Alphabet.unicode.isAlphanumeric c || c = '_' || c = '-'

/-- Whether a token can be part of an identifier. -/
def isIdentifierToken (token : Token) : Bool :=
  match token.kind with
  | .number => true
  | .text => token.text.toList.all isIdentifierChar
  | kind => kind.isKeyword

theorem kind_ne_endOfText {token : Token} (part : isIdentifierToken token = true) :
    token.kind ≠ .endOfText := by
  intro kind
  simp [isIdentifierToken, kind, TokenKind.isKeyword] at part

/-- Reads the tokens that continue an identifier. -/
def identifierTail (start : String) (cursor : Cursor) :
    Except ReadError (Reading String (cursor.size + 1)) :=
  match cursor.next with
  | .error error => .error error
  | .ok lexed =>
    if part : isIdentifierToken lexed.token = true then
      have progress := lexed.size_lt (kind_ne_endOfText part)
      match identifierTail (start ++ lexed.token.text) lexed.after with
      | .error error => .error error
      | .ok reading => .ok ⟨reading.value, reading.rest, by have := reading.size_lt; omega⟩
    else .ok ⟨start, cursor, Nat.lt_succ_self _⟩
termination_by cursor.size

/-- Reads an identifier. -/
def identifier (cursor : Cursor) : Except ReadError (Reading String (cursor.size + 1)) := do
  let reading ← identifierTail "" cursor
  if reading.value.isEmpty then
    let lexed ← cursor.next
    throw (.malformed lexed.token.start .expectedIdentifier)
  return reading

/-- Whether the lexeme at the cursor is a blank or a line break. Comments are not skipped. -/
def followedByBlank (cursor : Cursor) : Bool := cursor.token.kind.isTrivia

/-- Whether an at sign follows, after blanks and line breaks. -/
def referenceFollows (cursor : Cursor) : Except ReadError Bool := do
  let trimmed ← skipTrivia cursor
  let lexed ← trimmed.rest.next
  return lexed.token.kind = .at

/-- The flags of a block: silent, and set. -/
structure Flags where
  silent : Bool
  isSet : Bool

/-- Reads the flags at the start of a block, in any order and number. -/
def flags (found : Flags) (cursor : Cursor) :
    Except ReadError (Reading Flags (cursor.size + 1)) :=
  match cursor.next with
  | .error error => .error error
  | .ok lexed =>
    let noted : Option Flags :=
      if lexed.token.kind = .hash then some { found with silent := true }
      else if lexed.token.kind = .pipe then some { found with isSet := true }
      else none
    match flag : noted with
    | none => .ok ⟨found, cursor, Nat.lt_succ_self _⟩
    | some found =>
      have progress := lexed.size_lt (fun kind => by simp [noted, kind] at flag)
      match skipTrivia lexed.after with
      | .error error => .error error
      | .ok trimmed =>
        have := trimmed.size_lt
        match flags found trimmed.rest with
        | .error error => .error error
        | .ok reading => .ok ⟨reading.value, reading.rest, by have := reading.size_lt; omega⟩
termination_by cursor.size
decreasing_by
  have := trimmed.size_lt
  omega

/-- Reads the name and colon that a fork or reference may start with. A call, or the repeated
execution of a reference, is no name; any other identifier must be followed by a colon. `opening`
is the offset of the brace of the block. -/
def label (opening : Nat) (cursor : Cursor) :
    Except ReadError (Reading (Option String) (cursor.size + 1)) := do
  let lexed ← cursor.next
  let unnamed : Reading (Option String) (cursor.size + 1) := ⟨none, cursor, Nat.lt_succ_self _⟩
  if !isIdentifierToken lexed.token then return unnamed
  if lexed.token.kind = .call && followedByBlank lexed.after then return unnamed
  if lexed.token.kind = .eval then
    if ← referenceFollows lexed.after then return unnamed
  let name ← identifier cursor
  let trimmed ← skipBlanks name.rest
  let lexed ← trimmed.rest.next
  have nameLe := name.size_lt
  have trimmedLe := trimmed.size_lt
  have lexedLe := lexed.size_le
  match lexed.token.kind with
  | .colon => return ⟨some name.value, lexed.after, by omega⟩
  | .endOfText => throw (.malformed opening .unclosedBrace)
  | _ => throw (.malformed lexed.token.start (.expectedColon name.value))

/-- Reads the closing brace of a block. -/
def closingBrace (opening : Nat) (cursor : Cursor) :
    Except ReadError (Reading Unit (cursor.size + 1)) := do
  let trimmed ← skipTrivia cursor
  let lexed ← trimmed.rest.next
  have trimmedLe := trimmed.size_lt
  have lexedLe := lexed.size_le
  match lexed.token.kind with
  | .rightBrace => return ⟨(), lexed.after, by omega⟩
  | .endOfText => throw (.malformed opening .unclosedBrace)
  | _ => throw (.malformed lexed.token.start (.expectedClose lexed.token.shown))

/-- The largest branch index that can be written. -/
def largestBranch : Nat := UInt64.size - 1

/-- The branch index that a number token stands for. -/
def branchIndex? (text : String) : Option Nat :=
  let digits := text.toList
  if digits.all Decimal.isDigit then
    let index := Decimal.appendDigits 0 digits
    if index ≤ largestBranch then some index else none
  else none

/-- The branch index that a number token stands for, which has to be a whole number. -/
def branchIndex (token : Token) : Except ReadError Nat :=
  match branchIndex? token.text with
  | some index => .ok index
  | none => .error (.malformed token.start (.invalidBranch token.text))

/-- Reads branch indices and the arrow after them; each index comes with its offset. -/
def indexList (cursor : Cursor) :
    Except ReadError (Reading (List (Nat × Nat)) (cursor.size + 1)) := do
  let number ← cursor.next
  if numeric : number.token.kind = .number then
    have progress := number.size_lt (by rw [numeric]; decide)
    let index ← branchIndex number.token
    let trimmed ← skipTrivia number.after
    have trimmedLe := trimmed.size_lt
    let lexed ← trimmed.rest.next
    have lexedLe := lexed.size_le
    match lexed.token.kind with
    | .arrow => return ⟨[(index, number.token.start)], lexed.after, by omega⟩
    | .comma =>
      let next ← skipTrivia lexed.after
      have nextLe := next.size_lt
      let reading ← indexList next.rest
      return ⟨(index, number.token.start) :: reading.value, reading.rest, by
        have := reading.size_lt; omega⟩
    | _ => throw (.malformed lexed.token.start (.expectedArrow lexed.token.shown))
  else throw (.malformed number.token.start .expectedBranch)
termination_by cursor.size

/-- Adds a mapping in order of branches. -/
def insertMapping (mapping : Mapping) : List Mapping → List Mapping
  | [] => [mapping]
  | other :: rest =>
    if mapping.branch < other.branch then mapping :: other :: rest
    else other :: insertMapping mapping rest

/-- Maps every index of a list to one choice; fails at the first index that is mapped already. -/
def addMappings (choice : Choice) : List (Nat × Nat) → List Mapping →
    Except ReadError (List Mapping)
  | [], mappings => .ok mappings
  | (branch, offset) :: rest, mappings =>
    if mappings.any (·.branch = branch) then .error (.duplicateBranch branch offset)
    else addMappings choice rest (insertMapping ⟨branch, choice⟩ mappings)

/-- Reads a quoted literal. -/
def quoted (cursor : Cursor) : Except ReadError (Reading String cursor.size) :=
  match cursor.next with
  | .error error => .error error
  | .ok lexed =>
    match kind : lexed.token.kind.quote? with
    | none => .error (.malformed lexed.token.start .expectedQuoted)
    | some quote =>
      match found : Quoted.find quote lexed.token.start lexed.after.offset lexed.after.rest with
      | .error error => .error error
      | .ok close =>
        .ok ⟨String.ofList (Quoted.decode (lexed.after.textUntil close)), close.skip 1, by
          have progress := lexed.size_lt (fun atEnd => by simp [atEnd, TokenKind.quote?] at kind)
          have closeLe := Quoted.size_find_le found
          have afterSize : lexed.after.size = lexed.after.rest.length := rfl
          rw [Cursor.size_skip]
          omega⟩

/-- The verbatim text at the front of a text, up to two closing brackets, and how many characters
it takes with them. A backslash before two closing brackets makes them part of the text. -/
def verbatim? : List Char → Option (List Char × Nat)
  | [] => none
  | '\\' :: ']' :: ']' :: rest =>
    (verbatim? rest).map fun (text, length) => (']' :: ']' :: text, length + 3)
  | ']' :: ']' :: _ => some ([], 2)
  | c :: rest => (verbatim? rest).map fun (text, length) => (c :: text, length + 1)

/-- Reads verbatim text after its two opening brackets, which stand at `opening`. -/
def verbatim (opening : Nat) (cursor : Cursor) :
    Except ReadError (Reading String (cursor.size + 1)) :=
  match verbatim? cursor.rest with
  | none => .error (.malformed opening .unclosedVerbatim)
  | some (text, length) =>
    .ok ⟨String.ofList text, cursor.skip length, by
      have := cursor.size_skip_le length; omega⟩

/-- Reads a script block whose opening bracket stands at `opening` and whose body starts at the
cursor. -/
def script (opening : Nat) (body : Cursor) :
    Except ReadError (Reading ScriptBlock (body.size - 1 + 1)) :=
  match found : Extent.find opening (.initial body.offset none) body.offset body.rest with
  | .error error => .error error
  | .ok close =>
    let rest := close.skip 1
    .ok ⟨⟨String.ofList (body.textUntil close), ⟨opening, rest.offset⟩⟩, rest, by
      have closeLe := Extent.size_find_le found
      have : rest.size = close.size - 1 := Cursor.size_skip close 1
      have : body.size = body.rest.length := rfl
      omega⟩

/-- Reads the weight behind an entry, if there is one. -/
def weight (cursor : Cursor) :
    Except ReadError (Reading (Option Decimal) (cursor.size + 1)) := do
  let trimmed ← skipTrivia cursor
  have trimmedLt := trimmed.size_lt
  let number ← trimmed.rest.next
  have numberLe := number.size_le
  if number.token.kind = .number then
    return ⟨some (Decimal.ofChars number.token.text.toList), number.after,
      Nat.lt_of_le_of_lt numberLe trimmedLt⟩
  else return ⟨none, trimmed.rest, trimmedLt⟩

/-- The node for a fork, unless its written weights are too large. -/
def forkNode (opening : Nat) (identifier : Option String) (flags : Flags)
    (branches : List Branch) (stop : Nat) : Except ReadError Node :=
  let fork : Fork := ⟨identifier, flags.silent, flags.isSet, branches, ⟨opening, stop⟩⟩
  match Deck.ofWritten (W := Float) fork.isSet fork.written with
  | .error sum => .error (.malformed opening (.overweight sum))
  | .ok _ => .ok (.fork fork)

end Reader

end BranchText
