import BranchText.Decimal.Basic
import BranchText.Source.Cursor
import BranchText.Token.Basic

/-!
# Lexemes

`lexeme` reads the next lexeme of a text, wherever in a source the text stands: an escape, one of
the fixed spellings, a run of blanks, a number, or one character. Comments give a marker here;
the token stream skips them.

Every lexeme of a text that is not empty takes at least one character (`length_lexeme_pos`).
-/

namespace BranchText

/-- What the front of a text is read as. -/
structure Lexeme where
  kind : TokenKind
  text : String
  /-- How many characters the lexeme takes. -/
  length : Nat
  deriving Repr, DecidableEq

namespace Lexeme

/-- The characters with fixed spellings, longer ones first where one begins another. -/
def spellings : List (List Char × TokenKind) :=
  [(['m', 'a', 't', 'c', 'h'], .match),
    (['c', 'a', 'l', 'l'], .call),
    (['e', 'v', 'a', 'l'], .eval),
    (['m', 'o', 'd', 'e'], .mode),
    (['u', 's', 'e'], .use),
    (['\r', '\n'], .newline),
    (['[', '['], .doubleLeftBracket),
    ([']', ']'], .doubleRightBracket),
    (['-', '>'], .arrow),
    (['/', '/'], .lineComment),
    (['/', '*'], .blockCommentStart),
    (['*', '/'], .blockCommentEnd),
    (['\n'], .newline),
    (['\x22'], .doubleQuote),
    (['\x27'], .singleQuote),
    (['\x60'], .backtick),
    (['('], .leftParen),
    ([')'], .rightParen),
    (['{'], .leftBrace),
    (['}'], .rightBrace),
    (['['], .leftBracket),
    ([']'], .rightBracket),
    ([','], .comma),
    ([':'], .colon),
    (['@'], .at),
    (['#'], .hash),
    (['|'], .pipe)]

/-- What a character after a backslash stands for, if it can be escaped. -/
def escaped? (c : Char) : Option Char :=
  if ['\\', '/', '[', '{', '\x22', '\x27', '\x60', '(', ')', '}', ','].contains c then some c
  else if c = 'n' then some '\n'
  else if c = 't' then some '\t'
  else if c = 'r' then some '\r'
  else none

/-- Reads what follows a backslash. Before a line break it makes one space of both, before a
character that can be escaped it stands for that character, and elsewhere it is itself. -/
def ofEscape : List Char → Lexeme
  | '\r' :: '\n' :: _ => ⟨.whitespace, " ", 3⟩
  | '\n' :: _ => ⟨.whitespace, " ", 2⟩
  | c :: _ =>
    match escaped? c with
    | some meant => ⟨.text, String.singleton meant, 2⟩
    | none => ⟨.text, "\\", 1⟩
  | [] => ⟨.text, "\\", 1⟩

/-- Whether the character is a space or a tab. -/
def isBlank (c : Char) : Bool := c = ' ' || c = '\t'

/-- The characters of the number that the text starts with: digits, and a fraction if a point is
followed by a digit. -/
def numberChars (text : List Char) : List Char :=
  let whole := text.takeWhile Decimal.isDigit
  match text.dropWhile Decimal.isDigit with
  | '.' :: fraction =>
    let places := fraction.takeWhile Decimal.isDigit
    if places.isEmpty then whole else whole ++ '.' :: places
  | _ => whole

/-- Reads a text that starts with no backslash and no fixed spelling. -/
def ofRun (first : Char) (rest : List Char) : Lexeme :=
  if isBlank first then
    let run := first :: rest.takeWhile isBlank
    ⟨.whitespace, String.ofList run, run.length⟩
  else if Decimal.isDigit first then
    let run := numberChars (first :: rest)
    ⟨.number, String.ofList run, run.length⟩
  else ⟨.text, String.singleton first, 1⟩

/-- The first fixed spelling that the text starts with. -/
def fixed? (text : List Char) : Option (List Char × TokenKind) :=
  spellings.find? fun entry => entry.1.isPrefixOf text

end Lexeme

open Lexeme in
/-- Reads the lexeme at the front of a text. -/
def lexeme (text : List Char) : Lexeme :=
  match text with
  | [] => ⟨.endOfText, "", 0⟩
  | first :: rest =>
    if first = '\\' then ofEscape rest
    else match fixed? text with
      | some (spelling, kind) => ⟨kind, String.ofList spelling, spelling.length⟩
      | none => ofRun first rest

namespace Lexeme

theorem length_ofEscape_pos (rest : List Char) : 0 < (ofEscape rest).length := by
  unfold ofEscape
  split <;> (try split) <;> simp

theorem length_numberChars_pos {first : Char} (digit : Decimal.isDigit first = true)
    (rest : List Char) : 0 < (numberChars (first :: rest)).length := by
  unfold numberChars
  simp only [List.takeWhile_cons, digit, if_true]
  split
  · split <;> simp
  · simp

theorem length_ofRun_pos (first : Char) (rest : List Char) : 0 < (ofRun first rest).length := by
  unfold ofRun
  split
  · simp
  · split
    · next digit => exact length_numberChars_pos digit rest
    · simp

theorem length_spelling_pos : ∀ entry ∈ spellings, 0 < entry.1.length := by
  decide

/-- A text that is not at its end gives up at least one character. -/
theorem length_lexeme_pos {text : List Char} (more : text ≠ []) : 0 < (lexeme text).length := by
  match text with
  | [] => exact absurd rfl more
  | first :: rest =>
    unfold lexeme
    simp only
    split
    · exact length_ofEscape_pos rest
    · split
      · next found =>
        exact length_spelling_pos _ (List.mem_of_find?_eq_some found)
      · exact length_ofRun_pos first rest

/-- Only the end of the text has no lexeme. -/
theorem eq_nil_of_length_lexeme {text : List Char} (none : (lexeme text).length = 0) :
    text = [] := by
  cases text with
  | nil => rfl
  | cons first rest =>
    have := length_lexeme_pos (List.cons_ne_nil first rest)
    omega

end Lexeme

namespace Cursor

/-- The token at the cursor, comments not skipped. -/
def token (cursor : Cursor) : Token :=
  let found := lexeme cursor.rest
  ⟨found.kind, cursor.offset, (cursor.skip found.length).offset, found.text⟩

/-- The cursor after the lexeme. -/
def afterLexeme (cursor : Cursor) : Cursor := cursor.skip (lexeme cursor.rest).length

theorem size_afterLexeme_lt {cursor : Cursor} (more : cursor.rest ≠ []) :
    cursor.afterLexeme.size < cursor.size := by
  have taken := Lexeme.length_lexeme_pos more
  have left : 0 < cursor.size := List.length_pos_iff.2 more
  simp only [afterLexeme, size_skip]
  omega

end Cursor

end BranchText
