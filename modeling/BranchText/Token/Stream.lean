import BranchText.Document.ReadError
import BranchText.Token.Lexeme

/-!
# The token stream

`Cursor.next` gives the next token that is no comment. A line comment vanishes up to its line
break, a block comment reads as one space of no width at its end. `Lexer` is the same stream at an
arbitrary byte index, with one token of lookahead.
-/

namespace BranchText

/-- A token and the place after it, with the progress that reading it makes. -/
structure Lexed (cursor : Cursor) where
  token : Token
  after : Cursor
  size_le : after.size ≤ cursor.size
  size_lt : token.kind ≠ .endOfText → after.size < cursor.size

/-- The number of characters before the line break, which is a line feed with an optional carriage
return, or before the end of the text. -/
def lengthToLineBreak : List Char → Nat
  | [] => 0
  | '\n' :: _ => 0
  | '\r' :: '\n' :: _ => 0
  | _ :: rest => 1 + lengthToLineBreak rest

/-- A character that starts no line break is passed. -/
theorem lengthToLineBreak_cons {c : Char} {rest : List Char} (single : c ≠ '\n')
    (pair : c = '\r' → rest.head? ≠ some '\n') :
    lengthToLineBreak (c :: rest) = 1 + lengthToLineBreak rest := by
  rw [lengthToLineBreak]
  · exact single
  · rintro later rfl rfl
    exact pair rfl rfl

theorem lengthToLineBreak_le (text : List Char) : lengthToLineBreak text ≤ text.length := by
  fun_induction lengthToLineBreak text with
  | case4 first rest _ _ ih =>
    rw [List.length_cons]
    omega
  | _ => exact Nat.zero_le _

/-- The number of characters up to the end of a block comment, its closing mark included. -/
def lengthOfBlockComment? : List Char → Option Nat
  | [] => none
  | '*' :: '/' :: _ => some 2
  | _ :: rest => (lengthOfBlockComment? rest).map (1 + ·)

theorem two_le_lengthOfBlockComment? {text : List Char} {length : Nat}
    (found : lengthOfBlockComment? text = some length) : 2 ≤ length := by
  fun_induction lengthOfBlockComment? text generalizing length with
  | case1 => cases found
  | case2 =>
    cases found
    exact Nat.le_refl _
  | case3 _ _ _ ih =>
    obtain ⟨more, given, rfl⟩ := Option.map_eq_some_iff.1 found
    exact Nat.le_trans (ih given) (Nat.le_add_left ..)

namespace Cursor

/-- The next token, comments skipped, and the place after it. -/
def next (cursor : Cursor) : Except ReadError (Lexed cursor) :=
  if more : cursor.rest = [] then
    .ok ⟨cursor.token, cursor, Nat.le_refl _, fun kind =>
      absurd (show cursor.token.kind = .endOfText by simp [token, more, lexeme]) kind⟩
  else
    have progress := size_afterLexeme_lt more
    match cursor.token.kind with
    | .lineComment =>
      let resumed := cursor.afterLexeme.skip (lengthToLineBreak cursor.afterLexeme.rest)
      have shorter : resumed.size < cursor.size :=
        Nat.lt_of_le_of_lt (size_skip_le _ _) progress
      match next resumed with
      | .error error => .error error
      | .ok lexed =>
        .ok ⟨lexed.token, lexed.after, by have := lexed.size_le; omega,
          fun kind => by have := lexed.size_lt kind; omega⟩
    | .blockCommentStart =>
      match lengthOfBlockComment? cursor.afterLexeme.rest with
      | none => .error (.malformed cursor.offset .unclosedComment)
      | some length =>
        let after := cursor.afterLexeme.skip length
        have shorter : after.size < cursor.size :=
          Nat.lt_of_le_of_lt (size_skip_le _ _) progress
        .ok ⟨⟨.whitespace, after.offset, after.offset, " "⟩, after, by omega, fun _ => shorter⟩
    | _ => .ok ⟨cursor.token, cursor.afterLexeme, by omega, fun _ => progress⟩
termination_by cursor.size

end Cursor

/-- A token stream over a source: the byte index of the next token, and the token there if it has
been looked at. -/
structure Lexer where
  source : List Char
  index : Nat
  ahead : Option Token
  deriving Repr

namespace Lexer

/-- The stream at the start of a source. -/
def start (source : List Char) : Lexer := ⟨source, 0, none⟩

/-- The next token at or after a byte index. An index inside a character, or past the end, reads
as the end of the source. -/
def read (source : List Char) (index : Nat) : Except ReadError Token :=
  match Cursor.at? source index with
  | none => .ok ⟨.endOfText, byteLength source, byteLength source, ""⟩
  | some cursor =>
    match cursor.next with
    | .error error => .error error
    | .ok lexed => .ok lexed.token

/-- Jumps to a byte index, at most the end of the source, and forgets what was looked at. -/
def override (lexer : Lexer) (index : Nat) : Lexer :=
  { lexer with index := min index (byteLength lexer.source), ahead := none }

/-- Looks at the next token without taking it. -/
def peek (lexer : Lexer) : Except ReadError Token × Lexer :=
  match lexer.ahead with
  | some token => (.ok token, lexer)
  | none =>
    match read lexer.source lexer.index with
    | .error error => (.error error, lexer)
    | .ok token => (.ok token, { lexer with ahead := some token })

/-- Takes the next token. -/
def next (lexer : Lexer) : Except ReadError Token × Lexer :=
  match lexer.ahead with
  | some token => (.ok token, { lexer with index := token.stop, ahead := none })
  | none =>
    match read lexer.source lexer.index with
    | .error error => (.error error, lexer)
    | .ok token => (.ok token, { lexer with index := token.stop, ahead := none })

end Lexer

/-- The tokens of a source up to and including its end, and the error that cut them off, if
there is one. -/
def tokens (source : List Char) : List Token × Option ReadError :=
  go (Cursor.start source)
where
  go (cursor : Cursor) : List Token × Option ReadError :=
    match cursor.next with
    | .error error => ([], some error)
    | .ok lexed =>
      if kind : lexed.token.kind = .endOfText then ([lexed.token], none)
      else
        have := lexed.size_lt kind
        let (later, error) := go lexed.after
        (lexed.token :: later, error)
  termination_by cursor.size

end BranchText
