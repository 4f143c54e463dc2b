import BranchText.Proofs.Comments.Lexemes

/-!
# A text with a comment in it

A comment in a text, and the texts it is compared with: one with a blank for the comment, one that
ends where the comment starts, and one that shows whether a word in front of it wants an identifier.
`Reaches` says what is read next in front of the comment, in all of these.
-/

namespace BranchText

/-- A text with a comment in it. -/
structure Commented where
  front : List Char
  comment : List Char
  back : List Char
  closed : ¬ ['*', '/'] <:+: comment

/-- What may stand behind the front of a text with a comment in it. -/
inductive Version where
  | commented
  | blank
  /-- The comment is opened, and the text ends. -/
  | opened
  /-- A blank and something that is no identifier. -/
  | probed

namespace Commented

variable (text : Commented)

/-- The text behind the front. -/
def tail : Version → List Char
  | .commented => '/' :: '*' :: (text.comment ++ '*' :: '/' :: text.back)
  | .blank => ' ' :: text.back
  | .opened => ['/', '*']
  | .probed => [' ', ')']

/-- The place in front of a part of the front. -/
def place (before after : List Char) (version : Version) : Cursor :=
  ⟨byteLength before, after ++ text.tail version⟩

/-- The error of a comment that is opened behind the front. -/
def stuck : ReadError := .malformed (byteLength text.front) .unclosedComment

/-- The error of something behind a blank that is no identifier. -/
def wanting : ReadError := .malformed (byteLength text.front + 1) .expectedIdentifier

/-- The comment ends at its closing mark. -/
theorem lengthOfBlockComment?_closed :
    lengthOfBlockComment? (text.comment ++ '*' :: '/' :: text.back) =
      some (text.comment.length + 2) := by
  obtain ⟨front, comment, back, closed⟩ := text
  dsimp only at closed ⊢
  induction comment with
  | nil => rfl
  | cons c rest ih =>
    have goesOn : c = '*' → (rest ++ '*' :: '/' :: back).head? ≠ some '/' := by
      rintro rfl slash
      cases rest with
      | nil => exact absurd (Option.some.inj slash) (by decide)
      | cons d later =>
        obtain rfl := Option.some.inj slash
        exact closed ⟨[], later, rfl⟩
    rw [List.cons_append, Indexed.lengthOfBlockComment?_cons goesOn,
      ih fun inside => closed (inside.trans (List.suffix_cons c rest).isInfix), Option.map_some,
      List.length_cons, Nat.add_right_comm, Nat.add_comm 1]

theorem tail_cases (version : Version) :
    (∃ rest, text.tail version = '/' :: rest) ∨ ∃ rest, text.tail version = ' ' :: rest := by
  cases version with
  | commented => exact .inl ⟨_, rfl⟩
  | blank => exact .inr ⟨_, rfl⟩
  | opened => exact .inl ⟨_, rfl⟩
  | probed => exact .inr ⟨_, rfl⟩

/-- Tokens that do not open or close anything. -/
def isInert : TokenKind → Bool
  | .text | .blockCommentEnd | .endOfText | .whitespace | .newline | .eval => true
  | _ => false

/-- Nothing can be opened at the end of the text any more. -/
def IsSpent (cursor : Cursor) : Prop := cursor.rest = [] ∨ cursor.rest = ['*']

/-- What is read next in front of the comment. -/
inductive Reaches (before after : List Char) : Prop
  | token (token : Token) (passed later : List Char) (split : after = passed ++ later)
    (takes : ∀ version, (text.place before after version).Takes token
      (text.place (before ++ passed) later version))
  | blanks (blank : ∀ c ∈ after, Lexeme.isBlank c = true)
  | swallowed (token : Token) (last : Cursor)
    (takes : (text.place before after .opened).Takes token last) (inert : isInert token.kind = true)
    (spent : IsSpent last)
  | failed (error : ReadError) (fails : (text.place before after .opened).next = .error error)
    (other : error ≠ text.stuck)

variable {text} {before later : List Char}

/-- A slash, an asterisk and a backslash take the slash of the comment along. -/
theorem reaches_join {after : List Char} (joins : after = ['/'] ∨ after = ['*'] ∨ after = ['\\']) :
    text.Reaches before after := by
  rcases joins with rfl | rfl | rfl
  · exact .swallowed _ _ (.line nofun rfl (Cursor.takes_end rfl)) rfl (.inl rfl)
  · have kind : (text.place before ['*'] .opened).token.kind = .blockCommentEnd := rfl
    exact .swallowed _ _ (Cursor.takes_lexeme nofun (by rw [kind]; decide) (by rw [kind]; decide))
      rfl (.inr rfl)
  · have kind : (text.place before ['\\'] .opened).token.kind = .text := rfl
    exact .swallowed _ _ (Cursor.takes_lexeme nofun (by rw [kind]; decide) (by rw [kind]; decide))
      rfl (.inr rfl)

/-- A line comment takes the comment along. -/
theorem reaches_line (unbroken : '\n' ∉ later) : text.Reaches before ('/' :: '/' :: later) := by
  have behind : (text.place before ('/' :: '/' :: later) .opened).afterLexeme
      = ⟨byteLength before + 2, later ++ ['/', '*']⟩ :=
    Cursor.skip_front _ (show 2 ≤ ('/' :: '/' :: later).length by simp) _
  have ends := Indexed.lengthToLineBreak_of_not_mem
    (show '\n' ∉ later ++ ['/', '*'] by simp [unbroken])
  let last : Cursor := .skip ⟨byteLength before + 2, later ++ ['/', '*']⟩
    (later ++ ['/', '*']).length
  have spent : last.rest = [] := List.drop_length
  refine .swallowed last.token last (.line (List.cons_ne_nil _ _) rfl ?_) ?_ (.inl spent)
  · rw [behind, ends]
    exact Cursor.takes_end spent
  · rw [Cursor.token, spent]
    rfl

/-- A block comment ends before the comment is opened, or takes the start of it along. -/
theorem reaches_comment (split : before ++ '/' :: '*' :: later = text.front)
    (beyond : ∀ length, lengthOfBlockComment? (later ++ ['/', '*']) = some length →
      later.length < length) : text.Reaches before ('/' :: '*' :: later) := by
  have behind : (text.place before ('/' :: '*' :: later) .opened).afterLexeme
      = ⟨byteLength before + 2, later ++ ['/', '*']⟩ :=
    Cursor.skip_front _ (show 2 ≤ ('/' :: '*' :: later).length by simp) _
  cases closes : lengthOfBlockComment? (later ++ ['/', '*']) with
  | none =>
    refine .failed _ (Cursor.next_unclosed (List.cons_ne_nil _ _) rfl (by rw [behind, closes]))
      fun same => ?_
    have := (ReadError.malformed.inj same).1
    rw [← split, byteLength_append] at this
    have := '/'.utf8Size_pos
    simp only [place, byteLength_cons] at *
    omega
  | some length =>
    obtain ⟨more, rfl⟩ := Nat.exists_eq_add_of_lt (beyond length closes)
    refine .swallowed _ _ (Cursor.takes_comment (List.cons_ne_nil _ _) rfl
      (by rw [behind, closes])) rfl ?_
    rw [behind]
    have left : (later ++ ['/', '*']).drop (later.length + more + 1) = ['*'].drop more := by
      rw [Nat.add_assoc, List.drop_append]
      simp
    rw [IsSpent, Cursor.skip, left]
    cases more with
    | zero => exact .inr rfl
    | succ more => exact .inl (by simp)

theorem reaches {after : List Char} (split : before ++ after = text.front) :
    text.Reaches before after := by
  by_cases blank : ∀ c ∈ after, Lexeme.isBlank c = true
  · exact .blanks blank
  have some : after ≠ [] := by
    rintro rfl
    exact blank nofun
  by_cases joins : after = ['/'] ∨ after = ['*'] ∨ after = ['\\']
  · exact reaches_join joins
  have fits : ∀ version, (lexeme (after ++ text.tail version)).length ≤ after.length := by
    intro version
    refine Nat.le_of_not_lt fun long => ?_
    rcases text.tail_cases version with ⟨rest, tail⟩ | ⟨rest, tail⟩
    · rw [tail] at long
      exact joins (Lexeme.over_slash some long)
    · rw [tail] at long
      exact blank (Lexeme.over_blank long)
  cases meets (byteLength before) some ['/', '*'] with
  | token token passed later split _ takes =>
    refine .token token passed later split fun version => ?_
    have := takes _ (fits version)
    rw [← byteLength_append] at this
    exact this
  | line later same unbroken =>
    subst same
    exact reaches_line unbroken
  | comment later same beyond =>
    subst same
    exact reaches_comment split beyond
  | across long => exact absurd long (Nat.not_lt.2 (fits .opened))

end Commented

end BranchText
