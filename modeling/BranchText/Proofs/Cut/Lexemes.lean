import BranchText.Proofs.Compared.Fronts
import BranchText.Proofs.Reading.Tokens
import Mathlib.Data.List.Infix

/-!
# Lexemes that are cut

What is left of a lexeme when the text is cut inside of it is read as something else: as one
lexeme or more, none of which opens or closes anything, but for the first of two brackets.
-/

namespace BranchText

namespace TokenKind

/-- Whether tokens of the kind neither open nor close anything. -/
def isInert : TokenKind → Bool
  | .lineComment | .blockCommentStart | .doubleQuote | .singleQuote | .backtick | .leftParen
  | .rightParen | .leftBrace | .rightBrace | .leftBracket | .doubleLeftBracket | .arrow => false
  | _ => true

end TokenKind

namespace Lexeme

variable {front back : List Char}

/-- A text starts with a lexeme that opens and closes nothing, or is a single bracket. -/
def IsSpent (text : List Char) : Prop := (lexeme text).kind.isInert = true ∨ text = ['[']

theorem kind_of_blank {c : Char} (blank : isBlank c = true) (rest : List Char) :
    (lexeme (c :: rest)).kind = .whitespace := by
  simp only [isBlank, Bool.or_eq_true, decide_eq_true_eq] at blank
  rcases blank with rfl | rfl <;> rfl

/-- What is behind some characters of a run, but not all of them, is spent. -/
theorem isSpent_of_run {kind : TokenKind} {run rest : List Char} (runs : IsRun kind run)
    (start : front <+: run) (short : front.length < run.length) (ends : rest <:+ front)
    (some : rest ≠ []) : IsSpent rest := by
  cases runs with
  | fixed listed =>
    have all : ∀ entry ∈ spellings, ∀ start ∈ entry.1.inits, start.length < entry.1.length →
        ∀ rest ∈ start.tails, rest ≠ [] → (lexeme rest).kind.isInert = true ∨ rest = ['['] := by
      decide +kernel
    exact all _ listed front ((List.mem_inits _ _).2 start) short rest
      ((List.mem_tails _ _).2 ends) some
  | blanks blank =>
    obtain ⟨c, more, rfl⟩ := List.exists_cons_of_ne_nil some
    have member := start.mem (ends.mem (List.mem_cons_self ..))
    rw [IsSpent, kind_of_blank (blank c member)]
    exact .inl rfl
  | @number first later digit digits =>
    obtain ⟨c, more, rfl⟩ := List.exists_cons_of_ne_nil some
    have member := start.mem (ends.mem (List.mem_cons_self ..))
    have digitOrPoint : Decimal.isDigit c = true ∨ c = '.' := by
      rcases List.mem_cons.1 member with rfl | inside
      · exact .inl digit
      · exact digits c inside
    rcases digitOrPoint with digit | rfl
    · rw [IsSpent, lexeme_of_digit digit]
      exact .inl rfl
    · exact .inl rfl
  | single =>
    obtain rfl : front = [] := List.eq_nil_of_length_eq_zero (Nat.lt_one_iff.1 short)
    exact absurd (List.suffix_nil.1 ends) some

/-- An escape that is cut is a backslash, or a backslash and a carriage return. -/
theorem eq_of_long_escape {more : List Char}
    (long : more.length + 1 < (ofEscape (more ++ back)).length) : more = [] ∨ more = ['\r'] := by
  cases more with
  | nil => exact .inl rfl
  | cons c later =>
    rw [List.cons_append, ofEscape_cons, List.length_cons] at long
    split at long
    · rename_i pair
      cases later with
      | nil => exact .inr (by rw [pair.1])
      | cons d others =>
        simp only [List.length_cons] at long
        omega
    · split at long
      · simp only at long
        omega
      · split at long <;> simp only at long <;> omega

/-- What is left of a lexeme that goes on behind a text opens and closes nothing. -/
theorem isSpent_of_long (long : front.length < (lexeme (front ++ back)).length)
    {rest : List Char} (ends : rest <:+ front) (some : rest ≠ []) : IsSpent rest := by
  cases front with
  | nil => exact absurd (List.suffix_nil.1 ends) some
  | cons first more =>
    by_cases escape : first = '\\'
    · subst escape
      have all : ∀ more ∈ [[], ['\r']], ∀ rest ∈ ('\\' :: more).tails, rest ≠ [] →
          (lexeme rest).kind.isInert = true := by decide +kernel
      have listed : more ∈ [[], ['\r']] := by simpa using eq_of_long_escape long
      exact .inl (all more listed rest ((List.mem_tails _ _).2 ends) some)
    · obtain ⟨kind, run, read, runs, taken⟩ := lexeme_eq_run escape (more ++ back)
      rw [← List.cons_append] at read taken
      rw [read] at long
      exact isSpent_of_run runs
        (List.prefix_of_prefix_length_le (List.prefix_append _ _) taken (Nat.le_of_lt long)) long
        ends some

/-- A text that starts with trivia does so whatever follows it. -/
theorem isTrivia_lexeme_of_front (trivia : (lexeme front).kind.isTrivia = true) :
    (lexeme (front ++ back)).kind.isTrivia = true := by
  by_cases short : (lexeme (front ++ back)).length ≤ front.length
  · rwa [lexeme_of_short short]
  rw [Nat.not_le] at short
  cases front with
  | nil => cases trivia
  | cons first more =>
    by_cases escape : first = '\\'
    · subst escape
      rcases eq_of_long_escape short with rfl | rfl <;> cases trivia
    · obtain ⟨kind, run, read, runs, taken⟩ := lexeme_eq_run escape (more ++ back)
      rw [← List.cons_append] at read taken
      rw [read] at short ⊢
      have start := List.prefix_of_prefix_length_le (List.prefix_append _ _) taken
        (Nat.le_of_lt short)
      cases runs with
      | fixed listed =>
        have all : ∀ entry ∈ spellings, ∀ start ∈ entry.1.inits, start.length < entry.1.length →
            (lexeme start).kind.isTrivia = true → entry.2.isTrivia = true := by decide +kernel
        exact all _ listed _ ((List.mem_inits _ _).2 start) short trivia
      | blanks => rfl
      | number digit =>
        obtain rfl := (List.cons_prefix_cons.1 start).1
        rw [lexeme_of_digit digit] at trivia
        cases trivia
      | single => exact absurd short (by simp)

end Lexeme

/-! ## Tokens at the end of a text -/

namespace Cursor

/-- Nothing opens or closes up to the end of the text, save a bracket that is its last character. -/
inductive Ended : Cursor → Prop
  | here {cursor : Cursor} (none : cursor.rest = []) : Ended cursor
  | bracket {cursor after : Cursor} {token : Token} (takes : cursor.Takes token after)
    (opens : token.kind = .leftBracket) (none : after.rest = []) : Ended cursor
  | further {cursor after : Cursor} {token : Token} (takes : cursor.Takes token after)
    (inert : token.kind.isInert = true) (behind : Ended after) : Ended cursor

theorem ended_of_isSpent {text : List Char} (offset : Nat)
    (spent : ∀ rest, rest <:+ text → rest ≠ [] → Lexeme.IsSpent rest) : Ended ⟨offset, text⟩ := by
  generalize size : text.length = limit
  induction limit using Nat.strongRecOn generalizing text offset with
  | ind limit ih =>
    subst size
    by_cases none : text = []
    · exact .here none
    rcases spent text List.suffix_rfl none with inert | rfl
    · have taken := @takes_lexeme ⟨offset, text⟩ none
        (fun line => by rw [show (lexeme text).kind = .lineComment from line] at inert; cases inert)
        (fun comment => by
          rw [show (lexeme text).kind = .blockCommentStart from comment] at inert
          cases inert)
      have shorter : (text.drop (lexeme text).length).length < text.length := by
        have := Lexeme.length_lexeme_pos none
        have := List.length_pos_iff.2 none
        rw [List.length_drop]
        omega
      exact .further taken inert (ih _ shorter _ (fun rest ends => spent rest
        (ends.trans (List.drop_suffix _ _))) rfl)
    · have kind : (token ⟨offset, ['[']⟩).kind = .leftBracket := rfl
      have taken := @takes_lexeme ⟨offset, ['[']⟩ none (by rw [kind]; decide)
        (by rw [kind]; decide)
      exact .bracket taken rfl rfl

variable {cursor : Cursor}

/-- Behind a line comment the next token is read. -/
theorem next_of_line (more : cursor.rest ≠ []) (line : cursor.token.kind = .lineComment)
    {lexed : Lexed cursor} (read : cursor.next = .ok lexed) :
    ∃ inner, (cursor.afterLexeme.skip (lengthToLineBreak cursor.afterLexeme.rest)).next =
      .ok inner ∧ inner.after = lexed.after := by
  rw [next, dif_neg more] at read
  simp only [line] at read
  split at read
  · cases read
  · rename_i inner given
    cases read
    exact ⟨inner, given, rfl⟩

/-- Behind a token the text is no longer than behind the first lexeme. -/
theorem size_after_le (more : cursor.rest ≠ []) {lexed : Lexed cursor}
    (read : cursor.next = .ok lexed) : lexed.after.size ≤ cursor.afterLexeme.size := by
  rw [next, dif_neg more] at read
  dsimp only at read
  split at read
  · split at read
    · cases read
    · rename_i inner _
      cases read
      exact Nat.le_trans inner.size_le (size_skip_le _ _)
  · split at read
    · cases read
    · cases read
      exact size_skip_le _ _
  · cases read
    exact Nat.le_refl _

/-- A token that starts with a lexeme that goes over the end of a text ends behind it. -/
theorem size_after_lt {front back : List Char} {offset : Nat} (some : back ≠ [])
    (long : front.length < (lexeme (front ++ back)).length)
    {lexed : Lexed ⟨offset, front ++ back⟩}
    (read : Cursor.next ⟨offset, front ++ back⟩ = .ok lexed) :
    lexed.after.size < back.length := by
  have behind := size_after_le (by simp [some]) read
  have positive := List.length_pos_iff.2 some
  have whole : Cursor.size ⟨offset, front ++ back⟩ = front.length + back.length :=
    List.length_append
  rw [afterLexeme, size_skip, whole] at behind
  dsimp only at behind
  omega

end Cursor

end BranchText
