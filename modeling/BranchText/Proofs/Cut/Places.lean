import BranchText.Proofs.Compared.Comparison
import BranchText.Proofs.Cut.Lexemes

/-!
# A source that is cut off

A source and the text in front of a cut in it are read side by side. `Reaches` says what is met next
at a place in front of the cut: a token of both, something that the cut is inside of, or a comment
that the cut leaves open.
-/

namespace BranchText

/-- A source that is cut in front of some of its text. -/
structure Cut where
  front : List Char
  back : List Char
  nonempty : back ≠ []

namespace Cut

/-- The texts that are read: the source, and what stands in front of the cut. -/
inductive Side where
  | whole
  | front
  deriving DecidableEq

variable (cut : Cut)

/-- The text behind the cut. -/
def tail : Side → List Char
  | .whole => cut.back
  | .front => []

/-- The place in front of a part of the text in front of the cut. -/
def place (before after : List Char) (side : Side) : Cursor :=
  ⟨byteLength before, after ++ cut.tail side⟩

/-- What is read next in front of the cut. -/
inductive Reaches (before after : List Char) : Prop
  | token (token : Token) (passed later : List Char) (split : after = passed ++ later)
    (takes : ∀ side, (cut.place before after side).Takes token
      (cut.place (before ++ passed) later side))
  | across (beyond : ∀ lexed, (cut.place before after .whole).next = .ok lexed →
      lexed.after.size < cut.back.length) (ended : (cut.place before after .front).Ended)
  | comment (later : List Char) (split : after = '/' :: '*' :: later)
    (beyond : ∀ length, lengthOfBlockComment? (later ++ cut.back) = some length →
      later.length < length)

variable {cut} {before later : List Char}

/-- What is from a character on, of a text that has the character only behind its front, is not
longer than what is behind the front. -/
theorem length_le_of_not_mem {front back rest : List Char} {c : Char} (missing : c ∉ front)
    (ends : c :: rest <:+ front ++ back) : (c :: rest).length ≤ back.length := by
  refine Nat.le_of_not_lt fun long => missing ?_
  obtain ⟨inside, split⟩ :=
    List.suffix_of_suffix_length_le (List.suffix_append front back) ends (Nat.le_of_lt long)
  obtain ⟨first, more, rfl⟩ : ∃ first more, inside = first :: more := by
    refine List.exists_cons_of_ne_nil ?_
    rintro rfl
    rw [← split] at long
    exact Nat.lt_irrefl _ long
  obtain ⟨rfl, rfl⟩ := List.cons.inj split
  obtain ⟨start, whole⟩ := ends
  have inFront : start ++ first :: more = front :=
    List.append_cancel_right (by rw [List.append_assoc]; exact whole)
  simp [← inFront]

/-- A line that is not broken in front of the cut leads the source behind the cut. -/
theorem size_after_line (unbroken : '\n' ∉ later)
    {lexed : Lexed (cut.place before ('/' :: '/' :: later) .whole)}
    (read : (cut.place before ('/' :: '/' :: later) .whole).next = .ok lexed) :
    lexed.after.size < cut.back.length := by
  have positive := List.length_pos_iff.2 cut.nonempty
  have behind : (cut.place before ('/' :: '/' :: later) .whole).afterLexeme
      = ⟨byteLength before + 2, later ++ cut.back⟩ :=
    Cursor.skip_front _ (show 2 ≤ ('/' :: '/' :: later).length by simp) _
  obtain ⟨inner, next, after⟩ := Cursor.next_of_line (List.cons_ne_nil _ _) rfl read
  rw [← after]
  generalize resumed : (cut.place before ('/' :: '/' :: later) .whole).afterLexeme.skip
    (lengthToLineBreak (cut.place before ('/' :: '/' :: later) .whole).afterLexeme.rest) = place
    at inner next
  rw [behind] at resumed
  by_cases broken : '\n' ∈ later ++ cut.back
  · obtain ⟨mark, rest, isMark, ends⟩ := exists_lineBreak broken
    have here : place.rest = mark ++ rest := by rw [← resumed, ← ends]; rfl
    have within : rest.length < cut.back.length := by
      have inside : mark ++ rest <:+ later ++ cut.back := ends ▸ List.drop_suffix _ _
      refine length_le_of_not_mem unbroken (List.IsSuffix.trans ?_ inside)
      rcases isMark with rfl | rfl
      · exact List.suffix_rfl
      · exact List.suffix_cons ..
    have taken := Cursor.size_after_le (by rw [here]; rcases isMark with rfl | rfl <;> simp) next
    have marked : (lexeme (mark ++ rest)).length = mark.length := by
      rcases isMark with rfl | rfl <;> rfl
    rw [Cursor.afterLexeme, Cursor.size_skip, here, marked, Cursor.size, Cursor.size, here,
      List.length_append] at taken
    rw [Cursor.size]
    omega
  · have none : place.size = 0 := by
      rw [← resumed, Cursor.size_skip, Indexed.lengthToLineBreak_of_not_mem broken]
      exact Nat.sub_self _
    have := inner.size_le
    omega

/-- A line comment is open at the cut. -/
theorem reaches_line (unbroken : '\n' ∉ later) : cut.Reaches before ('/' :: '/' :: later) := by
  refine .across (fun lexed => size_after_line unbroken) ?_
  have behind : (cut.place before ('/' :: '/' :: later) .front).afterLexeme
      = ⟨byteLength before + 2, later ++ []⟩ :=
    Cursor.skip_front _ (show 2 ≤ ('/' :: '/' :: later).length by simp) _
  have ends := Indexed.lengthToLineBreak_of_not_mem (show '\n' ∉ later ++ [] by simp [unbroken])
  have none : (Cursor.skip ⟨byteLength before + 2, later ++ []⟩ (later ++ []).length).rest = [] :=
    List.drop_length
  have takes := Cursor.takes_end none
  have whole : (cut.place before ('/' :: '/' :: later) .front).Takes _ _ :=
    .line (List.cons_ne_nil _ _) rfl (by rw [behind, ends]; exact takes)
  refine .further whole ?_ (.here none)
  rw [Cursor.token, none]
  rfl

/-- What is met at any place in front of the cut, or at the cut. -/
theorem reaches (cut : Cut) (before after : List Char) : cut.Reaches before after := by
  by_cases long : after.length < (lexeme (after ++ cut.back)).length
  · refine .across (fun _ => Cursor.size_after_lt cut.nonempty long) ?_
    rw [place, tail, List.append_nil]
    exact Cursor.ended_of_isSpent _ fun _ => Lexeme.isSpent_of_long long
  have short := Nat.le_of_not_lt long
  have some : after ≠ [] := by
    rintro rfl
    exact long (Lexeme.length_lexeme_pos cut.nonempty)
  have fits : ∀ side, (lexeme (after ++ cut.tail side)).length ≤ after.length := by
    intro side
    cases side with
    | whole => exact short
    | front =>
      rw [tail, List.append_nil, ← Lexeme.lexeme_of_short short]
      exact short
  cases meets (byteLength before) some cut.back with
  | token token passed later split _ takes =>
    refine .token token passed later split fun side => ?_
    have := takes _ (fits side)
    rw [← byteLength_append] at this
    exact this
  | line later same unbroken =>
    subst same
    exact reaches_line unbroken
  | comment later same beyond => exact .comment later same beyond
  | across beyond => exact absurd beyond long

section Comment

variable (beyond : ∀ length, lengthOfBlockComment? (later ++ cut.back) = some length →
  later.length < length)
include beyond

/-- A comment that the cut leaves open is reported. -/
theorem next_front_comment : (cut.place before ('/' :: '*' :: later) .front).next =
    .error (.malformed (byteLength before) .unclosedComment) := by
  have behind : (cut.place before ('/' :: '*' :: later) .front).afterLexeme
      = ⟨byteLength before + 2, later ++ []⟩ :=
    Cursor.skip_front _ (show 2 ≤ ('/' :: '*' :: later).length by simp) _
  refine Cursor.next_unclosed (List.cons_ne_nil _ _) rfl ?_
  rw [behind]
  cases closes : lengthOfBlockComment? (later ++ []) with
  | none => rfl
  | some length =>
    have short : length ≤ later.length := by
      have := lengthOfBlockComment?_le closes
      rwa [List.append_nil] at this
    exact absurd (beyond _ (lengthOfBlockComment?_of_short closes short cut.back))
      (Nat.not_lt.2 short)

/-- In the source the comment is closed behind the cut. -/
theorem next_whole_comment {lexed : Lexed (cut.place before ('/' :: '*' :: later) .whole)}
    (read : (cut.place before ('/' :: '*' :: later) .whole).next = .ok lexed) :
    ∃ length, lengthOfBlockComment? (later ++ cut.back) = some length ∧
      lexed.after = Cursor.skip ⟨byteLength before + 2, later ++ cut.back⟩ length ∧
      lexed.after.size < cut.back.length := by
  have behind : (cut.place before ('/' :: '*' :: later) .whole).afterLexeme
      = ⟨byteLength before + 2, later ++ cut.back⟩ :=
    Cursor.skip_front _ (show 2 ≤ ('/' :: '*' :: later).length by simp) _
  cases closes : lengthOfBlockComment? (later ++ cut.back) with
  | none =>
    cases read.symm.trans (Cursor.next_unclosed (List.cons_ne_nil _ _) rfl
      (by rw [behind, closes]))
  | some length =>
    have taken := @Cursor.takes_comment (cut.place before ('/' :: '*' :: later) .whole)
      (List.cons_ne_nil _ _) length rfl (by rw [behind, closes])
    have after := (taken.lexed read).2
    rw [behind] at after
    refine ⟨length, rfl, after, ?_⟩
    have positive := List.length_pos_iff.2 cut.nonempty
    have less := beyond length closes
    have size : Cursor.size ⟨byteLength before + 2, later ++ cut.back⟩ =
        later.length + cut.back.length := List.length_append
    rw [after, Cursor.size_skip, size]
    omega

end Comment

end Cut

end BranchText
