import BranchText.Proofs.Comments.Parts

/-!
# Comments read as blanks

The versions of a text with a comment in it obey the laws of comparisons. So a comment that is read
as one stands for a blank, with one exception: the readers look behind the words `call`, `mode` and
`use` for a blank of the text itself, and a comment is none.
-/

namespace BranchText

/-- Neither a slash nor a blank behind a text makes it start with trivia. -/
theorem Lexeme.isTrivia_lexeme_append {front : List Char} (some : front ≠ []) {c : Char}
    (edge : c = '/' ∨ c = ' ') (rest : List Char) :
    (lexeme (front ++ c :: rest)).kind.isTrivia = (lexeme front).kind.isTrivia := by
  by_cases short : (lexeme (front ++ c :: rest)).length ≤ front.length
  · rw [lexeme_of_short short]
  rw [Nat.not_le] at short
  rcases edge with rfl | rfl
  · rcases over_slash some short with rfl | rfl | rfl <;> rfl
  · obtain ⟨first, more, rfl⟩ := List.exists_cons_of_ne_nil some
    have blank := over_blank short first (List.mem_cons_self ..)
    simp only [isBlank, Bool.or_eq_true, decide_eq_true_eq] at blank
    rcases blank with rfl | rfl <;> rfl

/-- A token of a kind that is skipped is passed. -/
theorem Reader.skipWhile_of_skipped {cursor : Cursor} {lexed : Lexed cursor}
    (read : cursor.next = .ok lexed) {skipped : TokenKind → Bool}
    (atEnd : skipped .endOfText = false) (more : skipped lexed.token.kind = true) {last : Cursor}
    (behind : ∃ trimmed, skipWhile skipped atEnd lexed.after = .ok trimmed ∧ trimmed.rest = last) :
    ∃ trimmed, skipWhile skipped atEnd cursor = .ok trimmed ∧ trimmed.rest = last := by
  obtain ⟨trimmed, skip, rest⟩ := behind
  rw [skipWhile]
  simp only [read, dif_pos more, skip]
  exact ⟨_, rfl, rest⟩

namespace Commented

open Comparison Reader

variable {text : Commented} {stage : Stage} {cursors : Followed stage → Cursor}

/-! ## Errors -/

/-- Errors of all versions settle the comparison, unless they are about a comment. -/
theorem settled_of_faults {offset : Followed stage → Nat} {fault : Followed stage → Fault}
    (other : ∀ run, fault run ≠ .unclosedComment) :
    text.Settled fun run => some (.malformed (offset run) (fault run)) := by
  have differs : ∀ run, ReadError.malformed (offset run) (fault run) ≠ text.stuck :=
    fun run same => other run (ReadError.malformed.inj same).2
  cases stage with
  | before => exact .other ⟨.opened, rfl⟩ rfl _ rfl (differs _)
  | behind => exact .failed ⟨.commented, rfl⟩ ⟨.blank, rfl⟩ rfl rfl rfl rfl
  | swallowed => exact .other ⟨.opened, rfl⟩ rfl _ rfl (differs _)

theorem settled_of_errors (follows : stage ≠ .swallowed) {errors : Followed stage → Option ReadError}
    (all : ∀ run, ∃ error, errors run = some error) : text.Settled errors := by
  have isSome : ∀ run, (errors run).isSome = true := fun run => Option.isSome_iff_exists.2 (all run)
  cases stage with
  | before => exact .failed ⟨.commented, rfl⟩ ⟨.blank, rfl⟩ rfl rfl (isSome _) (isSome _)
  | behind => exact .failed ⟨.commented, rfl⟩ ⟨.blank, rfl⟩ rfl rfl (isSome _) (isSome _)
  | swallowed => exact absurd rfl follows

/-! ## Words that want a blank -/

/-- Behind a blank and a parenthesis no identifier is read. -/
theorem wants_probed {cursor : Cursor} {lexed : Lexed cursor}
    (after : lexed.after = text.place text.front [] .probed) : Wants lexed text.wanting := by
  let last : Cursor := ⟨byteLength text.front + 1, [')']⟩
  have mark : last.token.kind = .rightParen := rfl
  obtain ⟨paren, next, isParen, -⟩ : last.Takes last.token last.afterLexeme :=
    Cursor.takes_lexeme (List.cons_ne_nil _ _) (by rw [mark]; decide) (by rw [mark]; decide)
  have kind : paren.token.kind = .rightParen := by rw [isParen, mark]
  obtain ⟨token, ⟨blank, read, rfl, behind⟩, isBlank, -⟩ := Cursor.takes_blank
    (show Lexeme.isBlank ' ' = true from rfl) (byteLength text.front) [')']
  have behind : blank.after = last := behind
  refine ⟨by rw [after]; rfl, fun skipped atEnd skips trivia => ?_⟩
  have solid : skipped paren.token.kind = false := by
    rw [kind]
    cases more : skipped .rightParen with
    | false => rfl
    | true => cases trivia _ more
  obtain ⟨trimmed, skip, rest⟩ := skipWhile_of_skipped read atEnd (by rw [isBlank, skips])
    (show ∃ trimmed, skipWhile skipped atEnd blank.after = .ok trimmed ∧ trimmed.rest = last by
      rw [behind]; exact ⟨_, skipWhile_of_solid next atEnd solid, rfl⟩)
  have none : identifier last = .error text.wanting := by
    have noPart : isIdentifierToken paren.token = false := by
      simp [isIdentifierToken, kind, TokenKind.isKeyword]
    rw [identifier, identifierTail]
    simp only [next, noPart]
    rw [dif_neg Bool.false_ne_true]
    dsimp only [bind, Except.bind]
    rw [if_pos (show "".isEmpty = true by decide)]
    dsimp only [throw, throwThe, MonadExceptOf.throw]
    rw [isParen]
    rfl
  rw [after]
  exact ⟨trimmed, skip, by rw [rest, none]⟩

/-- A word that ends where the front does is the end of it. -/
theorem endsInWord {cursor : Cursor} {lexed : Lexed cursor}
    (isIn : cursor.In (text.front ++ text.tail .probed)) (read : cursor.next = .ok lexed)
    (word : lexed.token.kind = .call ∨ lexed.token.kind = .mode ∨ lexed.token.kind = .use)
    (behind : lexed.after.rest = text.tail .probed) : text.EndsInWord := by
  have fixed : Indexed.isVaried lexed.token.kind = false := by
    rcases word with kind | kind | kind <;> rw [kind] <;> rfl
  obtain ⟨spelling, listed, ⟨first, whole, -⟩, -⟩ :=
    Indexed.spelled_of_taken (Indexed.taken_of_next isIn read) fixed
  have words : ∀ entry ∈ Lexeme.spellings, entry.2 = .call ∨ entry.2 = .mode ∨ entry.2 = .use →
      entry.1 ∈ [['c', 'a', 'l', 'l'], ['m', 'o', 'd', 'e'], ['u', 's', 'e']] := by decide
  refine ⟨spelling, words _ listed word, first, ?_⟩
  dsimp only at whole
  rw [behind, ← List.append_assoc] at whole
  exact (List.append_cancel_right whole).symm

theorem followedByBlank_eq (cursor : Cursor) :
    followedByBlank cursor = (lexeme cursor.rest).kind.isTrivia := rfl

/-- Behind a word that wants a blank there is one in all versions or in none, unless the comment
stands right behind it. -/
theorem agree_blank {lexed : ∀ run, Lexed (cursors run)} {kind : TokenKind}
    (twins : text.Twins stage cursors) (read : ∀ run, (cursors run).next = .ok (lexed run))
    (tokens : text.comparison.Tokens stage kind lexed)
    (word : kind = .call ∨ kind = .mode ∨ kind = .use) :
    text.comparison.Torn lexed ∨ ∃ blank, ∀ run, followedByBlank (lexed run).after = blank := by
  have loud : isInert kind = false := by rcases word with rfl | rfl | rfl <;> rfl
  have after := tokens.after (solid_of_loud loud)
  rcases stage_of_loud twins read tokens loud with rfl | ⟨rfl, rest, rests⟩
  · cases twins with
    | before front left split stands =>
    cases after with
    | before first last whole there =>
    have there : ∀ run, (lexed run).after = text.place first last run.1 := there
    by_cases none : last = []
    · -- The word ends where the comment starts.
      subst none
      obtain rfl : first = text.front := by rw [← whole, List.append_nil]
      refine .inl ⟨⟨.probed, rfl⟩, text.wanting, wants_probed (there _), fun errors fails =>
        .wanting _ rfl fails ?_⟩
      refine endsInWord ⟨front, ?_, ?_⟩ (read ⟨.probed, rfl⟩)
        (by rw [tokens.kinds]; exact word) (by rw [there]; rfl)
      · rw [stands, ← split, List.append_assoc]
        rfl
      · rw [stands]
        rfl
    · refine .inr ⟨(lexeme last).kind.isTrivia, fun run => ?_⟩
      rw [followedByBlank_eq, there]
      rcases text.tail_cases run.1 with ⟨rest, tail⟩ | ⟨rest, tail⟩
      · rw [place, tail]
        exact Lexeme.isTrivia_lexeme_append none (.inl rfl) rest
      · rw [place, tail]
        exact Lexeme.isTrivia_lexeme_append none (.inr rfl) rest
  · exact .inr ⟨(lexeme rest).kind.isTrivia, fun run => by rw [followedByBlank_eq, rests]⟩

/-! ## All laws -/

theorem lawful (text : Commented) : text.comparison.Lawful where
  next := agree_next
  gap := agree_gap
  blank twins read tokens word := (agree_blank twins read tokens word).imp_right fun blanks =>
    ⟨_, id, fun _ => rfl, twins, tokens.after (by rcases word with rfl | rfl | rfl <;> decide),
      blanks⟩
  literal twins read tokens := agree_literal twins read tokens
  verbatim twins read tokens := agree_verbatim twins read tokens
  script twins read tokens opens _ bodies := agree_script twins read tokens opens bodies
  refused _ _ other := settled_of_faults other
  brace _ := settled_of_faults fun _ => nofun
  paren _ := settled_of_faults fun _ => nofun
  failed closed _ all := settled_of_errors closed all
  block _ _ _ agree := agree trivial
  nested _ _ _ agree := agree trivial

/-! ## Documents -/

/-- The version of the whole text. -/
def source (text : Commented) (version : Version) : List Char := text.front ++ text.tail version

/-- The text behind its front is read as far as the comment: if nothing closes it, this is what is
wrong. -/
def IsRead (text : Commented) : Prop := Document.read (text.source .opened) = .error text.stuck

/-- The front ends in a word behind which an identifier is read if a blank follows. -/
def WantsBlank (text : Commented) : Prop :=
  text.EndsInWord ∧ Document.read (text.source .probed) = .error text.wanting

/-- What is read of a version, up to spans. -/
theorem agree_source (text : Commented) :
    text.comparison.Agree (fun _ _ documents => ∃ seen, ∀ run,
      (documents run : Document).withoutSpans = seen)
      fun run : Followed .before => Document.read (text.source run.1) := by
  have twins : text.Twins .before fun run => Cursor.start (text.source run.1) :=
    .before [] text.front rfl fun _ => rfl
  have noText : ∀ _ : Followed .before, Passage.empty.withoutSpans = .empty := fun _ => rfl
  have noRules : ∀ _ : Followed .before, Legacy.empty.withoutSpans = .empty := fun _ => rfl
  refine ((lawful text).agree_sequence twins noText noRules 0).follow (fun run error fails => ?_)
    fun later kept reading _ read same => ?_
  · rw [Document.read, fails]
  · obtain ⟨⟨⟨nodes, declared⟩, same⟩, -⟩ := same
    refine .here (fun run => ⟨(reading run).value.1, (reading run).value.2.modes,
      (reading run).value.2.switches⟩) (fun run => ?_)
      ⟨⟨nodes, declared.modes, declared.switches⟩, fun run => ?_⟩
    · rw [Document.read, read]
    · obtain ⟨sameNodes, sameLegacy⟩ := Prod.mk.inj (same run)
      rw [Document.withoutSpans, sameNodes, ← sameLegacy]
      rfl

/-- A comment that is read as one stands for a blank: the text can be read exactly if it can be with
a blank for the comment, and then gives the same document up to spans. Only directly behind `call`,
`mode` and `use` it does not separate as a blank does. -/
theorem read_eq_read_blank (text : Commented) (isRead : text.IsRead) (apart : ¬ text.WantsBlank) :
    (Document.read (text.source .commented)).toOption.map Document.withoutSpans =
      (Document.read (text.source .blank)).toOption.map Document.withoutSpans := by
  cases text.agree_source with
  | settled done =>
    cases done with
    | other run isOpened error fails differs =>
      rw [isOpened, isRead] at fails
      exact absurd (Option.some.inj fails).symm differs
    | wanting run isProbed fails word =>
      refine absurd ⟨word, ?_⟩ apart
      rw [isProbed] at fails
      cases outcome : Document.read (text.source .probed) with
      | error error =>
        rw [outcome] at fails
        rw [Option.some.inj fails]
      | ok document =>
        rw [outcome] at fails
        cases fails
    | failed run other isCommented isBlank fails failsToo =>
      have none : ∀ version, (failure? (Document.read (text.source version))).isSome = true →
          (Document.read (text.source version)).toOption = none := fun version fails => by
        cases outcome : Document.read (text.source version) with
        | error error => rfl
        | ok document =>
          rw [outcome] at fails
          cases fails
      rw [none .commented (isCommented ▸ fails), none .blank (isBlank ▸ failsToo)]
  | values later kept moves document given same =>
    obtain ⟨seen, same⟩ := same
    have some : ∀ run : Followed later, (Document.read (text.source run.1)).toOption.map
        Document.withoutSpans = some seen := fun run => by
      rw [← moves run, given, ← same run]
      rfl
    cases later with
    | behind => rw [some ⟨.commented, rfl⟩, some ⟨.blank, rfl⟩]
    | before => rw [some ⟨.commented, rfl⟩, some ⟨.blank, rfl⟩]
    | swallowed =>
      have opened := some ⟨.opened, rfl⟩
      rw [isRead] at opened
      cases opened

/-- A comment between a name and its colon, and behind a word in the text. -/
def betweenNameAndColon : Commented :=
  ⟨"call \x7bN".toList, " c ".toList, ": (x), (y)\x7d".toList, by decide⟩

theorem read_eq_read_blank_betweenNameAndColon : betweenNameAndColon.IsRead ∧
    ¬ betweenNameAndColon.WantsBlank ∧
    (Document.read (betweenNameAndColon.source .blank)).toOption.isSome = true ∧
    (Document.read (betweenNameAndColon.source .commented)).toOption.map Document.withoutSpans =
      (Document.read (betweenNameAndColon.source .blank)).toOption.map Document.withoutSpans := by
  have isRead : betweenNameAndColon.IsRead := by with_unfolding_all exact rfl
  have apart : ¬ betweenNameAndColon.WantsBlank := by
    rintro ⟨⟨word, listed, ends⟩, -⟩
    revert word
    decide
  have reads : (Document.read (betweenNameAndColon.source .blank)).toOption.isSome = true := by
    with_unfolding_all exact rfl
  exact ⟨isRead, apart, reads, read_eq_read_blank _ isRead apart⟩

/-- A comment directly behind a word. -/
def behindCall : Commented := ⟨"\x7bcall".toList, [], "f\x7d".toList, by decide⟩

/-- Behind the word the comment does not separate as a blank does. -/
theorem not_read_eq_read_blank_behindCall : behindCall.IsRead ∧
    Document.read (behindCall.source .commented) =
      .error (.malformed 9 (.expectedColon "call")) ∧
    Document.read (behindCall.source .blank) = .ok ⟨[.fork ⟨none, false, false,
      [⟨.call ⟨"f", ⟨1, 7⟩⟩, none⟩], ⟨0, 8⟩⟩], [], []⟩ := by
  refine ⟨?_, ?_, ?_⟩
  · with_unfolding_all exact rfl
  · with_unfolding_all exact rfl
  · with_unfolding_all exact rfl

end Commented

end BranchText
