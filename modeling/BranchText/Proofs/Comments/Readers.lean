import BranchText.Proofs.Comments.Versions
import BranchText.Proofs.Compared.Grammar

/-!
# The versions of a text, token by token

The versions of a text with a comment in it obey the laws of comparisons: tokens, gaps, literals and
scripts are read alike in front of the comment and behind it, and words that want a blank are
followed by one in all versions or settle the comparison.
-/

namespace BranchText

namespace Commented

open Comparison Reader

variable {text : Commented} {stage : Stage} {cursors : Followed stage → Cursor}

/-! ## Tokens -/

theorem eq_opened (run : Followed .swallowed) : run.1 = .opened := by
  obtain ⟨version, followed⟩ := run
  cases version <;> first | rfl | cases followed

/-- The versions stand in front of blanks and the comment behind them. -/
def InBlanks (text : Commented) (cursors : Followed stage → Cursor) : Prop :=
  stage ≠ .swallowed ∧ ∃ before after, before ++ after = text.front ∧
    (∀ c ∈ after, Lexeme.isBlank c = true) ∧ ∀ run, cursors run = text.place before after run.1

theorem closes_of_isInert {kind : TokenKind} (inert : isInert kind = true) :
    kind.closes = false := by
  cases kind <;> first | rfl | cases inert

/-- A token that all versions take that are followed on is met. -/
theorem agree_takes {later : Stage} (kept : Followed later → Followed stage)
    (moves : ∀ run, (kept run).1 = run.1) {token : Token} {behind : Followed later → Cursor}
    (takes : ∀ run, (cursors (kept run)).Takes token (behind run))
    (after : text.Twins later behind) (inert : later = .swallowed → isInert token.kind = true)
    (keeps : text.comparison.Keeps kept cursors) :
    text.comparison.Agree (Meeting cursors) fun run => (cursors run).next := by
  choose lexed read isToken isAfter using takes
  have ends : text.Twins later fun run => (lexed run).after :=
    (funext isAfter : (fun run => (lexed run).after) = behind) ▸ after
  have texts : ∀ run, (lexed run).token.text = token.text := fun run => by rw [isToken]
  refine .values later kept moves lexed read ⟨⟨⟨token.kind, fun run => by rw [isToken],
    fun _ => ⟨_, texts⟩, fun _ => ends, fun closes swallowed => ?_⟩, ⟨_, texts⟩, ends⟩, keeps⟩
  rw [closes_of_isInert (inert swallowed)] at closes
  cases closes

/-- The versions meet the same token, unless they stand in front of the comment. -/
theorem agree_token (twins : text.Twins stage cursors) :
    text.InBlanks cursors ∨
      text.comparison.Agree (Meeting cursors) fun run => (cursors run).next := by
  cases twins with
  | before before after split stands =>
    rename_i cursors
    cases Commented.reaches split with
    | token token passed later whole takes =>
      have takes : ∀ run, (cursors run).Takes token (text.place (before ++ passed) later run.1) :=
        fun run => stands run ▸ takes run.1
      refine .inr ?_
      refine agree_takes id (fun _ => rfl) takes (.before _ _ ?_ fun _ => rfl) nofun
        fun _ twins _ => twins
      rw [List.append_assoc, ← whole, split]
    | blanks blank => exact .inl ⟨nofun, before, after, split, blank, stands⟩
    | swallowed token last takes inert spent =>
      let kept : Followed .swallowed → Followed .before := fun run => ⟨run.1, rfl⟩
      have takes : ∀ run, (cursors (kept run)).Takes token last := fun run => by
        rw [stands, eq_opened run]
        exact takes
      refine .inr ?_
      exact agree_takes kept (fun _ => rfl) takes (.swallowed fun _ => .spent spent)
        (fun _ => inert) fun olds _ leads => .swallowed fun run =>
          .of_leads (leads (kept run)) (.further (takes run) inert (.spent spent))
    | failed error fails other =>
      refine .inr (.settled (.other ⟨.opened, rfl⟩ rfl error ?_ other))
      rw [stands, fails]
      rfl
  | waiting before after split stands waits =>
    rename_i cursors
    rcases waits.reaches split with blank | ⟨token, passed, later, whole, takes, -, waits⟩
    · exact .inl ⟨nofun, before, after, split, blank, stands⟩
    · have takes : ∀ run, (cursors run).Takes token (text.place (before ++ passed) later run.1) :=
        fun run => stands run ▸ takes run.1
      refine .inr ?_
      refine agree_takes id (fun _ => rfl) takes (.waiting _ _ ?_ (fun _ => rfl) waits) nofun
        fun _ twins _ => twins
      rw [List.append_assoc, ← whole, split]
  | behind rest stands =>
    rename_i cursors
    refine .inr ?_
    cases first : (cursors ⟨.commented, rfl⟩).next with
    | error error =>
      refine .settled (.failed ⟨.commented, rfl⟩ ⟨.blank, rfl⟩ rfl rfl ?_ ?_)
      · rw [first]
        rfl
      · cases second : (cursors ⟨.blank, rfl⟩).next with
        | error error => rfl
        | ok lexed =>
          obtain ⟨found, given, -⟩ := Cursor.next_shift ((stands _).trans (stands _).symm) second
          cases first.symm.trans given
    | ok lexed =>
      choose found given kinds texts rests using fun run =>
        Cursor.next_shift ((stands run).trans (stands _).symm) first
      exact .here found given ⟨⟨⟨_, kinds, fun _ => ⟨_, texts⟩, fun _ => .behind _ rests,
        fun _ => nofun⟩, ⟨_, texts⟩, .behind _ rests⟩, fun _ twins _ => twins⟩
  | swallowed swallowed =>
    rename_i cursors
    have next : ∃ token after, (cursors ⟨.opened, rfl⟩).Takes token after ∧ Swallowed after ∧
        isInert token.kind = true := by
      cases swallowed ⟨.opened, rfl⟩ with
      | spent spent =>
        obtain ⟨token, after, takes, spent, inert, -⟩ := takes_of_isSpent spent
        exact ⟨token, after, takes, .spent spent, inert⟩
      | further takes inert behind => exact ⟨_, _, takes, behind, inert⟩
    obtain ⟨token, after, takes, behind, inert⟩ := next
    have only : ∀ run : Followed .swallowed, run = ⟨.opened, rfl⟩ :=
      fun run => Subtype.ext (eq_opened run)
    have takes : ∀ run, (cursors run).Takes token after := fun run => only run ▸ takes
    refine .inr ?_
    exact agree_takes id (fun _ => rfl) takes (.swallowed fun _ => behind) (fun _ => inert)
      fun _ twins _ => twins

/-- From blanks and the comment on, the version with the comment is followed with the one with a
blank. -/
theorem InBlanks.follow (blanks : text.InBlanks cursors) :
    ∃ kept : Followed .behind → Followed stage, (∀ run, (kept run).1 = run.1) ∧
      text.comparison.Keeps kept cursors ∧ ∃ before after,
        (∀ c ∈ after, Lexeme.isBlank c = true) ∧
        ∀ run, cursors (kept run) = text.place before after run.1 := by
  obtain ⟨follows, before, after, split, blank, stands⟩ := blanks
  cases stage with
  | before =>
    refine ⟨fun run => ⟨run.1, rfl⟩, fun _ => rfl, fun olds twins leads => ?_, before, after, blank,
      fun run => stands _⟩
    cases twins with
    | before first last whole there =>
      refine .waiting first last whole (fun run => there _) ?_
      have led := leads ⟨.opened, rfl⟩
      rw [stands, there] at led
      exact .of_leads led (waits_of_blanks split blank)
  | behind => exact ⟨id, fun _ => rfl, fun _ twins _ => twins, before, after, blank, stands⟩
  | swallowed => exact absurd rfl follows

theorem agree_next (twins : text.Twins stage cursors) :
    text.comparison.Agree (fun later kept lexed =>
      (∃ kind, text.comparison.Tokens later kind lexed) ∧ text.comparison.Keeps kept cursors)
      fun run => (cursors run).next := by
  rcases agree_token twins with blanks | met
  · obtain ⟨kept, moves, keeps, before, after, blank, stands⟩ := blanks.follow
    have takes : ∀ run : Followed .behind, ∃ lexed, (cursors (kept run)).next = .ok lexed ∧
        lexed.token.kind = .whitespace := fun run => by
      obtain ⟨token, behind, ⟨lexed, read, rfl, rfl⟩, kind⟩ := takes_of_blanks blank run.2
      rw [stands]
      exact ⟨lexed, read, kind⟩
    choose lexed read kind using takes
    exact .values _ kept moves lexed read ⟨⟨.whitespace, kind, fun solid => absurd rfl solid,
      fun solid => absurd rfl solid, nofun⟩, keeps⟩
  · exact met.imp fun _ _ _ _ _ met => ⟨met.1.tokens, met.2⟩

/-! ## Gaps -/

/-- Behind blanks and the comment the gap goes on as behind blanks and a blank. -/
theorem gapped_of_blanks {before after : List Char} (blank : ∀ c ∈ after, Lexeme.isBlank c = true)
    {version : Version} (followed : Stage.follows .behind version = true) :
    ∃ offset, gapped (text.place before after version) =
      Prod.map (String.ofList after ++ " " ++ ·) id <$> gapped ⟨offset, text.back⟩ := by
  rw [place, gapped_append blank]
  have inner : ∀ offset, ∃ last, gapped ⟨offset, text.tail version⟩ =
      Prod.map (" " ++ ·) id <$> gapped ⟨last, text.back⟩ := by
    intro offset
    cases version with
    | commented =>
      let last : Cursor := (Cursor.afterLexeme ⟨offset, text.tail .commented⟩).skip
        (text.comment.length + 2)
      have behind : last = ⟨last.offset, text.back⟩ := by
        have rest : last.rest = text.back := by
          change (text.comment ++ '*' :: '/' :: text.back).drop (text.comment.length + 2) = _
          rw [← List.drop_drop, List.drop_left]
          rfl
        rw [← rest]
      have takes := @Cursor.takes_comment ⟨offset, text.tail .commented⟩ (List.cons_ne_nil _ _) _
        rfl text.lengthOfBlockComment?_closed
      exact ⟨last.offset, behind ▸ gapped_of_blank takes rfl⟩
    | blank => exact ⟨_, gapped_cons rfl offset text.back⟩
    | opened => cases followed
    | probed => cases followed
  obtain ⟨last, inner⟩ := inner (byteLength before + byteLength after)
  refine ⟨last, ?_⟩
  rw [inner, Functor.map_map]
  congr 1
  funext found
  simp [Prod.map, String.append_assoc]

/-- The gap behind blanks and the comment is the same in both versions, if it can be read. -/
theorem gaps_of_blanks (before : List Char) {after : List Char}
    (blank : ∀ c ∈ after, Lexeme.isBlank c = true) :
    (∀ run : Followed .behind, ∃ error, gap (text.place before after run.1) = .error error) ∨
      ∃ value rest, ∀ run : Followed .behind, ∃ reading,
        gap (text.place before after run.1) = .ok reading ∧ reading.value = value ∧
          reading.rest.rest = rest := by
  have read (run : Followed .behind) : ∃ offset, gapped (text.place before after run.1) =
      Prod.map (String.ofList after ++ " " ++ ·) id <$> gapped ⟨offset, text.back⟩ :=
    gapped_of_blanks blank run.2
  choose offset gaps using read
  have alike : ∀ first second : Nat,
      Cursor.rest ⟨first, text.back⟩ = Cursor.rest ⟨second, text.back⟩ := fun _ _ => rfl
  cases first : gapped ⟨offset ⟨.commented, rfl⟩, text.back⟩ with
  | error error =>
    refine .inl fun run => ?_
    cases second : gapped ⟨offset run, text.back⟩ with
    | error error =>
      have whole := gaps run
      rw [second] at whole
      exact ⟨error, gap_of_gapped_error whole⟩
    | ok found =>
      obtain ⟨place, given, -⟩ := gapped_shift (alike _ _) second
      cases first.symm.trans given
  | ok found =>
    obtain ⟨value, last⟩ := found
    refine .inr ⟨String.ofList after ++ " " ++ value, last.rest, fun run => ?_⟩
    obtain ⟨place, given, same⟩ := gapped_shift (alike _ _) first
    have whole := gaps run
    rw [given] at whole
    obtain ⟨reading, read, isValue, rfl⟩ := gap_of_gapped_ok whole
    exact ⟨reading, read, isValue, same⟩

theorem agree_gap (twins : text.Twins stage cursors) :
    text.comparison.Agree (text.comparison.Peeks id cursors) fun run => gap (cursors run) := by
  refine agree_gap_of_step (fun {stage} {cursors} twins => ?_) twins
  refine (agree_token twins).imp_left fun blanks => ?_
  obtain ⟨kept, moves, keeps, before, after, blank, stands⟩ := blanks.follow
  rcases @gaps_of_blanks text before after blank with failed | ⟨value, rest, given⟩
  · have fails : ∀ run, (failure? (gap (cursors (kept run)))).isSome = true := fun run => by
      obtain ⟨error, fails⟩ := failed run
      rw [stands, fails]
      rfl
    exact .settled (.failed _ _ (moves ⟨.commented, rfl⟩) (moves ⟨.blank, rfl⟩) (fails _)
      (fails _))
  · have given : ∀ run, ∃ reading, gap (cursors (kept run)) = .ok reading ∧
        reading.value = value ∧ reading.rest.rest = rest := fun run => by
      rw [stands]
      exact given run
    choose reading read isValue rests using given
    exact .values _ kept moves reading read ⟨⟨⟨value, isValue⟩, .behind rest rests⟩, keeps⟩

end Commented

end BranchText
