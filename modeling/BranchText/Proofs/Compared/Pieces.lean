import BranchText.Proofs.Compared.Laws
import BranchText.Proofs.Indexed.Pieces

/-!
# Pieces, compared

Under the laws of a comparison, the readers of the parts that do not nest agree.
-/

namespace BranchText

/-- Every cursor stands in some text. -/
theorem Cursor.exists_in (cursor : Cursor) : ∃ source, cursor.In source := by
  refine ⟨List.replicate cursor.offset ' ' ++ cursor.rest, _, rfl, ?_⟩
  induction cursor.offset with
  | zero => rfl
  | succ count ih =>
    rw [List.replicate_succ, byteLength_cons, ih]
    exact Nat.add_comm 1 count

/-! ## Gaps -/

namespace Reader

variable {cursor : Cursor}

/-- Behind a gap stands a token that is no blank. -/
theorem stops_of_gap {reading : Reading String (cursor.size + 1)}
    (read : gap cursor = .ok reading) :
    cursor.Trails reading.rest ∧ ∃ lexed, reading.rest.next = .ok lexed ∧
      lexed.token.kind ≠ .whitespace := by
  induction cursor using Indexed.cursor_induction with
  | step cursor ih =>
    rw [gap] at read
    split at read
    · cases read
    rename_i lexed next
    split at read
    · rename_i blank
      have progress := lexed.size_lt (by rw [blank]; decide)
      split at read
      · cases read
      · rename_i tail given
        cases read
        obtain ⟨trails, stops⟩ := ih _ progress given
        exact ⟨.further next (by rw [blank]; rfl) trails, stops⟩
    · rename_i solid
      cases read
      exact ⟨.here, lexed, next, solid⟩

/-- To skip blanks and more is to skip a gap first. -/
theorem skipWhile_eq_gap {skipped : TokenKind → Bool} (atEnd : skipped .endOfText = false)
    (blanks : skipped .whitespace = true) :
    skipWhile skipped atEnd cursor = (do
      let blank ← gap cursor
      let reading ← skipWhile skipped atEnd blank.rest
      return ⟨(), reading.rest, Nat.lt_of_lt_of_le reading.size_lt blank.size_lt⟩) := by
  induction cursor using Indexed.cursor_induction with
  | step cursor ih =>
    cases next : cursor.next with
    | error error =>
      rw [gap, skipWhile]
      simp only [next]
      rfl
    | ok lexed =>
      by_cases blank : lexed.token.kind = .whitespace
      · have progress := lexed.size_lt (by rw [blank]; decide)
        have more : skipped lexed.token.kind = true := by rw [blank, blanks]
        rw [gap, skipWhile]
        simp only [next, dif_pos blank, dif_pos more]
        rw [ih _ progress]
        cases gap lexed.after with
        | error error => rfl
        | ok reading =>
          dsimp only [bind, Except.bind]
          cases skipWhile skipped atEnd reading.rest <;> rfl
      · have none : gap cursor = .ok ⟨"", cursor, Nat.lt_succ_self _⟩ := by
          rw [gap]
          simp only [next, dif_neg blank]
        rw [none]
        dsimp only [bind, Except.bind]
        cases skipWhile skipped atEnd cursor <;> rfl

theorem trails_of_skipWhile {skipped : TokenKind → Bool} {atEnd : skipped .endOfText = false}
    (trivia : ∀ kind, skipped kind = true → kind.isTrivia = true)
    {reading : Reading Unit (cursor.size + 1)}
    (read : skipWhile skipped atEnd cursor = .ok reading) :
    cursor.Trails reading.rest := by
  induction cursor using Indexed.cursor_induction with
  | step cursor ih =>
    rw [skipWhile] at read
    split at read
    · cases read
    rename_i lexed next
    split at read
    · rename_i more
      have progress := lexed.size_lt (fun kind => by rw [kind, atEnd] at more; cases more)
      split at read
      · cases read
      · rename_i tail given
        cases read
        exact .further next (trivia _ more) (ih _ progress given)
    · cases read
      exact .here

/-- The flags with one more, if a token of the kind is one. -/
def flagged? (found : Flags) : TokenKind → Option Flags
  | .hash => some { found with silent := true }
  | .pipe => some { found with isSet := true }
  | _ => none

theorem flags_eq (found : Flags) : flags found cursor = (do
    let lexed ← cursor.next
    match flagged? found lexed.token.kind with
    | none => return ⟨found, cursor, Nat.lt_succ_self _⟩
    | some more =>
      let trimmed ← skipTrivia lexed.after
      let reading ← flags more trimmed.rest
      return ⟨reading.value, reading.rest, Nat.lt_of_lt_of_le reading.size_lt
        (Nat.le_trans trimmed.size_lt (Nat.succ_le_succ lexed.size_le))⟩) := by
  rw [flags]
  cases next : cursor.next with
  | error error => rfl
  | ok lexed =>
    have same : (if lexed.token.kind = .hash then some { found with silent := true }
        else if lexed.token.kind = .pipe then some { found with isSet := true }
        else none) = flagged? found lexed.token.kind := by
      cases lexed.token.kind <;> rfl
    dsimp only [bind, Except.bind]
    split
    · rename_i unflagged
      rw [same.symm.trans unflagged]
      rfl
    · rename_i more flagged
      rw [same.symm.trans flagged]
      dsimp only
      cases skipTrivia lexed.after with
      | error error => rfl
      | ok trimmed =>
        dsimp only
        cases flags more trimmed.rest <;> rfl

/-- Reads a name and the colon behind it. -/
def named (opening : Nat) (cursor : Cursor) :
    Except ReadError (Reading (Option String) (cursor.size + 1)) := do
  let name ← identifier cursor
  let trimmed ← skipBlanks name.rest
  let lexed ← trimmed.rest.next
  match lexed.token.kind with
  | .colon => return ⟨some name.value, lexed.after, Nat.lt_of_le_of_lt lexed.size_le
      (Nat.lt_of_lt_of_le trimmed.size_lt name.size_lt)⟩
  | .endOfText => throw (.malformed opening .unclosedBrace)
  | _ => throw (.malformed lexed.token.start (.expectedColon name.value))

/-- A label is a name, unless no name stands there or a call or a reference follows. -/
theorem label_eq (opening : Nat) : label opening cursor = (do
    let lexed ← cursor.next
    let unnamed : Reading (Option String) (cursor.size + 1) := ⟨none, cursor, Nat.lt_succ_self _⟩
    if !isIdentifierToken lexed.token then return unnamed
    if lexed.token.kind = .call && followedByBlank lexed.after then return unnamed
    if lexed.token.kind = .eval then
      if ← referenceFollows lexed.after then return unnamed
    named opening cursor) := rfl

end Reader

namespace Comparison

open Reader

variable {C : Comparison} {stage later last : C.Stage}

section Kept

variable {kept : C.Run later → C.Run stage} {further : C.Run last → C.Run later}
  {cursors : C.Run stage → Cursor} {places : C.Run later → Cursor}

theorem Keeps.self (keeps : C.Keeps kept cursors) (twins : C.Twins stage cursors) :
    C.Twins later fun run => cursors (kept run) :=
  keeps cursors twins fun _ => .here

theorem Keeps.trans (first : C.Keeps kept cursors) (second : C.Keeps further places)
    (trails : ∀ run, (cursors (kept run)).Trails (places run)) :
    C.Keeps (kept ∘ further) cursors :=
  fun olds twins leads => second _ (first olds twins leads) fun run =>
    (leads (kept run)).trans (trails run)

end Kept

/-! ## Gaps, token by token -/

/-- Tokens that are the same and end at the same place, blanks too. -/
structure Met (stage : C.Stage) {cursors : C.Run stage → Cursor}
    (lexed : ∀ run, Lexed (cursors run)) : Prop where
  tokens : ∃ kind, C.Tokens stage kind lexed
  text : ∃ text, ∀ run, (lexed run).token.text = text
  after : C.Twins stage fun run => (lexed run).after

/-- What is met at the cursors, with the places in front of it kept. -/
def Meeting {stage : C.Stage} (cursors : C.Run stage → Cursor) :
    C.Likeness fun run => Lexed (cursors run) :=
  fun later kept lexed => Met later lexed ∧ C.Keeps kept cursors

/-- Gaps agree if they do where the tokens do not. -/
theorem agree_gap_of_step (step : ∀ {stage : C.Stage} {cursors : C.Run stage → Cursor},
      C.Twins stage cursors → C.Agree (C.Peeks id cursors) (fun run => gap (cursors run)) ∨
        C.Agree (Meeting cursors) fun run => (cursors run).next)
    {cursors : C.Run stage → Cursor} (twins : C.Twins stage cursors) :
    C.Agree (C.Peeks id cursors) fun run => gap (cursors run) := by
  obtain ⟨limit, within⟩ := C.exists_limit fun run => (cursors run).size
  induction limit generalizing stage with
  | zero =>
    obtain ⟨run⟩ := C.followed stage
    exact absurd (within run) (Nat.not_lt_zero _)
  | succ limit ih =>
    rcases step twins with agree | met
    · exact agree
    refine met.follow (fun run error fails => ?_) fun later kept lexed moves read met => ?_
    · rw [gap]
      simp only [fails]
    obtain ⟨⟨⟨kind, tokens⟩, ⟨text, texts⟩, after⟩, keeps⟩ := met
    by_cases blank : kind = .whitespace
    · have progress : ∀ run, (lexed run).after.size < (cursors (kept run)).size :=
        fun run => (lexed run).size_lt (by rw [tokens.kinds, blank]; decide)
      have shorter : ∀ run, (lexed run).after.size < limit := fun run =>
        Nat.lt_of_lt_of_le (progress run) (Nat.le_of_lt_succ (within _))
      refine (ih after shorter).follow (fun run error fails => ?_)
        fun last further reading _ tail peeks => ?_
      · rw [gap]
        simp only [read, tokens.kinds, blank, dif_pos, fails]
      · obtain ⟨⟨⟨behind, same⟩, rest⟩, keepsToo⟩ := peeks
        refine .here (fun run => ⟨text ++ (reading run).value, (reading run).rest, ?_⟩)
          (fun run => ?_) ⟨⟨⟨text ++ behind, fun run => congrArg (text ++ ·) (same run)⟩, rest⟩,
            keeps.trans keepsToo fun run =>
              .further (read run) (by rw [tokens.kinds, blank]; rfl) .here⟩
        · exact Nat.lt_of_lt_of_le (reading run).size_lt
            (Nat.le_succ_of_le (progress (further run)))
        · rw [gap]
          simp only [read, tokens.kinds, blank, dif_pos, tail, texts]
    · refine .here (fun run => ⟨"", cursors (kept run), Nat.lt_succ_self _⟩) (fun run => ?_)
        ⟨⟨⟨"", fun _ => rfl⟩, keeps.self twins⟩, keeps⟩
      rw [gap]
      simp only [read, tokens.kinds]
      rw [dif_neg blank]

section Pieces

variable {cursors : C.Run stage → Cursor} (laws : C.Lawful) (twins : C.Twins stage cursors)
include laws twins

/-- Trivia are skipped alike. -/
theorem agree_skipWhile {skipped : TokenKind → Bool} (atEnd : skipped .endOfText = false)
    (blanks : skipped .whitespace = true)
    (trivia : ∀ kind, skipped kind = true → kind.isTrivia = true) :
    C.Agree (C.Peeks id cursors) fun run => skipWhile skipped atEnd (cursors run) := by
  obtain ⟨limit, within⟩ := C.exists_limit fun run => (cursors run).size
  induction limit generalizing stage with
  | zero =>
    obtain ⟨run⟩ := C.followed stage
    exact absurd (within run) (Nat.not_lt_zero _)
  | succ limit ih =>
    refine .of_eq (fun run => skipWhile_eq_gap atEnd blanks) ?_
    refine (laws.gap twins).bind fun stage kept blank _ read gap => ?_
    obtain ⟨alike, keeps⟩ := gap
    have stops := fun run => stops_of_gap (read run)
    refine @Agree.bind _ _ _ _ (C.Peeks id fun run => (blank run).rest) _ _ _ ?_
      fun last further reading _ _ peeks => .pure ⟨⟨⟨(), fun _ => rfl⟩, peeks.1.rest⟩,
        keeps.trans peeks.2 fun run => (stops run).1⟩
    refine (laws.next alike.rest).follow (fun run error fails => ?_)
      fun stage further lexed _ next token => ?_
    · rw [skipWhile]
      simp only [fails]
    obtain ⟨⟨kind, tokens⟩, keeps⟩ := token
    by_cases more : skipped kind = true
    · have again : ∀ run, skipped (lexed run).token.kind = true :=
        fun run => tokens.kinds run ▸ more
      have solid : kind ≠ .whitespace := by
        obtain ⟨run⟩ := C.followed stage
        obtain ⟨-, found, given, solid⟩ := stops (further run)
        rw [← tokens.kinds run]
        cases given.symm.trans (next run)
        exact solid
      have progress : ∀ run, (lexed run).after.size < (blank (further run)).rest.size :=
        fun run => (lexed run).size_lt fun kind => by
          have := again run
          rw [kind, atEnd] at this
          cases this
      have shorter : ∀ run, (lexed run).after.size < limit := fun run => by
        have := progress run
        have := (blank (further run)).size_lt
        have := within (kept (further run))
        omega
      refine (ih (tokens.after solid) shorter).follow (fun run error fails => ?_)
        fun last beyond reading _ tail peeks => ?_
      · rw [skipWhile]
        simp only [next, dif_pos (again run), fails]
      · refine .here (fun run => ⟨(), (reading run).rest, ?_⟩) (fun run => ?_)
          ⟨⟨⟨(), fun _ => rfl⟩, peeks.1.rest⟩, ?_⟩
        · have := progress (beyond run)
          have := (reading run).size_lt
          dsimp only
          omega
        · rw [skipWhile]
          simp only [next, dif_pos (again _), tail]
        · exact keeps.trans peeks.2 fun run => .further (next run) (trivia _ (again run)) .here
    · refine .here (fun run => ⟨(), (blank (further run)).rest, Nat.lt_succ_self _⟩) (fun run => ?_)
        ⟨⟨⟨(), fun _ => rfl⟩, keeps.self alike.rest⟩, keeps⟩
      rw [skipWhile]
      simp only [next]
      rw [dif_neg (by rwa [tokens.kinds])]

theorem agree_skipTrivia : C.Agree (C.Peeks id cursors) fun run => skipTrivia (cursors run) :=
  agree_skipWhile laws twins rfl rfl fun _ trivia => trivia

theorem agree_skipBlanks : C.Agree (C.Peeks id cursors) fun run => skipBlanks (cursors run) :=
  agree_skipWhile laws twins rfl rfl fun _ blank => by rw [eq_of_beq blank]; rfl

/-- The next token, and the places of the tokens in front of it. -/
theorem nextThen {Value : C.Run stage → Type} {alike : C.Likeness Value}
    {next : ∀ run, Lexed (cursors run) → Except ReadError (Value run)}
    (goOn : ∀ later (kept : C.Run later → C.Run stage) (lexed : ∀ run, Lexed (cursors (kept run)))
      kind, C.Later stage later kept → (∀ run, (cursors (kept run)).next = .ok (lexed run)) →
      C.Tokens later kind lexed → C.Twins later (fun run => cursors (kept run)) →
      C.Agree (fun last further => alike last (kept ∘ further))
        fun run => next (kept run) (lexed run)) :
    C.Agree alike fun run => (cursors run).next >>= next run := by
  refine (laws.next twins).bind fun later kept lexed moves read token => ?_
  obtain ⟨⟨kind, tokens⟩, keeps⟩ := token
  exact goOn later kept lexed kind moves read tokens (keeps.self twins)

theorem agree_closingBrace {opening : C.Run stage → Nat} (isOpen : C.OpenBrace stage opening) :
    C.Agree (C.Ends id) fun run => closingBrace (opening run) (cursors run) := by
  refine .of_eq (fun run => closingBrace.eq_def ..) ?_
  refine (agree_skipTrivia laws twins).bind fun stage kept trimmed moves _ clear => ?_
  have isOpen := C.openBrace_of_later moves isOpen
  refine nextThen laws clear.1.rest fun stage further lexed kind moves read tokens twins => ?_
  have isOpen := C.openBrace_of_later moves isOpen
  simp only [tokens.kinds]
  cases kind with
  | rightBrace => exact .pure ⟨⟨⟨_, fun _ => rfl⟩, tokens.after (by decide)⟩, tokens.closed rfl⟩
  | endOfText => exact .settled (laws.brace isOpen)
  | _ => exact .settled (laws.refused twins read fun _ same => by cases same)

omit laws twins in
/-- Whether a token is part of an identifier shows in its kind and what it means. -/
theorem Tokens.part {lexed : ∀ run, Lexed (cursors run)} {kind : TokenKind}
    (tokens : C.Tokens stage kind lexed) :
    ∃ part, ∀ run, isIdentifierToken (lexed run).token = part := by
  by_cases blank : kind = .whitespace
  · exact ⟨false, fun run => by simp [isIdentifierToken, tokens.kinds run, blank,
      TokenKind.isKeyword]⟩
  · obtain ⟨text, texts⟩ := tokens.text blank
    refine ⟨isIdentifierToken ⟨kind, 0, 0, text⟩, fun run => ?_⟩
    simp only [isIdentifierToken, tokens.kinds run, texts run]

theorem agree_identifierTail (start : String) :
    C.Agree (C.Reads id) fun run => identifierTail start (cursors run) := by
  obtain ⟨limit, within⟩ := C.exists_limit fun run => (cursors run).size
  induction limit generalizing stage start with
  | zero =>
    obtain ⟨run⟩ := C.followed stage
    exact absurd (within run) (Nat.not_lt_zero _)
  | succ limit ih =>
    refine (laws.next twins).follow (fun run error fails => ?_)
      fun stage kept lexed moves read token => ?_
    · rw [identifierTail]
      simp only [fails]
    obtain ⟨⟨kind, tokens⟩, keeps⟩ := token
    obtain ⟨part, parts⟩ := tokens.part
    cases part with
    | false =>
      refine .here (fun run => ⟨start, cursors (kept run), Nat.lt_succ_self _⟩) (fun run => ?_)
        ⟨⟨_, fun _ => rfl⟩, keeps.self twins⟩
      rw [identifierTail]
      simp only [read, parts, Bool.false_eq_true, dif_neg, not_false_eq_true]
    | true =>
      have solid : kind ≠ .whitespace := by
        obtain ⟨run⟩ := C.followed stage
        rintro rfl
        have := parts run
        simp [isIdentifierToken, tokens.kinds run, TokenKind.isKeyword] at this
      obtain ⟨text, texts⟩ := tokens.text solid
      have progress := fun run => (lexed run).size_lt (kind_ne_endOfText (parts run))
      have shorter : ∀ run, (lexed run).after.size < limit := fun run => by
        have := progress run
        have := within (kept run)
        omega
      refine (ih (tokens.after solid) (start ++ text) shorter).follow (fun run error fails => ?_)
        fun last beyond reading _ tail same => ?_
      · rw [identifierTail]
        simp only [read, dif_pos (parts run), texts, fails]
      · refine .here (fun run => ⟨(reading run).value, (reading run).rest, ?_⟩) (fun run => ?_)
          ⟨same.value, same.rest⟩
        · have := progress (beyond run)
          have := (reading run).size_lt
          omega
        · rw [identifierTail]
          simp only [read, dif_pos (parts _), texts, tail]

theorem agree_identifier :
    C.Agree (C.Reads id) fun run => identifier (cursors run) := by
  refine .of_eq (fun run => identifier.eq_def _) ?_
  refine (agree_identifierTail laws twins "").bind fun stage kept reading moves read same => ?_
  obtain ⟨⟨name, names⟩, rest⟩ := same
  simp only [id_eq] at names
  refine .ite (fun run => by rw [names]) (fun empty => ?_) fun _ => .pure ⟨⟨name, names⟩, rest⟩
  -- Nothing has been taken, so that the token here is the one that was looked at.
  have untouched : ∀ run, (reading run).rest = cursors (kept run) := fun run => by
    obtain ⟨source, isIn⟩ := Cursor.exists_in (cursors (kept run))
    exact Indexed.identifierTail_empty isIn (read run) (by rwa [names])
  simp only [untouched] at rest
  refine nextThen laws rest fun stage further lexed kind moves next tokens twins => ?_
  exact .settled (laws.refused twins next fun _ same => by cases same)

/-- Whether a reference follows is seen alike, and the places in front are kept. -/
theorem agree_referenceFollows :
    C.Agree (fun _ kept follows => (∃ seen, ∀ run, follows run = seen) ∧ C.Keeps kept cursors)
      fun run => referenceFollows (cursors run) := by
  refine .of_eq (fun run => referenceFollows.eq_def _) ?_
  refine (agree_skipTrivia laws twins).bind fun stage kept trimmed moves read clear => ?_
  have trails := fun run => trails_of_skipWhile (fun _ trivia => trivia) (read run)
  refine (laws.next clear.1.rest).bind fun stage further lexed moves read token => ?_
  obtain ⟨⟨kind, tokens⟩, keeps⟩ := token
  refine .pure ⟨⟨decide (kind = .at), fun run => by simp only [tokens.kinds]⟩, ?_⟩
  exact clear.2.trans keeps trails

theorem agree_flags {found : Flags} :
    C.Agree (C.Reads id) fun run => flags found (cursors run) := by
  obtain ⟨limit, within⟩ := C.exists_limit fun run => (cursors run).size
  induction limit generalizing stage found with
  | zero =>
    obtain ⟨run⟩ := C.followed stage
    exact absurd (within run) (Nat.not_lt_zero _)
  | succ limit ih =>
    refine .of_eq (fun run => flags_eq found) ?_
    refine nextThen laws twins fun stage kept lexed kind moves read tokens twins => ?_
    simp only [tokens.kinds]
    cases flag : flagged? found kind with
    | none => exact .pure ⟨⟨_, fun _ => rfl⟩, twins⟩
    | some more =>
      have solid : kind ≠ .whitespace := by
        rintro rfl
        cases flag
      have progress := fun run => (lexed run).size_lt (by
        rw [tokens.kinds run]
        rintro rfl
        cases flag)
      refine (agree_skipTrivia laws (tokens.after solid)).bind
        fun stage further trimmed moves _ clear => ?_
      have shorter : ∀ run, (trimmed run).rest.size < limit := fun run => by
        have := progress (further run)
        have := (trimmed run).size_lt
        have := within (kept (further run))
        omega
      exact (ih clear.1.rest shorter).bind fun last beyond reading _ _ same =>
        .pure ⟨same.value, same.rest⟩

theorem agree_named {opening : C.Run stage → Nat} (isOpen : C.OpenBrace stage opening) :
    C.Agree (C.Reads id) fun run => named (opening run) (cursors run) := by
  refine (agree_identifier laws twins).bind fun stage kept name moves _ same => ?_
  have isOpen := C.openBrace_of_later moves isOpen
  obtain ⟨⟨called, names⟩, rest⟩ := same
  refine (agree_skipBlanks laws rest).bind fun stage further trimmed moves _ clear => ?_
  have isOpen := C.openBrace_of_later moves isOpen
  refine nextThen laws clear.1.rest fun stage nearer lexed kind moves read tokens twins => ?_
  have isOpen := C.openBrace_of_later moves isOpen
  simp only [tokens.kinds]
  cases kind with
  | colon =>
    exact .pure ⟨⟨some called, fun run => congrArg some (names _)⟩, tokens.after (by decide)⟩
  | endOfText => exact .settled (laws.brace isOpen)
  | _ => exact .settled (laws.refused twins read fun _ same => by cases same)

/-- Labels agree if a call that may stand there is seen alike to be one. -/
theorem agree_label {opening : C.Run stage → Nat} (isOpen : C.OpenBrace stage opening)
    (calls : ∃ blank, ∀ run lexed, (cursors run).next = .ok lexed → lexed.token.kind = .call →
      followedByBlank lexed.after = blank) :
    C.Agree (C.Reads id) fun run => label (opening run) (cursors run) := by
  refine .of_eq (fun run => label_eq _) ?_
  refine nextThen laws twins fun stage kept lexed kind moves read tokens twins => ?_
  have isOpen := C.openBrace_of_later moves isOpen
  obtain ⟨part, parts⟩ := tokens.part
  obtain ⟨blank, calls⟩ := calls
  have calls : ∀ run, kind = .call → followedByBlank (lexed run).after = blank :=
    fun run call => calls _ _ (read run) ((tokens.kinds run).trans call)
  refine .ite (q := part = false) (fun run => by simp [parts])
    (fun _ => .pure ⟨⟨none, fun _ => rfl⟩, twins⟩) fun isPart => ?_
  refine .ite (q := kind = .call ∧ blank = true) (fun run => ?_)
    (fun _ => .pure ⟨⟨none, fun _ => rfl⟩, twins⟩) fun _ => ?_
  · by_cases call : kind = .call
    · simp [tokens.kinds, call, calls run call]
    · simp [tokens.kinds, call]
  refine .ite (q := kind = .eval) (fun run => by rw [tokens.kinds]) (fun eval => ?_)
    fun _ => agree_named laws twins isOpen
  have solid : kind ≠ .whitespace := by rw [eval]; decide
  have word : ∀ run, (cursors (kept run)).Leads [.eval] (lexed run).after := fun run =>
    .inr ⟨_, read run, by simp [tokens.kinds, eval], .here⟩
  refine (agree_referenceFollows laws (tokens.after solid)).bind
    fun stage further follows moves _ seen => ?_
  have isOpen := C.openBrace_of_later moves isOpen
  obtain ⟨⟨follows, same⟩, keeps⟩ := seen
  have twins := keeps _ twins word
  refine .ite (q := follows = true) (fun run => by rw [same])
    (fun _ => .pure ⟨⟨none, fun _ => rfl⟩, twins⟩) fun _ => ?_
  exact agree_named laws twins isOpen

theorem agree_weight : C.Agree (C.Reads id) fun run => weight (cursors run) := by
  refine .of_eq (fun run => weight.eq_def _) ?_
  refine (agree_skipTrivia laws twins).bind fun stage kept trimmed moves _ clear => ?_
  refine nextThen laws clear.1.rest fun stage further lexed kind moves read tokens twins => ?_
  refine .ite (q := kind = .number) (fun run => by rw [tokens.kinds]) (fun number => ?_) fun _ => ?_
  · have solid : kind ≠ .whitespace := by rw [number]; decide
    obtain ⟨text, texts⟩ := tokens.text solid
    exact .pure ⟨⟨some (Decimal.ofChars text.toList), fun run => by simp only [texts, id_eq]⟩,
      tokens.after solid⟩
  · exact .pure ⟨⟨none, fun _ => rfl⟩, twins⟩

/-- Index lists have the same indices. -/
theorem agree_indexList :
    C.Agree (C.Ends (List.map Prod.fst)) fun run => indexList (cursors run) := by
  obtain ⟨limit, within⟩ := C.exists_limit fun run => (cursors run).size
  induction limit generalizing stage with
  | zero =>
    obtain ⟨run⟩ := C.followed stage
    exact absurd (within run) (Nat.not_lt_zero _)
  | succ limit ih =>
    refine .of_eq (fun run => indexList.eq_def _) ?_
    refine nextThen laws twins fun stage kept number kind moves read tokens twins => ?_
    refine .dite (q := kind = .number) (fun run => by rw [tokens.kinds]) (fun numeric isNumber => ?_)
      fun _ _ => .settled (laws.refused twins read fun _ same => by cases same)
    subst isNumber
    obtain ⟨text, texts⟩ := tokens.text (by decide)
    have progress := fun run => (number run).size_lt (by rw [numeric run]; decide)
    simp only [branchIndex, texts]
    cases branchIndex? text with
    | none => exact .settled (laws.refused twins read fun _ same => by cases same)
    | some index =>
      refine .okThen ?_
      refine (agree_skipTrivia laws (tokens.after (by decide))).bind
        fun stage further trimmed moves _ clear => ?_
      refine nextThen laws clear.1.rest fun stage nearer lexed kind moves read tokens twins => ?_
      simp only [tokens.kinds]
      cases kind with
      | arrow =>
        exact .pure ⟨⟨⟨[index], fun _ => rfl⟩, tokens.after (by decide)⟩, tokens.closed rfl⟩
      | comma =>
        refine (agree_skipTrivia laws (tokens.after (by decide))).bind
          fun stage beyond next moves _ clear => ?_
        have shorter : ∀ run, (next run).rest.size < limit := fun run => by
          have := progress (further (nearer (beyond run)))
          have := (trimmed (nearer (beyond run))).size_lt
          have := (lexed (beyond run)).size_le
          have := (next run).size_lt
          have := within (kept (further (nearer (beyond run))))
          omega
        refine (ih clear.1.rest shorter).bind fun last onward reading _ _ same => ?_
        obtain ⟨⟨⟨indices, same⟩, rest⟩, closed⟩ := same
        exact .pure ⟨⟨⟨index :: indices, fun run => congrArg (index :: ·) (same run)⟩, rest⟩, closed⟩
      | _ => exact .settled (laws.refused twins read fun _ same => by cases same)

/-- Quoted literals stand for the same. -/
theorem agree_quoted : C.Agree (C.Reads id) fun run => quoted (cursors run) := by
  refine (laws.next twins).follow (fun run error fails => ?_)
    fun stage kept lexed moves read token => ?_
  · rw [quoted]
    simp only [fails]
  obtain ⟨⟨kind, tokens⟩, keeps⟩ := token
  have twins := keeps.self twins
  cases opens : kind.quote? with
  | none =>
    refine .of_eq (fun run => Indexed.quoted_of_none (read run) (by rwa [tokens.kinds])) ?_
    exact .settled (laws.refused twins read fun _ same => by cases same)
  | some quote => exact laws.literal twins read tokens (by rw [opens]; rfl)

end Pieces

end Comparison

end BranchText
