import BranchText.Proofs.Comments.Readers

/-!
# The versions of a text, part by part

Literals, verbatim text and scripts end in front of the comment, whatever stands behind it, or a
probe shows that the comment is a part of them. Behind the comment they are read alike.
-/

namespace BranchText

namespace Commented

open Comparison Reader

variable {text : Commented} {stage : Stage} {cursors : Followed stage → Cursor}

/-- What stands behind the cursors: a text that all versions have, and what differs. -/
structure Facing (text : Commented) (places : Followed stage → Cursor) (inside : List Char)
    (tail : Followed stage → List Char) : Prop where
  rests : ∀ run, (places run).rest = inside ++ tail run
  onward : ∀ passed later, inside = passed ++ later → text.Twins stage fun run =>
    ⟨(places run).offset + byteLength passed, later ++ tail run⟩
  settled : ∀ errors : Followed stage → Option ReadError, (∀ run,
    tail run = [] ∨ tail run = ['/', '*'] → ∃ error, errors run = some error ∧ error ≠ text.stuck) →
    text.Settled errors

theorem isInert_of_isQuiet {kind : TokenKind} (quiet : isQuiet kind = true) :
    isInert kind = true := by
  cases kind <;> first | rfl | cases quiet

theorem solid_of_loud {kind : TokenKind} (loud : isInert kind = false) : kind ≠ .whitespace := by
  rintro rfl
  cases loud

section Loud

variable {lexed : ∀ run, Lexed (cursors run)} {kind : TokenKind}
  (twins : text.Twins stage cursors) (read : ∀ run, (cursors run).next = .ok (lexed run))
  (tokens : text.comparison.Tokens stage kind lexed)
include twins read tokens

/-- What opens or closes something stands in front of the comment or behind it. -/
theorem stage_of_loud (loud : isInert kind = false) :
    stage = .before ∨ stage = .behind ∧ ∃ rest, ∀ run, (lexed run).after.rest = rest := by
  have takes : ∀ run {token last}, (cursors run).Takes token last → isInert token.kind = false :=
    fun run token last takes => by
      rw [← (takes.lexed (read run)).1, tokens.kinds, loud]
  cases twins with
  | before => exact .inl rfl
  | waiting before after split stands waits =>
    rename_i cursors
    rcases waits.reaches split with blank | ⟨token, _, _, -, found, quiet, -⟩
    · obtain ⟨token, behind, found, kind⟩ :=
        takes_of_blanks blank (show Stage.follows .behind .commented = true from rfl)
      have noisy := takes ⟨.commented, rfl⟩ (by rw [stands]; exact found)
      rw [kind] at noisy
      cases noisy
    · have noisy := takes ⟨.commented, rfl⟩ (by rw [stands]; exact found .commented)
      rw [isInert_of_isQuiet quiet] at noisy
      cases noisy
  | behind rest stands =>
    rename_i cursors
    refine .inr ⟨rfl, (lexed ⟨.commented, rfl⟩).after.rest, fun run => ?_⟩
    obtain ⟨found, given, -, -, rests⟩ := Cursor.next_shift
      ((stands run).trans (stands _).symm) (read ⟨.commented, rfl⟩)
    cases given.symm.trans (read run)
    exact rests
  | swallowed swallowed =>
    cases swallowed ⟨.opened, rfl⟩ with
    | spent spent =>
      obtain ⟨token, last, found, -, inert, -⟩ := takes_of_isSpent spent
      rw [takes _ found] at inert
      cases inert
    | further found inert _ =>
      rw [takes _ found] at inert
      cases inert

/-- Behind a token that opens or closes something, the versions have a text in common. -/
theorem facing_of_loud (loud : isInert kind = false) :
    ∃ inside tail, text.Facing (fun run => (lexed run).after) inside tail := by
  have after := tokens.after (solid_of_loud loud)
  rcases stage_of_loud twins read tokens loud with rfl | ⟨rfl, rest, rests⟩
  · cases after with
    | before before after split stands =>
      have stands : ∀ run, (lexed run).after = text.place before after run.1 := stands
      refine ⟨after, fun run => text.tail run.1, fun run => by rw [stands]; rfl,
        fun passed later whole => .before (before ++ passed) later (by simp [← split, whole])
          fun run => ?_, fun errors all => ?_⟩
      · rw [stands, place, place, byteLength_append]
      · obtain ⟨error, fails, differs⟩ := all ⟨.opened, rfl⟩ (.inr rfl)
        exact .other _ rfl error fails differs
  · refine ⟨rest, fun _ => [], fun run => by simp [rests],
      fun passed later whole => .behind later fun run => by simp, fun errors all => ?_⟩
    obtain ⟨error, fails, -⟩ := all ⟨.commented, rfl⟩ (.inl rfl)
    obtain ⟨other, failsToo, -⟩ := all ⟨.blank, rfl⟩ (.inl rfl)
    exact .failed ⟨.commented, rfl⟩ ⟨.blank, rfl⟩ rfl rfl (by rw [fails]; rfl)
      (by rw [failsToo]; rfl)

end Loud

/-- What is read of the text in common is read alike, if it is read with nothing behind it or with
the comment opened there. -/
theorem Facing.agree {places : Followed stage → Cursor} {inside : List Char}
    {tail : Followed stage → List Char} (facing : text.Facing places inside tail) {α κ : Type}
    {view : α → κ} {limit : Followed stage → Nat}
    {outcome : ∀ run, Except ReadError (Reading α (limit run))}
    (given : ∀ run reading, tail run = [] ∨ tail run = ['/', '*'] → outcome run = .ok reading →
      ∃ passed later value, inside = passed ++ later ∧ ∀ run, ∃ reading, outcome run = .ok reading ∧
        view reading.value = value ∧
        reading.rest = ⟨(places run).offset + byteLength passed, later ++ tail run⟩)
    (fails : ∀ run error, outcome run = .error error → error ≠ text.stuck) :
    text.comparison.Agree (text.comparison.Reads view) outcome := by
  by_cases some : ∃ run reading, (tail run = [] ∨ tail run = ['/', '*']) ∧ outcome run = .ok reading
  · obtain ⟨run, reading, plain, read⟩ := some
    obtain ⟨passed, later, value, whole, all⟩ := given run reading plain read
    choose readings reads values rests using all
    refine .here readings reads ⟨⟨value, values⟩, ?_⟩
    exact (funext rests : (fun run => (readings run).rest) = _) ▸ facing.onward passed later whole
  · refine .settled (facing.settled _ fun run plain => ?_)
    cases outcome : outcome run with
    | error error => exact ⟨error, rfl, fails run error outcome⟩
    | ok reading => exact absurd ⟨run, reading, plain, outcome⟩ some

/-! ## Literals and scripts -/

/-- A script block starts behind its bracket, or with the second of two brackets. -/
theorem scriptBody_of_next {cursor : Cursor} {lexed : Lexed cursor}
    (read : cursor.next = .ok lexed) : ∃ bracket,
      (bracket = if lexed.token.kind = .doubleLeftBracket then ['['] else []) ∧
      (scriptBody lexed).rest = bracket ++ lexed.after.rest ∧
      (scriptBody lexed).offset + byteLength bracket = lexed.after.offset := by
  refine ⟨_, rfl, ?_⟩
  rw [scriptBody]
  split
  · rename_i double
    obtain ⟨source, isIn⟩ := cursor.exists_in
    have brackets : ∀ entry ∈ Lexeme.spellings, entry.2 = .doubleLeftBracket →
        entry.1 = ['[', '['] := by decide
    obtain ⟨spelling, listed, -, behind⟩ :=
      Indexed.spelled_of_taken (Indexed.taken_of_next isIn read) (by rw [double]; rfl)
    obtain rfl := brackets _ listed double
    exact ⟨rfl, behind.symm⟩
  · exact ⟨rfl, rfl⟩

section Parts

variable {lexed : ∀ run, Lexed (cursors run)} {kind : TokenKind}
  (twins : text.Twins stage cursors) (read : ∀ run, (cursors run).next = .ok (lexed run))
include twins read

theorem agree_literal (tokens : text.comparison.Tokens stage kind lexed)
    (opens : kind.quote?.isSome = true) :
    text.comparison.Agree (text.comparison.Reads id) fun run => quoted (cursors run) := by
  obtain ⟨quote, isQuote⟩ := Option.isSome_iff_exists.1 opens
  have loud : isInert kind = false := by cases kind <;> first | rfl | cases opens
  have plain : ∀ tail : List Char, tail = [] ∨ tail = ['/', '*'] → quote ∉ tail := by
    rintro _ (rfl | rfl)
    · exact List.not_mem_nil
    · cases kind <;> cases isQuote <;> decide
  have quotes : ∀ run, (lexed run).token.kind.quote? = some quote := fun run => by
    rw [tokens.kinds, isQuote]
  obtain ⟨inside, tail, facing⟩ := facing_of_loud twins read tokens loud
  refine facing.agree (fun run reading ends given => ?_) fun run error fails => ?_
  · have outcome := Indexed.quoted_eq (read run) (quotes run)
    rw [facing.rests] at outcome
    split at outcome
    · cases outcome.symm.trans given
    rename_i close found
    obtain ⟨body, rest, rfl, finds⟩ := Quoted.find_of_not_mem (plain _ ends) found
    exact ⟨body ++ [quote], rest, .ofList (Quoted.decode body), by simp, fun run =>
      quoted_of_finds finds (read run) (quotes run) (facing.rests run)⟩
  · have outcome := Indexed.quoted_eq (read run) (quotes run)
    split at outcome
    · rename_i found
      cases outcome.symm.trans fails
      rw [Quoted.find_eq_error found]
      nofun
    · obtain ⟨reading, given, -⟩ := outcome
      cases given.symm.trans fails

theorem agree_verbatim (tokens : text.comparison.Tokens stage .doubleLeftBracket lexed) :
    text.comparison.Agree (text.comparison.Reads id) fun run =>
      verbatim (lexed run).token.start (lexed run).after := by
  obtain ⟨inside, tail, facing⟩ := facing_of_loud twins read tokens rfl
  have plain : ∀ tail : List Char, tail = [] ∨ tail = ['/', '*'] → ']' ∉ tail := by
    rintro _ (rfl | rfl)
    · exact List.not_mem_nil
    · decide
  refine facing.agree (fun run reading ends given => ?_) fun run error fails => ?_
  · rw [verbatim] at given
    split at given
    · cases given
    rename_i content length found
    rw [facing.rests] at found
    obtain ⟨within, finds⟩ := verbatim?_of_not_mem (plain _ ends) found
    exact ⟨inside.take length, inside.drop length, .ofList content,
      (List.take_append_drop ..).symm, fun run =>
        verbatim_of_finds within finds (lexed run).token.start (facing.rests run)⟩
  · rw [verbatim] at fails
    split at fails
    · cases fails
      intro same
      cases (ReadError.malformed.inj same).2
    · cases fails

theorem agree_script (tokens : text.comparison.Tokens stage kind lexed)
    (opens : kind = .leftBracket ∨ kind = .doubleLeftBracket)
    {body : Followed stage → Cursor} (bodies : ∀ run, body run = scriptBody (lexed run)) :
    text.comparison.Agree (text.comparison.Reads scriptView) fun run =>
      script (lexed run).token.start (body run) := by
  have loud : isInert kind = false := by rcases opens with rfl | rfl <;> rfl
  have plain : ∀ tail : List Char, tail = [] ∨ tail = ['/', '*'] → ']' ∉ tail := by
    rintro _ (rfl | rfl)
    · exact List.not_mem_nil
    · decide
  obtain ⟨inside, tail, facing⟩ := facing_of_loud twins read tokens loud
  obtain ⟨bracket, isBracket, starts⟩ : ∃ bracket, (bracket = [] ∨ bracket = ['[']) ∧ ∀ run,
      (body run).rest = bracket ++ inside ++ tail run ∧
      (body run).offset + byteLength bracket = (lexed run).after.offset := by
    refine ⟨if kind = .doubleLeftBracket then ['['] else [], by split <;> simp, fun run => ?_⟩
    obtain ⟨bracket, isBracket, rest, offset⟩ := scriptBody_of_next (read run)
    rw [tokens.kinds] at isBracket
    rw [bodies, ← isBracket, List.append_assoc, ← facing.rests]
    exact ⟨rest, offset⟩
  refine facing.agree (fun run reading ends given => ?_) fun run error fails => ?_
  · have outcome := Indexed.script_eq (lexed run).token.start (body run)
    rw [(starts run).1] at outcome
    split at outcome
    · cases outcome.symm.trans given
    rename_i close found
    obtain ⟨content, rest, split, finds⟩ := Extent.find_of_not_mem (plain _ ends) found
    -- The bracket that the script ends with is not the one it starts with.
    obtain ⟨more, rfl, rfl⟩ : ∃ more, content = bracket ++ more ∧
        inside = more ++ ']' :: rest := by
      rcases isBracket with rfl | rfl
      · exact ⟨content, rfl, split⟩
      · cases content with
        | nil => cases split
        | cons c more =>
          obtain ⟨rfl, same⟩ := List.cons.inj split
          exact ⟨more, rfl, same⟩
    refine ⟨more ++ [']'], rest, .ofList (bracket ++ more), by simp, fun run => ?_⟩
    simp only [split] at starts finds
    obtain ⟨reading, given, value, last⟩ :=
      script_of_finds finds (lexed run).token.start (starts run).1
    refine ⟨reading, given, value, ?_⟩
    rw [last, ← (starts run).2]
    simp only [byteLength_append, Nat.add_assoc]
  · have outcome := Indexed.script_eq (lexed run).token.start (body run)
    split at outcome
    · rename_i found
      cases outcome.symm.trans fails
      obtain ⟨place, opened, rfl⟩ := Extent.find_eq_error found
      nofun
    · obtain ⟨reading, given, -⟩ := outcome
      cases given.symm.trans fails

end Parts

end Commented

end BranchText
