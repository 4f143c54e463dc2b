import BranchText.Proofs.Cut.Sides

/-!
# A source and its front, part by part

Literals, verbatim text and scripts end in front of the cut, in both sides, or they are open at the
cut and the front is reported to have them open.
-/

namespace BranchText

namespace Cut

open Comparison Reader

variable {cut : Cut} {side : Side} {stage : Stage} {cursors : Followed side stage → Cursor}

/-! ## Where parts are read from -/

section Marks

variable {cursors : Followed side .together → Cursor} {lexed : ∀ run, Lexed (cursors run)}
  {kind : TokenKind} (twins : cut.Twins side .together cursors)
  (read : ∀ run, (cursors run).next = .ok (lexed run))
  (tokens : (cut.comparison side).Tokens .together kind lexed)
include twins read tokens

/-- A mark stands in front of the cut, at the same place in both sides. -/
theorem exists_mark (mark : List Char) (fixed : Indexed.isVaried kind = false)
    (only : ∀ entry ∈ Lexeme.spellings, entry.2 = kind → entry.1 = mark) :
    ∃ before later, cut.front = before ++ mark ++ later ∧ ∀ run,
      (lexed run).token.start = byteLength before ∧
        (lexed run).after = cut.place (before ++ mark) later run.1 := by
  have solid : kind ≠ .whitespace := by
    rintro rfl
    cases fixed
  have stands : ∀ run, ∃ front, (lexed run).token.start = byteLength front ∧
      front ++ mark ++ (lexed run).after.rest = cut.front ++ cut.tail run.1 := by
    intro run
    have isIn : (cursors run).In (cut.front ++ cut.tail run.1) := by
      cases twins with
      | together before after split stands =>
        rw [stands]
        exact ⟨before, by simp [place, ← split], rfl⟩
    have taken := Indexed.taken_of_next isIn (read run)
    obtain ⟨⟨front, split, start⟩, -⟩ := stands_of_taken taken mark
      (by rwa [tokens.kinds]) (by rwa [tokens.kinds])
    exact ⟨front, start.symm, by rw [split, List.append_assoc]⟩
  have after := tokens.after solid
  generalize places : (fun run => (lexed run).after) = behind at after
  cases after with
  | together before later split behind =>
    have same : ∀ run, (lexed run).after = cut.place before later run.1 := fun run => by
      rw [← behind run, ← places]
    have marked : ∀ run, ∃ front, (lexed run).token.start = byteLength front ∧
        front ++ mark = before := by
      intro run
      obtain ⟨front, start, whole⟩ := stands run
      rw [same, place, ← split, List.append_assoc before] at whole
      exact ⟨front, start, List.append_cancel_right whole⟩
    obtain ⟨front, -, rfl⟩ := marked ⟨.whole, rfl⟩
    refine ⟨front, later, split.symm, fun run => ⟨?_, same run⟩⟩
    obtain ⟨other, start, equal⟩ := marked run
    rw [start, List.append_cancel_right equal]

/-- The body of a script stands behind its bracket. -/
theorem exists_bracket (opens : kind = .leftBracket ∨ kind = .doubleLeftBracket) :
    ∃ before later, cut.front = before ++ ['['] ++ later ∧ ∀ run,
      (lexed run).token.start = byteLength before ∧
        scriptBody (lexed run) = cut.place (before ++ ['[']) later run.1 := by
  rcases opens with rfl | rfl
  · obtain ⟨before, later, split, stands⟩ :=
      exists_mark twins read tokens ['['] rfl (by decide)
    refine ⟨before, later, split, fun run => ⟨(stands run).1, ?_⟩⟩
    rw [scriptBody, if_neg (by rw [tokens.kinds]; decide), (stands run).2]
  · obtain ⟨before, later, split, stands⟩ :=
      exists_mark twins read tokens ['[', '['] rfl (by decide)
    refine ⟨before, '[' :: later, by simp [split], fun run => ⟨(stands run).1, ?_⟩⟩
    have one : byteLength (before ++ ['[']) = byteLength before + 1 := byteLength_append ..
    rw [scriptBody, if_pos (tokens.kinds run), (stands run).1, (stands run).2, place, place, one]
    rfl

end Marks

/-- Something that is read from the place behind a mark on is open at the cut if it ends behind
it. -/
theorem opens_of_body {before mark later : List Char} (split : cut.front = before ++ mark ++ later)
    {body last : Cursor} (isBody : body = cut.place (before ++ mark) later .whole)
    {ends : Cursor → Cursor → Prop} (given : ends body last)
    (beyond : last.size < cut.back.length) : cut.Opens (byteLength before) mark ends := by
  subst isBody
  refine ⟨before, later, last, split, rfl, ?_, beyond⟩
  rw [← byteLength_append]
  exact given

/-! ## Parts -/

section Outcomes

variable {α κ : Type} {view : α → κ}

/-- A part that leads the source behind the cut. -/
theorem agree_passed {stage : Stage} {limit : Followed .whole stage → Nat}
    {outcome : ∀ run, Except ReadError (Reading α (limit run))} (run : Followed .whole stage)
    (isWhole : run.1 = .whole) {reading : Reading α (limit run)} (read : outcome run = .ok reading)
    (beyond : reading.rest.size < cut.back.length) :
    (cut.comparison .whole).Agree ((cut.comparison .whole).Reads view) outcome := by
  refine .values .apart (fun _ => run) (fun other => ?_) (fun _ => reading) (fun _ => read)
    ⟨⟨_, fun _ => rfl⟩, .apart fun other => ?_⟩
  · rw [eq_own other]
    exact isWhole
  · rw [eq_own other]
    exact .beyond beyond

/-- A part that is read from the same place of both sides. Where it ends in front of the cut in one
of them it does in both, and otherwise the front is reported. -/
theorem agree_part {places : Followed side .together → Cursor} {before later : List Char}
    (split : cut.front = before ++ later) (stands : ∀ run, places run =
      cut.place before later run.1) {limit : Followed side .together → Nat}
    {outcome : ∀ run, Except ReadError (Reading α (limit run))}
    (within : ∀ run reading, outcome run = .ok reading →
      (cut.tail run.1).length ≤ reading.rest.size → ∃ passed rest value, later = passed ++ rest ∧
        ∀ run, ∃ reading, outcome run = .ok reading ∧ view reading.value = value ∧
          reading.rest = ⟨(places run).offset + byteLength passed, rest ++ cut.tail run.1⟩)
    (fails : ∀ reading error, outcome ⟨.whole, rfl⟩ = .ok reading →
      reading.rest.size < cut.back.length → outcome ⟨.front, rfl⟩ = .error error →
        cut.IsReported error) :
    (cut.comparison side).Agree ((cut.comparison side).Reads view) outcome := by
  have alike : ∀ run reading, outcome run = .ok reading →
      (cut.tail run.1).length ≤ reading.rest.size →
        (cut.comparison side).Agree ((cut.comparison side).Reads view) outcome := by
    intro run reading read inside
    obtain ⟨passed, rest, value, whole, all⟩ := within run reading read inside
    choose readings reads values rests using all
    refine .here readings reads ⟨⟨value, values⟩, .together (before ++ passed) rest ?_ ?_⟩
    · rw [split, whole, List.append_assoc]
    · intro run
      rw [rests, stands, place, place, byteLength_append]
  cases read : outcome ⟨.whole, rfl⟩ with
  | error error => exact .settled (.whole ⟨.whole, rfl⟩ rfl error (by rw [read]; rfl))
  | ok reading =>
    by_cases inside : cut.back.length ≤ reading.rest.size
    · exact alike _ reading read inside
    · rw [Nat.not_le] at inside
      cases side with
      | whole => exact agree_passed ⟨.whole, rfl⟩ rfl read inside
      | front =>
        cases readFront : outcome ⟨.front, rfl⟩ with
        | ok found => exact alike _ found readFront (Nat.zero_le _)
        | error error =>
          refine .settled (.front ⟨.front, rfl⟩ rfl rfl error ?_ (fails _ _ read inside readFront))
          rw [readFront]
          rfl

/-- A part that is read in a side that is followed alone: it leads the source behind the cut, and
is reported to be missing in the front. -/
theorem agree_alone {limit : Followed side .apart → Nat}
    {outcome : ∀ run, Except ReadError (Reading α (limit run))}
    (beyond : ∀ run, run.1 = .whole → ∀ reading, outcome run = .ok reading →
      reading.rest.size < cut.back.length)
    (fails : ∀ run, run.1 = .front →
      ∃ error, outcome run = .error error ∧ cut.IsReported error) :
    (cut.comparison side).Agree ((cut.comparison side).Reads view) outcome := by
  cases side with
  | whole =>
    cases read : outcome (own .whole) with
    | error error => exact .settled (.whole (own .whole) rfl error (by rw [read]; rfl))
    | ok reading => exact agree_passed (own .whole) rfl read (beyond _ rfl _ read)
  | front =>
    obtain ⟨error, fails, reported⟩ := fails (own .front) rfl
    exact .settled (.front (own .front) rfl rfl error (by rw [fails]; rfl) reported)

end Outcomes

/-! ## Parts that open something -/

/-- What a token opens that is met by a side that is followed alone: the source has passed the cut,
and in the front it is a bracket at the end. -/
theorem opens_alone {cursors : Followed side .apart → Cursor} {lexed : ∀ run, Lexed (cursors run)}
    (twins : cut.Twins side .apart cursors) (read : ∀ run, (cursors run).next = .ok (lexed run))
    (run : Followed side .apart) (loud : (lexed run).token.kind.isInert = false) :
    match run.1 with
    | .whole => (lexed run).after.size < cut.back.length
    | .front => (lexed run).token.kind = .leftBracket ∧ (lexed run).after.rest = [] ∧
        cut.IsLate (lexed run).token.start := by
  cases twins with
  | apart apart =>
    have here := apart run
    cases same : run.1 with
    | whole =>
      rw [same] at here
      exact (Passed.step here (read run)).2 loud
    | front =>
      rw [same] at here
      obtain ⟨ended, isIn, late⟩ := here
      obtain ⟨token, after, takes, -, kinds⟩ := ended.step
      obtain ⟨rfl, rfl⟩ := takes.lexed (read run)
      rcases kinds with inert | ⟨bracket, none⟩
      · rw [loud] at inert
        cases inert
      · refine ⟨bracket, none, late.mono (onset_of_next isIn (read run)) ?_⟩
        obtain ⟨place, placeIn, start⟩ := (Indexed.taken_of_next isIn (read run)).start_isPlace
        exact start ▸ placeIn.offset_le

/-! ## Literals and scripts -/

/-- A literal that is read ends with the quote that was found. -/
theorem find_of_quoted {cursor : Cursor} {lexed : Lexed cursor} (read : cursor.next = .ok lexed)
    {quote : Char} (opens : lexed.token.kind.quote? = some quote)
    {reading : Reading String cursor.size} (given : quoted cursor = .ok reading) :
    ∃ close, Quoted.find quote lexed.token.start lexed.after.offset lexed.after.rest = .ok close ∧
      close.skip 1 = reading.rest ∧ close.size = reading.rest.size + 1 := by
  have outcome := Indexed.quoted_eq read opens
  split at outcome
  · cases outcome.symm.trans given
  rename_i close found
  obtain ⟨other, same, view⟩ := outcome
  cases same.symm.trans given
  have last : reading.rest = close.skip 1 := (Prod.mk.inj view).2
  obtain ⟨front, rest, -, isClose⟩ := Quoted.find_eq_ok found
  exact ⟨close, found, last.symm, by rw [last, isClose]; rfl⟩

/-- Verbatim text that is read ends where it was found to end. -/
theorem find_of_verbatim {opening : Nat} {cursor : Cursor}
    {reading : Reading String (cursor.size + 1)} (given : verbatim opening cursor = .ok reading) :
    ∃ content length, verbatim? cursor.rest = some (content, length) ∧
      reading.rest = cursor.skip length := by
  rw [verbatim] at given
  split at given
  · cases given
  · rename_i content length found
    cases given
    exact ⟨content, length, found, rfl⟩

/-- Verbatim text that ends within the front of a text ends there whatever follows. -/
theorem verbatim_of_short {opening : Nat} {cursor : Cursor} {front back : List Char}
    (text : cursor.rest = front ++ back) {reading : Reading String (cursor.size + 1)}
    (given : verbatim opening cursor = .ok reading) (short : back.length ≤ reading.rest.size) :
    ∃ passed rest value, front = passed ++ rest ∧
      ∀ {opening : Nat} {place : Cursor} {other : List Char}, place.rest = front ++ other →
        ∃ found, verbatim opening place = .ok found ∧ found.value = value ∧
          found.rest = ⟨place.offset + byteLength passed, rest ++ other⟩ := by
  obtain ⟨content, length, found, last⟩ := find_of_verbatim given
  have least := (two_le_verbatim? found).2
  rw [text] at found
  have within : length ≤ front.length := by
    rw [last, Cursor.size_skip, Cursor.size] at short
    rw [text, List.length_append] at least short
    omega
  exact ⟨front.take length, front.drop length, .ofList content, (List.take_append_drop ..).symm,
    verbatim_of_finds within (verbatim?_of_short found within) _⟩

/-- A script that is read ends with the bracket that was found. -/
theorem find_of_script {opening : Nat} {body : Cursor}
    {reading : Reading ScriptBlock (body.size - 1 + 1)}
    (given : script opening body = .ok reading) :
    ∃ close, Extent.find opening (.initial body.offset none) body.offset body.rest = .ok close ∧
      close.size = reading.rest.size + 1 := by
  have outcome := Indexed.script_eq opening body
  split at outcome
  · cases outcome.symm.trans given
  rename_i close found
  obtain ⟨other, same, view⟩ := outcome
  cases same.symm.trans given
  have last : reading.rest = close.skip 1 := (Prod.mk.inj view).2
  obtain ⟨front, rest, -, isClose⟩ := Extent.find_eq_ok found
  exact ⟨close, found, by rw [last, isClose]; rfl⟩

/-- A script that ends behind the cut is open in front of it, or something in it is. -/
theorem isOpen_of_script {before later : List Char} (split : cut.front = before ++ ['['] ++ later)
    {body : Cursor} (isBody : body = cut.place (before ++ ['[']) later .whole)
    {reading : Reading ScriptBlock (body.size - 1 + 1)}
    (given : script (byteLength before) body = .ok reading)
    (beyond : reading.rest.size < cut.back.length) {error : ReadError}
    (failed : Extent.find (byteLength before) (.initial (byteLength (before ++ ['['])) none)
      (byteLength (before ++ ['['])) later = .error error) : cut.IsOpen error := by
  obtain ⟨close, found, -⟩ := find_of_script given
  subst isBody
  rcases Extent.unclosed_of_cut .refl (.inl rfl) cut.nonempty found failed with
    rfl | ⟨place, kind, rfl, within, holds⟩
  · exact .script (opens_of_body split rfl ⟨reading, given, rfl⟩ beyond)
  · refine .inside (opens_of_body split rfl ⟨⟨reading, given, rfl⟩, ?_⟩ beyond) ?_
    · exact holds
    · rwa [split, byteLength_append]

/-! ## Blanks behind words -/

/-- Where a blank shows only in the source, it goes on behind the cut. -/
theorem across_of_blank (before : List Char) {later : List Char}
    (differ : (lexeme (later ++ cut.back)).kind.isTrivia ≠ (lexeme later).kind.isTrivia) :
    (∃ lexed, (cut.place before later .whole).next = .ok lexed ∧
      lexed.after.size < cut.back.length) ∧ (cut.place before later .front).Ended := by
  have long : later.length < (lexeme (later ++ cut.back)).length := by
    refine Nat.lt_of_not_le fun short => differ ?_
    rw [Lexeme.lexeme_of_short short]
  have blank : (lexeme (later ++ cut.back)).kind.isTrivia = true := by
    refine Decidable.byContradiction fun solid => differ ?_
    rw [Bool.eq_false_iff.2 solid, Bool.eq_false_iff.2 fun trivia =>
      solid (Lexeme.isTrivia_lexeme_of_front trivia)]
  refine ⟨?_, ?_⟩
  · have more : (cut.place before later .whole).rest ≠ [] :=
      fun none => cut.nonempty (List.append_eq_nil_iff.1 none).2
    have other : ∀ kind : TokenKind, kind.isTrivia = false →
        (cut.place before later .whole).token.kind ≠ kind := by
      rintro kind solid rfl
      exact absurd blank (Bool.eq_false_iff.1 solid)
    obtain ⟨lexed, next, -⟩ := Cursor.takes_lexeme more (other _ rfl) (other _ rfl)
    exact ⟨lexed, next, Cursor.size_after_lt cut.nonempty long next⟩
  · rw [place, tail, List.append_nil]
    exact Cursor.ended_of_isSpent _ fun _ => Lexeme.isSpent_of_long long

/-- In front of a word, and of what goes on behind the cut from there, any side may be followed
alone. -/
theorem apart_of_word {cursors : Followed side .together → Cursor}
    {lexed : ∀ run, Lexed (cursors run)} {before after last later : List Char}
    (split : before ++ after = cut.front) (stands : ∀ run, cursors run = cut.place before after run.1)
    (read : ∀ run, (cursors run).next = .ok (lexed run))
    (word : ∀ run, (lexed run).token.kind = .call ∨ (lexed run).token.kind = .mode ∨
      (lexed run).token.kind = .use)
    (afters : ∀ run, (lexed run).after = cut.place last later run.1)
    (across : ∃ lexed, (cut.place last later .whole).next = .ok lexed ∧
      lexed.after.size < cut.back.length) (ended : (cut.place last later .front).Ended) :
    cut.Apart side (cursors ⟨side, rfl⟩) := by
  obtain ⟨next, found, less⟩ := across
  have inert : (lexed ⟨side, rfl⟩).token.kind.isInert = true := by
    rcases word ⟨side, rfl⟩ with kind | kind | kind <;> rw [kind] <;> rfl
  cases side with
  | whole =>
    refine .further (read _) inert ?_
    rw [afters]
    exact .across found less
  | front =>
    have led : (cursors ⟨.whole, rfl⟩).Leads [.call, .eval, .mode, .use]
        (cut.place last later .whole) := by
      refine .inr ⟨_, read ⟨.whole, rfl⟩, ?_, afters ⟨.whole, rfl⟩ ▸ .here⟩
      rcases word ⟨.whole, rfl⟩ with kind | kind | kind <;> rw [kind] <;> decide
    rw [stands] at led
    refine ⟨.further ⟨_, read _, rfl, rfl⟩ inert ?_, ?_, ?_⟩
    · rw [afters]
      exact ended
    · rw [stands]
      exact ⟨before, by simp [place, tail, split], rfl⟩
    · rw [stands]
      exact isLate_of_nears split ⟨_, next, led, found, less⟩

section Parts

variable {lexed : ∀ run, Lexed (cursors run)} {kind : TokenKind}
  (twins : cut.Twins side stage cursors) (read : ∀ run, (cursors run).next = .ok (lexed run))
include twins read

theorem agree_literal (tokens : (cut.comparison side).Tokens stage kind lexed)
    (opens : kind.quote?.isSome = true) :
    (cut.comparison side).Agree ((cut.comparison side).Reads id)
      fun run => quoted (cursors run) := by
  obtain ⟨quote, isQuote⟩ := Option.isSome_iff_exists.1 opens
  have loud : kind.isInert = false := by cases kind <;> first | rfl | cases opens
  have quotes : ∀ run, (lexed run).token.kind.quote? = some quote := fun run => by
    rw [tokens.kinds, isQuote]
  cases stage with
  | together =>
    have fixed : Indexed.isVaried kind = false := by cases kind <;> first | rfl | cases opens
    obtain ⟨before, later, split, stands⟩ := exists_mark twins read tokens [quote] fixed
      fun entry listed same => (Indexed.quote_spelled entry listed quote (same ▸ isQuote)).1
    have rests : ∀ run, (lexed run).after.rest = later ++ cut.tail run.1 := fun run => by
      rw [(stands run).2]
      rfl
    refine agree_part split (fun run => (stands run).2) (fun run reading given inside => ?_)
      fun reading error given beyond failed => ?_
    · obtain ⟨close, found, -, size⟩ := find_of_quoted (read run) (quotes run) given
      rw [rests] at found
      obtain ⟨body, rest, rfl, finds⟩ := Quoted.find_of_short found
        (Nat.lt_of_le_of_lt inside (by omega))
      exact ⟨body ++ [quote], rest, .ofList (Quoted.decode body), by simp, fun run =>
        quoted_of_finds finds (read run) (quotes run) (rests run)⟩
    · obtain ⟨close, found, last, -⟩ := find_of_quoted (read _) (quotes _) given
      rw [(stands _).1, (stands _).2] at found
      have outcome := Indexed.quoted_eq (read ⟨.front, rfl⟩) (quotes ⟨.front, rfl⟩)
      split at outcome
      · rename_i missing
        cases outcome.symm.trans failed
        obtain rfl := Quoted.find_eq_error missing
        rw [(stands _).1]
        exact .inl (.quoted isQuote (opens_of_body split rfl ⟨close, found, last⟩ beyond))
      · obtain ⟨_, read, -⟩ := outcome
        cases read.symm.trans failed
  | apart =>
    refine agree_alone (fun run isWhole reading given => ?_) fun run isFront => ?_
    · have behind := opens_alone twins read run ((tokens.kinds run).symm ▸ loud)
      rw [isWhole] at behind
      obtain ⟨close, found, -, size⟩ := find_of_quoted (read _) (quotes _) given
      have within : close.size ≤ (lexed run).after.size := Quoted.size_find_le found
      omega
    · have behind := opens_alone twins read run ((tokens.kinds run).symm ▸ loud)
      rw [isFront] at behind
      have quote := quotes run
      rw [behind.1] at quote
      cases quote

theorem agree_verbatim (tokens : (cut.comparison side).Tokens stage .doubleLeftBracket lexed) :
    (cut.comparison side).Agree ((cut.comparison side).Reads id) fun run =>
      verbatim (lexed run).token.start (lexed run).after := by
  cases stage with
  | together =>
    obtain ⟨before, later, split, stands⟩ :=
      exists_mark twins read tokens ['[', '['] rfl (by decide)
    have rests : ∀ run, (lexed run).after.rest = later ++ cut.tail run.1 := fun run => by
      rw [(stands run).2]
      rfl
    refine agree_part split (fun run => (stands run).2) (fun run reading given inside => ?_)
      fun reading error given beyond failed => ?_
    · obtain ⟨passed, rest, value, whole, all⟩ := verbatim_of_short (rests run) given inside
      exact ⟨passed, rest, value, whole, fun run => all (rests run)⟩
    · rw [verbatim] at failed
      split at failed
      · cases failed
        rw [(stands _).1]
        exact .inl (.verbatim (opens_of_body split (stands ⟨.whole, rfl⟩).2
          ⟨reading, (stands _).1 ▸ given, rfl⟩ beyond))
      · cases failed
  | apart =>
    have loud := fun run => (show (lexed run).token.kind.isInert = false by rw [tokens.kinds]; rfl)
    refine agree_alone (fun run isWhole reading given => ?_) fun run isFront => ?_
    · have behind := opens_alone twins read run (loud run)
      rw [isWhole] at behind
      exact Nat.lt_of_le_of_lt (Nat.le_of_lt_succ reading.size_lt) behind
    · have behind := opens_alone twins read run (loud run)
      rw [isFront] at behind
      cases (tokens.kinds run).symm.trans behind.1

theorem agree_script (tokens : (cut.comparison side).Tokens stage kind lexed)
    (opens : kind = .leftBracket ∨ kind = .doubleLeftBracket) {body : Followed side stage → Cursor}
    (bodies : ∀ run, body run = scriptBody (lexed run)) :
    (cut.comparison side).Agree ((cut.comparison side).Reads scriptView) fun run =>
      script (lexed run).token.start (body run) := by
  have loud : ∀ run, (lexed run).token.kind.isInert = false := fun run => by
    rw [tokens.kinds]
    rcases opens with rfl | rfl <;> rfl
  cases stage with
  | together =>
    obtain ⟨before, later, split, stands⟩ := exists_bracket twins read tokens opens
    simp only [← bodies] at stands
    have rests : ∀ run, (body run).rest = later ++ cut.tail run.1 := fun run => by
      rw [(stands run).2]
      rfl
    refine agree_part split (fun run => (stands run).2) (fun run reading given inside => ?_)
      fun reading error given beyond failed => ?_
    · obtain ⟨close, found, size⟩ := find_of_script given
      rw [rests] at found
      obtain ⟨content, rest, rfl, finds⟩ := Extent.find_of_short found
        (Nat.lt_of_le_of_lt inside (by omega))
      exact ⟨content ++ [']'], rest, .ofList content, by simp, fun run =>
        script_of_finds finds (lexed run).token.start (rests run)⟩
    · have outcome := Indexed.script_eq (lexed ⟨.front, rfl⟩).token.start (body ⟨.front, rfl⟩)
      split at outcome
      · rename_i missing
        cases outcome.symm.trans failed
        rw [(stands _).1, (stands _).2] at missing
        exact .inl (isOpen_of_script split (stands ⟨.whole, rfl⟩).2 ((stands _).1 ▸ given) beyond
          (by rwa [place, tail, List.append_nil] at missing))
      · obtain ⟨_, read, -⟩ := outcome
        cases read.symm.trans failed
  | apart =>
    refine agree_alone (fun run isWhole reading given => ?_) fun run isFront => ?_
    · have behind := opens_alone twins read run (loud run)
      rw [isWhole] at behind
      have bodyLe : (body run).size ≤ (lexed run).after.size + 1 := by
        rw [bodies, scriptBody]
        split
        · exact Nat.le_refl _
        · exact Nat.le_succ _
      have := reading.size_lt
      have : (lexed run).after.size < cut.back.length := behind
      omega
    · have behind := opens_alone twins read run (loud run)
      rw [isFront] at behind
      obtain ⟨bracket, none, late⟩ := behind
      have outcome := Indexed.script_eq (lexed run).token.start (body run)
      have empty : (body run).rest = [] := by
        rw [bodies, scriptBody, if_neg (by rw [bracket]; decide), none]
      rw [empty] at outcome
      exact ⟨_, outcome, .inr late⟩

/-- Whether a blank follows a word shows in both sides, or one of them is followed alone from
there. -/
theorem agree_blank (tokens : (cut.comparison side).Tokens stage kind lexed)
    (word : kind = .call ∨ kind = .mode ∨ kind = .use) :
    ∃ (later : Stage) (kept : Followed side later → Followed side stage),
      (∀ run, (kept run).1 = run.1) ∧ cut.Twins side later (fun run => cursors (kept run)) ∧
      cut.Twins side later (fun run => (lexed (kept run)).after) ∧
      ∃ blank, ∀ run, followedByBlank (lexed (kept run)).after = blank := by
  have solid : kind ≠ .whitespace := by rcases word with rfl | rfl | rfl <;> nofun
  have after := tokens.after solid
  cases stage with
  | apart =>
    exact ⟨.apart, id, fun _ => rfl, twins, after, followedByBlank (lexed (own side)).after,
      fun run => by rw [eq_own run]; rfl⟩
  | together =>
    generalize places : (fun run => (lexed run).after) = behind at after
    cases twins with
    | together before rest split stands =>
      cases after with
      | together last later whole behind =>
        have afters : ∀ run, (lexed run).after = cut.place last later run.1 := fun run => by
          rw [← behind run, ← places]
        by_cases same : (lexeme (later ++ cut.back)).kind.isTrivia = (lexeme later).kind.isTrivia
        · refine ⟨.together, id, fun _ => rfl, .together before rest split stands,
            .together last later whole afters, (lexeme later).kind.isTrivia, fun run => ?_⟩
          rw [id, afters]
          cases run.1 with
          | whole => exact same
          | front => rw [followedByBlank, Cursor.token, place, tail, List.append_nil]
        · obtain ⟨⟨next, found, less⟩, ended⟩ := across_of_blank last same
          refine ⟨.apart, fun run => ⟨run.1, rfl⟩, fun _ => rfl, .apart fun run => ?_,
            .apart fun run => ?_, _, fun run => by rw [eq_own run]⟩
          · obtain rfl := eq_own run
            exact apart_of_word split stands read (fun run => (tokens.kinds run).symm ▸ word) afters
              ⟨next, found, less⟩ ended
          · obtain rfl := eq_own run
            rw [afters]
            exact apart_of_across whole ⟨next, found, less⟩ fun _ => ended

omit twins read in
/-- What is reported of both sides, or of the front alone. -/
theorem settled_of_reported {error : Followed side stage → ReadError}
    (reported : stage = .apart → side = .front → ∀ run, cut.IsReported (error run)) :
    cut.Settled side fun run => some (error run) := by
  cases stage with
  | together => exact .whole ⟨.whole, rfl⟩ rfl _ rfl
  | apart =>
    cases side with
    | whole => exact .whole (own .whole) rfl _ rfl
    | front => exact .front (own .front) rfl rfl _ rfl (reported rfl rfl _)

/-- A token that is refused in the front alone is late. -/
theorem settled_of_refused {fault : Followed side stage → Fault} :
    cut.Settled side fun run => some (.malformed (lexed run).token.start (fault run)) := by
  refine settled_of_reported fun isApart isFront run => .inr ?_
  subst isApart isFront
  cases twins with
  | apart apart =>
    obtain rfl := eq_own run
    obtain ⟨-, isIn, late⟩ := apart (own .front)
    obtain ⟨place, placeIn, start⟩ := (Indexed.taken_of_next isIn (read _)).start_isPlace
    exact late.mono (onset_of_next isIn (read _)) (start ▸ placeIn.offset_le)

end Parts

end Cut

end BranchText
