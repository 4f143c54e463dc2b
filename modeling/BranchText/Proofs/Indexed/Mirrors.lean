import BranchText.Indexed.Reader
import BranchText.Proofs.Indexed.Stream

/-!
# Readers that mirror readers

A reader by byte index mirrors one of cursors if it has a value from every stream that stands at the
cursor, and ends as the reader of cursors does: with the same value and standing at the cursor
behind, or with the same error, at a place of the source. There is one rule for each way in which
readers are put together; a token that was looked at stays the next one until it is taken.
-/

namespace BranchText

/-- The stream stands at a place of the source, and what it has looked at is the next token. -/
structure Lexer.At (lexer : Lexer) (source : List Char) (cursor : Cursor) : Prop where
  source_eq : lexer.source = source
  isIn : cursor.In source
  index_eq : lexer.index = cursor.offset
  ahead : ∀ token, lexer.ahead = some token →
    ∃ lexed, cursor.next = .ok lexed ∧ lexed.token = token

theorem Lexer.at_start (source : List Char) :
    (Lexer.start source).At source (Cursor.start source) :=
  ⟨rfl, Cursor.start_in source, rfl, fun _ looked => by cases looked⟩

/-- The value of a reading and the cursor behind it. -/
def Reading.view {α : Type} {limit : Nat} (reading : Reading α limit) : α × Cursor :=
  (reading.value, reading.rest)

namespace Indexed

variable {α β γ δ : Type} {source : List Char} {cursor : Cursor}

/-- From the cursor on, the reader by byte index ends as expected of the reader of cursors. What
that one gives is seen as a value and the cursor behind it. -/
def Mirrors (source : List Char) (part : Indexed α) (cursor : Cursor)
    (outcome : Except ReadError β) (view : β → α × Cursor) : Prop :=
  ∀ lexer : Lexer, lexer.At source cursor →
    Runs part lexer
      (fun value later => ∃ found, outcome = .ok found ∧ value = (view found).1 ∧
        later.At source (view found).2)
      (fun error => outcome = .error error ∧ Cursor.IsPlace source error.offset)

/-! ## Looking ahead -/

/-- Looking ahead gives the next token, and the stream stays where it is. -/
theorem runs_peek {lexer : Lexer} (stands : lexer.At source cursor) :
    Runs peek lexer
      (fun token later => later.At source cursor ∧
        ∃ lexed, cursor.next = .ok lexed ∧ lexed.token = token)
      (fun error => cursor.next = .error error ∧ Cursor.IsPlace source error.offset) := by
  unfold peek
  rw [runs_bind, runs_get]
  cases looked : lexer.ahead with
  | some token => exact ⟨stands, stands.ahead token looked⟩
  | none =>
    obtain rfl := stands.source_eq
    simp only [runs_bind, runs_here]
    rw [stands.index_eq]
    refine (runs_token stands.isIn).imp ?_ ?_
    · rintro token later ⟨rfl, lexed, read, rfl⟩
      rw [runs_modify]
      refine ⟨⟨rfl, stands.isIn, stands.index_eq, ?_⟩, lexed, read, rfl⟩
      rintro token ⟨⟩
      exact ⟨lexed, read, rfl⟩
    · exact fun error failed => failed

/-- Taking the next token leads behind it. -/
theorem runs_next {lexer : Lexer} (stands : lexer.At source cursor) :
    Runs next lexer
      (fun token later => ∃ lexed, cursor.next = .ok lexed ∧ lexed.token = token ∧
        later.At source lexed.after)
      (fun error => cursor.next = .error error ∧ Cursor.IsPlace source error.offset) := by
  unfold next
  rw [runs_bind]
  refine (runs_peek stands).imp ?_ fun error failed => failed
  rintro token later ⟨there, lexed, read, rfl⟩
  have taken := taken_of_next stands.isIn read
  obtain rfl := there.source_eq
  rw [runs_bind, taken.stop_eq, runs_jump taken.after_in, runs_pure]
  exact ⟨lexed, read, rfl, rfl, taken.after_in, rfl, fun _ looked => by cases looked⟩

namespace Mirrors

variable {part : Indexed α} {first : Except ReadError β} {view : β → α × Cursor}
  {outcome : Except ReadError δ} {goesOn : α → Indexed γ} {viewOn : δ → γ × Cursor}
  {lexed : Lexed cursor}

/-- The cursor of a stream is a place of the source. -/
theorem of_in (mirrors : cursor.In source → Mirrors source part cursor first view) :
    Mirrors source part cursor first view :=
  fun lexer stands => mirrors stands.isIn lexer stands

/-- The cursor behind what was read is a place of the source. -/
theorem rest_in {found : β} (mirrors : Mirrors source part cursor (.ok found) view)
    (isIn : cursor.In source) : (view found).2.In source := by
  have runs := mirrors ⟨source, cursor.offset, none⟩
    ⟨rfl, isIn, rfl, fun _ looked => by cases looked⟩
  unfold Runs at runs
  split at runs
  · obtain ⟨_, ⟨⟩, -, there⟩ := runs
    exact there.isIn
  · cases runs.1
  · exact runs.elim

/-! ## Ends -/

theorem pure {value : α} {found : β} (same : view found = (value, cursor)) :
    Mirrors source (pure value) cursor (.ok found) view := by
  intro lexer stands
  rw [runs_pure]
  refine ⟨found, rfl, ?_, ?_⟩
  · rw [same]
  · rw [same]
    exact stands

theorem throw {error : ReadError} (place : Cursor.IsPlace source error.offset) :
    Mirrors source (throw error) cursor (.error error) view :=
  fun _ _ => ⟨rfl, place⟩

/-! ## Parts -/

/-- A part, and what is read behind it. -/
theorem bind (mirrors : Mirrors source part cursor first view)
    (failed : ∀ error, first = .error error → outcome = .error error)
    (behind : ∀ found, first = .ok found →
      Mirrors source (goesOn (view found).1) (view found).2 outcome viewOn) :
    Mirrors source (part >>= goesOn) cursor outcome viewOn := by
  intro lexer stands
  rw [runs_bind]
  refine (mirrors lexer stands).imp ?_ ?_
  · rintro value later ⟨found, read, rfl, there⟩
    exact behind found read later there
  · rintro error ⟨read, place⟩
    exact ⟨failed error read, place⟩

/-- The last part, seen in another way. -/
theorem last {viewOn : δ → α × Cursor} (mirrors : Mirrors source part cursor first view)
    (failed : ∀ error, first = .error error → outcome = .error error)
    (ends : ∀ found, first = .ok found →
      ∃ result, outcome = .ok result ∧ viewOn result = view found) :
    Mirrors source part cursor outcome viewOn := by
  intro lexer stands
  refine (mirrors lexer stands).imp ?_ ?_
  · rintro value later ⟨found, read, rfl, there⟩
    obtain ⟨result, given, same⟩ := ends found read
    refine ⟨result, given, ?_, ?_⟩
    · rw [same]
    · rw [same]
      exact there
  · rintro error ⟨read, place⟩
    exact ⟨failed error read, place⟩

/-! ## Tokens -/

/-- A token that is looked at. -/
theorem peek {goesOn : Token → Indexed γ}
    (failed : ∀ error, cursor.next = .error error → outcome = .error error)
    (behind : ∀ lexed, cursor.next = .ok lexed → Taken source lexed.token lexed.after →
      Mirrors source (goesOn lexed.token) cursor outcome viewOn) :
    Mirrors source (Indexed.peek >>= goesOn) cursor outcome viewOn := by
  intro lexer stands
  rw [runs_bind]
  refine (runs_peek stands).imp ?_ ?_
  · rintro token later ⟨there, lexed, read, rfl⟩
    exact behind lexed read (taken_of_next stands.isIn read) later there
  · rintro error ⟨read, place⟩
    exact ⟨failed error read, place⟩

/-- A token that is taken. -/
theorem next {goesOn : Token → Indexed γ}
    (failed : ∀ error, cursor.next = .error error → outcome = .error error)
    (behind : ∀ lexed, cursor.next = .ok lexed → Taken source lexed.token lexed.after →
      Mirrors source (goesOn lexed.token) lexed.after outcome viewOn) :
    Mirrors source (Indexed.next >>= goesOn) cursor outcome viewOn := by
  intro lexer stands
  rw [runs_bind]
  refine (runs_next stands).imp ?_ ?_
  · rintro token later ⟨lexed, read, rfl, there⟩
    exact behind lexed read (taken_of_next stands.isIn read) later there
  · rintro error ⟨read, place⟩
    exact ⟨failed error read, place⟩

section Known

variable (read : cursor.next = .ok lexed)
include read

/-- A token that is known is looked at again. -/
theorem peekAgain {goesOn : Token → Indexed γ}
    (behind : Mirrors source (goesOn lexed.token) cursor outcome viewOn) :
    Mirrors source (Indexed.peek >>= goesOn) cursor outcome viewOn := by
  refine peek (fun error failed => ?_) fun other found _ => ?_
  · rw [read] at failed
    cases failed
  · rw [read] at found
    cases found
    exact behind

/-- A token that is known is taken. -/
theorem take {goesOn : Unit → Indexed γ}
    (behind : Mirrors source (goesOn ()) lexed.after outcome viewOn) :
    Mirrors source (discard Indexed.next >>= goesOn) cursor outcome viewOn := by
  intro lexer stands
  rw [runs_bind, runs_discard]
  refine (runs_next stands).imp ?_ ?_
  · rintro token later ⟨other, found, -, there⟩
    rw [read] at found
    cases found
    exact behind later there
  · rintro error ⟨failed, -⟩
    rw [read] at failed
    cases failed

/-- Whether a blank stands behind a token that is known. -/
theorem followedByBlank {goesOn : Bool → Indexed γ}
    (behind : Mirrors source (goesOn (Reader.followedByBlank lexed.after)) cursor outcome viewOn) :
    Mirrors source (Indexed.followedByBlank lexed.token >>= goesOn) cursor outcome viewOn := by
  intro lexer stands
  have taken := taken_of_next stands.isIn read
  obtain rfl := stands.source_eq
  unfold Indexed.followedByBlank
  rw [runs_bind, runs_bind, taken.stop_eq, runs_scan taken.after_in, runs_pure]
  exact behind lexer stands

end Known

/-! ## Places -/

/-- The index is the offset of the cursor. -/
theorem here {goesOn : Nat → Indexed γ}
    (behind : Mirrors source (goesOn cursor.offset) cursor outcome viewOn) :
    Mirrors source (Indexed.here >>= goesOn) cursor outcome viewOn := by
  intro lexer stands
  rw [runs_bind, runs_here, stands.index_eq]
  exact behind lexer stands

/-- A jump leads to the place that it is meant for. -/
theorem jump {target : Cursor} {goesOn : Unit → Indexed γ} (isIn : target.In source)
    (behind : Mirrors source (goesOn ()) target outcome viewOn) :
    Mirrors source (Indexed.jump target.offset >>= goesOn) cursor outcome viewOn := by
  intro lexer stands
  obtain rfl := stands.source_eq
  rw [runs_bind, runs_jump isIn]
  exact behind _ ⟨rfl, isIn, rfl, fun _ looked => by cases looked⟩

/-! ## Readers in steps -/

section Steps

variable {goOn : β → Except ReadError δ}

/-- Both readers go on behind a part. -/
theorem andThen (mirrors : Mirrors source part cursor first view)
    (behind : ∀ found, first = .ok found →
      Mirrors source (goesOn (view found).1) (view found).2 (goOn found) viewOn) :
    Mirrors source (part >>= goesOn) cursor (first >>= goOn) viewOn := by
  refine mirrors.bind (fun error failed => ?_) fun found read => ?_
  · rw [failed]
    rfl
  · rw [read]
    exact behind found read

/-- Both readers go on behind a reading. -/
theorem andRead {limit : Nat} {first : Except ReadError (Reading α limit)}
    {goOn : Reading α limit → Except ReadError δ}
    (mirrors : Mirrors source part cursor first Reading.view)
    (behind : ∀ found, first = .ok found →
      Mirrors source (goesOn found.value) found.rest (goOn found) viewOn) :
    Mirrors source (part >>= goesOn) cursor (first >>= goOn) viewOn :=
  mirrors.andThen behind

/-- Both readers end behind a part. -/
theorem lastly {viewOn : δ → α × Cursor} {wrap : β → δ}
    (mirrors : Mirrors source part cursor first view)
    (same : ∀ found, viewOn (wrap found) = view found) :
    Mirrors source part cursor (first >>= fun found => Pure.pure (wrap found)) viewOn := by
  refine mirrors.last (fun error failed => ?_) fun found read => ⟨wrap found, ?_, same found⟩
  · rw [failed]
    rfl
  · rw [read]
    rfl

/-- Both readers go on with a result, or fail with its error. -/
theorem checkThen {result : Except ReadError α} {goOn : α → Except ReadError δ}
    (place : ∀ error, result = .error error → Cursor.IsPlace source error.offset)
    (behind : ∀ value, result = .ok value →
      Mirrors source (goesOn value) cursor (goOn value) viewOn) :
    Mirrors source (Indexed.check result >>= goesOn) cursor (result >>= goOn) viewOn := by
  cases result with
  | error error => exact fun lexer stands => ⟨rfl, place error rfl⟩
  | ok value => exact behind value rfl

variable {goesOn : Token → Indexed γ} {goOn : Lexed cursor → Except ReadError δ}

/-- Both readers look at the next token. -/
theorem peekThen
    (behind : ∀ lexed, cursor.next = .ok lexed → Taken source lexed.token lexed.after →
      Mirrors source (goesOn lexed.token) cursor (goOn lexed) viewOn) :
    Mirrors source (Indexed.peek >>= goesOn) cursor (cursor.next >>= goOn) viewOn := by
  refine .peek (fun error failed => ?_) fun lexed read taken => ?_
  · rw [failed]
    rfl
  · rw [read]
    exact behind lexed read taken

/-- Both readers take the next token. -/
theorem nextThen
    (behind : ∀ lexed, cursor.next = .ok lexed → Taken source lexed.token lexed.after →
      Mirrors source (goesOn lexed.token) lexed.after (goOn lexed) viewOn) :
    Mirrors source (Indexed.next >>= goesOn) cursor (cursor.next >>= goOn) viewOn := by
  refine .next (fun error failed => ?_) fun lexed read taken => ?_
  · rw [failed]
    rfl
  · rw [read]
    exact behind lexed read taken

end Steps

end Mirrors

end Indexed

end BranchText
