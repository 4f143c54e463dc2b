import BranchText.Document.Reader
import BranchText.Proofs.Document.Spanless
import Mathlib.Data.Set.Finite.Lattice

/-!
# Comparisons

Related texts are read side by side. A `Comparison` says which readings are followed at which stage,
when their cursors stand at the same place, and which errors settle what the comparison is about.
The readings need not stay together: at a later stage some of them may be followed no longer.

`Agree` is the judgement on a reader that is applied in all readings: what it gives either settles
the comparison, or is a value in those readings that are followed on, with the values alike.
-/

namespace BranchText

/-- The error of an outcome that is one. -/
def failure? {α : Type} : Except ReadError α → Option ReadError
  | .error error => some error
  | .ok _ => none

namespace Cursor

/-- Only blanks, line breaks and comments stand between two places. -/
inductive Trails : Cursor → Cursor → Prop
  | here {cursor : Cursor} : Trails cursor cursor
  | further {cursor last : Cursor} {lexed : Lexed cursor} (read : cursor.next = .ok lexed)
    (trivia : lexed.token.kind.isTrivia = true) (behind : Trails lexed.after last) :
    Trails cursor last

/-- As `Trails`, but one word of the given kinds may stand in front. -/
def Leads (words : List TokenKind) (cursor last : Cursor) : Prop :=
  cursor.Trails last ∨ ∃ lexed, cursor.next = .ok lexed ∧ lexed.token.kind ∈ words ∧
    lexed.after.Trails last

variable {words : List TokenKind} {cursor middle last : Cursor}

theorem Trails.trans (first : cursor.Trails middle) (second : middle.Trails last) :
    cursor.Trails last := by
  induction first with
  | here => exact second
  | further read trivia _ ih => exact .further read trivia (ih second)

theorem Leads.here : cursor.Leads words cursor := .inl .here

theorem Leads.trans (first : cursor.Leads words middle) (second : middle.Trails last) :
    cursor.Leads words last := by
  rcases first with trails | ⟨lexed, read, word, trails⟩
  · exact .inl (trails.trans second)
  · exact .inr ⟨lexed, read, word, trails.trans second⟩

end Cursor

/-- Readings of related texts. -/
structure Comparison where
  /-- How far the readings have got. -/
  Stage : Type
  /-- The readings that are followed at a stage. -/
  Run : Stage → Type
  followed (stage : Stage) : Nonempty (Run stage)
  finite (stage : Stage) : Finite (Run stage)
  /-- The cursors stand at the same place. -/
  Twins (stage : Stage) : (Run stage → Cursor) → Prop
  /-- What is followed at a later stage was followed at an earlier one. -/
  Later (stage later : Stage) : (Run later → Run stage) → Prop
  /-- These errors settle the comparison, whatever comes of the readings without one. -/
  Settled (stage : Stage) : (Run stage → Option ReadError) → Prop
  /-- Something that is closed at the same place stands just before the cursors. -/
  Closed (stage : Stage) : (Run stage → Cursor) → Prop
  /-- The block whose brace stands at the offsets may be reported to be open. -/
  OpenBrace (stage : Stage) : (Run stage → Nat) → Prop
  /-- The text whose parenthesis stands at the offsets may be reported to be open. -/
  OpenParen (stage : Stage) : (Run stage → Nat) → Prop
  later_refl (stage : Stage) : Later stage stage id
  later_trans {stage later last : Stage} {kept : Run later → Run stage}
    {further : Run last → Run later} :
    Later stage later kept → Later later last further → Later stage last (kept ∘ further)
  settled_of_later {stage later : Stage} {kept : Run later → Run stage}
    {errors : Run stage → Option ReadError} :
    Later stage later kept → Settled later (errors ∘ kept) → Settled stage errors
  settled_of_more {stage : Stage} {errors more : Run stage → Option ReadError} :
    Settled stage errors → (∀ run error, errors run = some error → more run = some error) →
      Settled stage more
  openBrace_of_later {stage later : Stage} {kept : Run later → Run stage}
    {opening : Run stage → Nat} :
    Later stage later kept → OpenBrace stage opening → OpenBrace later (opening ∘ kept)
  openParen_of_later {stage later : Stage} {kept : Run later → Run stage}
    {opening : Run stage → Nat} :
    Later stage later kept → OpenParen stage opening → OpenParen later (opening ∘ kept)

namespace Comparison

variable (C : Comparison)

/-- What is left to read is bounded. -/
theorem exists_limit {stage : C.Stage} (size : C.Run stage → Nat) :
    ∃ limit, ∀ run, size run < limit := by
  have := C.finite stage
  obtain ⟨limit, bounded⟩ := (Set.finite_range size).bddAbove
  exact ⟨limit + 1, fun run => Nat.lt_succ_of_le (bounded ⟨run, rfl⟩)⟩

/-- What is said of values at a later stage. -/
abbrev Likeness {stage : C.Stage} (Value : C.Run stage → Type) : Type :=
  ∀ (later : C.Stage) (kept : C.Run later → C.Run stage), (∀ run, Value (kept run)) → Prop

/-- The outcomes settle the comparison, or are values that are alike as far as they are followed
on. -/
inductive Agree {stage : C.Stage} {Value : C.Run stage → Type} (alike : C.Likeness Value)
    (outcome : ∀ run, Except ReadError (Value run)) : Prop
  | settled (done : C.Settled stage fun run => failure? (outcome run))
  | values (later : C.Stage) (kept : C.Run later → C.Run stage) (moves : C.Later stage later kept)
    (value : ∀ run, Value (kept run)) (given : ∀ run, outcome (kept run) = .ok (value run))
    (same : alike later kept value)

namespace Agree

variable {C} {stage : C.Stage} {Value Further : C.Run stage → Type} {alike : C.Likeness Value}
  {same : C.Likeness Further} {outcome other : ∀ run, Except ReadError (Value run)}

/-- Values in all readings that are followed. -/
theorem here (value : ∀ run, Value run) (given : ∀ run, outcome run = .ok (value run))
    (same : alike stage id value) : C.Agree alike outcome :=
  .values stage id (C.later_refl stage) value given same

theorem pure {value : ∀ run, Value run} (same : alike stage id value) :
    C.Agree alike fun run => .ok (value run) := here value (fun _ => rfl) same

theorem of_eq (equal : ∀ run, outcome run = other run) (agree : C.Agree alike other) :
    C.Agree alike outcome := by
  rwa [funext equal]

/-- Outcomes that go on from others: what fails in front fails altogether. -/
theorem follow {whole : ∀ run, Except ReadError (Further run)} (agree : C.Agree alike outcome)
    (failed : ∀ run error, outcome run = .error error → whole run = .error error)
    (goOn : ∀ later (kept : C.Run later → C.Run stage) (value : ∀ run, Value (kept run)),
      C.Later stage later kept → (∀ run, outcome (kept run) = .ok (value run)) →
      alike later kept value →
      C.Agree (fun last further => same last (kept ∘ further)) fun run => whole (kept run)) :
    C.Agree same whole := by
  cases agree with
  | settled done =>
    refine .settled (C.settled_of_more done fun run error fails => ?_)
    cases here : outcome run with
    | error other =>
      rw [here] at fails
      cases fails
      rw [failed run _ here]
      rfl
    | ok value =>
      rw [here] at fails
      cases fails
  | values later kept moves value given here =>
    cases goOn later kept value moves given here with
    | settled done => exact .settled (C.settled_of_later moves done)
    | values last further moves' value' given' here' =>
      exact .values last (kept ∘ further) (C.later_trans moves moves') value' given' here'

/-- Parts that follow one another. -/
theorem bind {next : ∀ run, Value run → Except ReadError (Further run)}
    (agree : C.Agree alike outcome)
    (goOn : ∀ later (kept : C.Run later → C.Run stage) (value : ∀ run, Value (kept run)),
      C.Later stage later kept → (∀ run, outcome (kept run) = .ok (value run)) →
      alike later kept value →
      C.Agree (fun last further => same last (kept ∘ further))
        fun run => next (kept run) (value run)) :
    C.Agree same fun run => outcome run >>= next run := by
  refine agree.follow (fun run error fails => by rw [fails]; rfl)
    fun later kept value moves given here => ?_
  exact .of_eq (fun run => by rw [given]; rfl) (goOn later kept value moves given here)

/-- A value that is known has been read. -/
theorem okThen {value : ∀ run, Value run} {next : ∀ run, Value run → Except ReadError (Further run)}
    (agree : C.Agree same fun run => next run (value run)) :
    C.Agree same fun run => .ok (value run) >>= next run := agree

/-- What is shown of the readings that are still followed later. -/
theorem of_later {later : C.Stage} {kept : C.Run later → C.Run stage}
    (moves : C.Later stage later kept)
    (agree : C.Agree (fun last further => alike last (kept ∘ further)) fun run =>
      outcome (kept run)) : C.Agree alike outcome := by
  cases agree with
  | settled done => exact .settled (C.settled_of_later moves done)
  | values last further moves' value given here =>
    exact .values last (kept ∘ further) (C.later_trans moves moves') value given here

/-- What is said of values can be weakened. -/
theorem imp {weaker : C.Likeness Value} (agree : C.Agree alike outcome)
    (weak : ∀ later kept value, C.Later stage later kept →
      (∀ run, outcome (kept run) = .ok (value run)) → alike later kept value →
      weaker later kept value) : C.Agree weaker outcome := by
  cases agree with
  | settled done => exact .settled done
  | values later kept moves value given here =>
    exact .values later kept moves value given (weak later kept value moves given here)

/-- Outcomes of the same decision. -/
theorem ite {p : C.Run stage → Prop} [∀ run, Decidable (p run)] {q : Prop} (same : ∀ run, p run ↔ q)
    (yes : q → C.Agree alike outcome) (no : ¬ q → C.Agree alike other) :
    C.Agree alike fun run => if p run then outcome run else other run := by
  by_cases holds : q
  · simpa only [if_pos ((same _).2 holds)] using yes holds
  · simpa only [if_neg (mt (same _).1 holds)] using no holds

theorem dite {p : C.Run stage → Prop} [∀ run, Decidable (p run)] {q : Prop}
    {first : ∀ run, p run → Except ReadError (Value run)}
    {second : ∀ run, ¬ p run → Except ReadError (Value run)} (same : ∀ run, p run ↔ q)
    (yes : ∀ holds : (∀ run, p run), q → C.Agree alike fun run => first run (holds run))
    (no : ∀ fails : (∀ run, ¬ p run), ¬ q → C.Agree alike fun run => second run (fails run)) :
    C.Agree alike fun run => if holds : p run then first run holds else second run holds := by
  by_cases holds : q
  · have all : ∀ run, p run := fun run => (same run).2 holds
    simpa only [dif_pos (all _)] using yes all holds
  · have none : ∀ run, ¬ p run := fun run => mt (same run).1 holds
    simpa only [dif_neg (none _)] using no none holds

end Agree

end Comparison

end BranchText
