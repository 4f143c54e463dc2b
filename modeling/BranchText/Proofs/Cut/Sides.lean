import BranchText.Proofs.Compared.Grammar
import BranchText.Proofs.Cut.Open
import BranchText.Proofs.Reading.Written

/-!
# A source and its front, token by token

The comparison of a source with the text in front of a cut in it. Up to the last token in front of
the cut both are read alike. Behind it, one side is followed: the source, which has passed the cut,
or its front, which ends there.
-/

namespace BranchText

namespace Cut

instance : Finite Side :=
  .of_injective (fun side => match side with
    | .whole => true
    | .front => false) fun first second => by cases first <;> cases second <;> simp

/-- How far the two sides have been read. -/
inductive Stage where
  | together
  | apart

/-- Whether a side is followed at a stage, if one of them is followed to its end. -/
def Stage.follows (side : Side) : Stage → Side → Bool
  | .together, _ => true
  | .apart, other => other = side

/-- The sides that are followed at a stage, as a type. -/
abbrev Followed (side : Side) (stage : Stage) : Type :=
  { other : Side // stage.follows side other = true }

/-- The side that is followed alone. -/
def own (side : Side) : Followed side .apart := ⟨side, decide_eq_true rfl⟩

theorem eq_own {side : Side} (run : Followed side .apart) : run = own side :=
  Subtype.ext (of_decide_eq_true run.2)

/-- The source is read behind the cut, or nothing opens or closes before it is. -/
inductive Passed (count : Nat) : Cursor → Prop
  | beyond {cursor : Cursor} (less : cursor.size < count) : Passed count cursor
  | across {cursor : Cursor} {lexed : Lexed cursor} (read : cursor.next = .ok lexed)
    (less : lexed.after.size < count) : Passed count cursor
  | further {cursor : Cursor} {lexed : Lexed cursor} (read : cursor.next = .ok lexed)
    (inert : lexed.token.kind.isInert = true) (behind : Passed count lexed.after) :
    Passed count cursor

variable (cut : Cut)

/-- Where a side is that is followed alone. -/
def Apart : Side → Cursor → Prop
  | .whole, cursor => Passed cut.back.length cursor
  | .front, cursor => cursor.Ended ∧ cursor.In cut.front ∧ cut.IsLate cursor.offset

/-- The sides have been read up to the same place, or one of them beyond the last token in front of
the cut. -/
inductive Twins (side : Side) : (stage : Stage) → (Followed side stage → Cursor) → Prop
  | together {cursors : Followed side .together → Cursor} (before after : List Char)
    (split : before ++ after = cut.front) (stands : ∀ run, cursors run =
      cut.place before after run.1) : Twins side .together cursors
  | apart {cursors : Followed side .apart → Cursor} (apart : ∀ run, cut.Apart run.1 (cursors run)) :
    Twins side .apart cursors

/-- The source cannot be read, or its front is followed and something is reported of it. -/
inductive Settled (side : Side) {stage : Stage} (errors : Followed side stage → Option ReadError) :
    Prop
  | whole (run : Followed side stage) (isWhole : run.1 = .whole) (error : ReadError)
    (fails : errors run = some error) : Settled side errors
  | front (run : Followed side stage) (isFront : run.1 = .front) (followed : side = .front)
    (error : ReadError) (fails : errors run = some error) (reported : cut.IsReported error) :
    Settled side errors

/-- What is closed just before the cursors is closed in both sides. -/
def Closed (side : Side) (stage : Stage) (cursors : Followed side stage → Cursor) : Prop :=
  stage = .together ∨ ∀ run, run.1 = .whole ∧ (cursors run).size < cut.back.length

/-- A source and its front, read side by side, with one of them followed to its end. -/
abbrev comparison (side : Side) : Comparison where
  Stage := Stage
  Run := Followed side
  followed stage := by
    cases stage with
    | together => exact ⟨.whole, rfl⟩
    | apart => exact ⟨own side⟩
  finite _ := inferInstance
  Twins _ := cut.Twins side _
  Later _ _ kept := ∀ run, (kept run).1 = run.1
  Settled _ := cut.Settled side
  Closed := cut.Closed side
  OpenBrace _ opening := side = .front → ∀ run, cut.IsOpen (.malformed (opening run) .unclosedBrace)
  OpenParen _ opening := side = .front → ∀ run, cut.IsOpen (.malformed (opening run) .unclosedParen)
  later_refl _ _ := rfl
  later_trans first second run := (first _).trans (second run)
  settled_of_later moves settled := by
    cases settled with
    | whole run isWhole error fails => exact .whole _ ((moves run).trans isWhole) error fails
    | front run isFront followed error fails reported =>
      exact .front _ ((moves run).trans isFront) followed error fails reported
  settled_of_more settled more := by
    cases settled with
    | whole run isWhole error fails => exact .whole run isWhole error (more run error fails)
    | front run isFront followed error fails reported =>
      exact .front run isFront followed error (more run error fails) reported
  openBrace_of_later _ isOpen followed _ := isOpen followed _
  openParen_of_later _ isOpen followed _ := isOpen followed _

/-! ## Sides that are followed alone -/

section Alone

variable {cut} {count : Nat} {cursor last : Cursor} {lexed : Lexed cursor}

theorem isInert_of_isTrivia {kind : TokenKind} (trivia : kind.isTrivia = true) :
    kind.isInert = true := by
  cases kind <;> first | rfl | cases trivia

theorem Passed.step (passed : Passed count cursor) (read : cursor.next = .ok lexed) :
    Passed count lexed.after ∧
      (lexed.token.kind.isInert = false → lexed.after.size < count) := by
  cases passed with
  | beyond less =>
    have behind := Nat.lt_of_le_of_lt lexed.size_le less
    exact ⟨.beyond behind, fun _ => behind⟩
  | across given less =>
    cases given.symm.trans read
    exact ⟨.beyond less, fun _ => less⟩
  | further given inert behind =>
    cases given.symm.trans read
    exact ⟨behind, fun loud => by rw [inert] at loud; cases loud⟩

theorem Passed.of_trails (trails : cursor.Trails last) (passed : Passed count last) :
    Passed count cursor := by
  induction trails with
  | here => exact passed
  | further read trivia _ ih => exact .further read (isInert_of_isTrivia trivia) (ih passed)

theorem Passed.of_leads (leads : cursor.Leads [.eval] last) (passed : Passed count last) :
    Passed count cursor := by
  rcases leads with trails | ⟨lexed, read, word, trails⟩
  · exact .of_trails trails passed
  · exact .further read (by rw [List.mem_singleton.1 word]; rfl) (.of_trails trails passed)

end Alone

end Cut

namespace Cursor

variable {cursor last : Cursor}

theorem Ended.step (ended : cursor.Ended) : ∃ token after, cursor.Takes token after ∧ after.Ended ∧
    (token.kind.isInert = true ∨ token.kind = .leftBracket ∧ after.rest = []) := by
  cases ended with
  | here none =>
    refine ⟨_, _, takes_end none, .here none, .inl ?_⟩
    rw [token, none]
    rfl
  | bracket takes opens none => exact ⟨_, _, takes, .here none, .inr ⟨opens, none⟩⟩
  | further takes inert behind => exact ⟨_, _, takes, behind, .inl inert⟩

theorem Ended.of_trails (trails : cursor.Trails last) (ended : last.Ended) : cursor.Ended := by
  induction trails with
  | here => exact ended
  | further read trivia _ ih =>
    exact .further ⟨_, read, rfl, rfl⟩ (Cut.isInert_of_isTrivia trivia) (ih ended)

theorem Ended.of_leads (leads : cursor.Leads [.eval] last) (ended : last.Ended) :
    cursor.Ended := by
  rcases leads with trails | ⟨lexed, read, word, trails⟩
  · exact .of_trails trails ended
  · exact .further ⟨lexed, read, rfl, rfl⟩ (by rw [List.mem_singleton.1 word]; rfl)
      (.of_trails trails ended)

end Cursor

namespace Cut

open Comparison Reader

variable {cut : Cut} {side : Side} {stage : Stage} {cursors : Followed side stage → Cursor}

/-! ## Tokens -/

theorem isInert_of_closes {kind : TokenKind} (closes : kind.closes = true) :
    kind.isInert = false := by
  cases kind <;> first | rfl | cases closes

/-- A token that the sides take that are followed on is met. -/
theorem agree_takes {later : Stage} (kept : Followed side later → Followed side stage)
    (moves : ∀ run, (kept run).1 = run.1) {token : Token} {behind : Followed side later → Cursor}
    (takes : ∀ run, (cursors (kept run)).Takes token (behind run))
    (after : cut.Twins side later behind)
    (closed : token.kind.closes = true → cut.Closed side later behind)
    (keeps : (cut.comparison side).Keeps kept cursors) :
    (cut.comparison side).Agree (Meeting cursors) fun run => (cursors run).next := by
  choose lexed read isToken isAfter using takes
  have afters : (fun run => (lexed run).after) = behind := funext isAfter
  have ends : cut.Twins side later fun run => (lexed run).after := afters ▸ after
  have texts : ∀ run, (lexed run).token.text = token.text := fun run => by rw [isToken]
  exact .values later kept moves lexed read ⟨⟨⟨token.kind, fun run => by rw [isToken],
    fun _ => ⟨_, texts⟩, fun _ => ends, fun closes => afters ▸ closed closes⟩, ⟨_, texts⟩, ends⟩,
    keeps⟩

/-- A side that is followed alone meets tokens up to its end. -/
theorem agree_apart (kept : Followed side .apart → Followed side stage)
    (moves : ∀ run, (kept run).1 = run.1) (apart : ∀ run, cut.Apart run.1 (cursors (kept run)))
    (keeps : (cut.comparison side).Keeps kept cursors) :
    (cut.comparison side).Agree (Meeting cursors) fun run => (cursors run).next := by
  have here := apart (own side)
  cases side with
  | whole =>
    cases next : (cursors (kept (own .whole))).next with
    | error error =>
      refine .settled (.whole _ (moves (own .whole)) error ?_)
      rw [next]
      rfl
    | ok lexed =>
      obtain ⟨passed, beyond⟩ := Passed.step here next
      have takes : ∀ run, (cursors (kept run)).Takes lexed.token lexed.after := fun run => by
        rw [eq_own run]
        exact ⟨lexed, next, rfl, rfl⟩
      refine agree_takes kept moves takes (.apart fun run => ?_) (fun closes => .inr fun run => ?_)
        keeps
      · rw [eq_own run]
        exact passed
      · rw [eq_own run]
        exact ⟨rfl, beyond (isInert_of_closes closes)⟩
  | front =>
    obtain ⟨ended, isIn, late⟩ := here
    obtain ⟨token, after, takes, ended, inert⟩ := ended.step
    obtain ⟨lexed, read, rfl, rfl⟩ := takes
    have afterIn := (Indexed.taken_of_next isIn read).after_in
    have takes : ∀ run, (cursors (kept run)).Takes lexed.token lexed.after := fun run => by
      rw [eq_own run]
      exact ⟨lexed, read, rfl, rfl⟩
    refine agree_takes kept moves takes (.apart fun run => ?_) (fun closes => ?_) keeps
    · rw [eq_own run]
      refine ⟨ended, afterIn, late.mono (Cursor.In.forward isIn afterIn lexed.size_le) ?_⟩
      have := afterIn.stop_eq
      omega
    · rcases inert with inert | ⟨bracket, -⟩
      · rw [isInert_of_closes closes] at inert
        cases inert
      · rw [bracket] at closes
        cases closes

/-- Where a token of the source ends behind the cut, one side is followed alone. -/
theorem keeps_across {cursors : Followed side .together → Cursor}
    (kept : Followed side .apart → Followed side .together) (moves : ∀ run, (kept run).1 = run.1)
    (apart : ∀ run, cut.Apart run.1 (cursors (kept run)))
    (across : ∃ lexed, (cursors ⟨.whole, rfl⟩).next = .ok lexed ∧
      lexed.after.size < cut.back.length) :
    (cut.comparison side).Keeps kept cursors := by
  intro olds twins leads
  obtain ⟨lexed, read, less⟩ := across
  cases twins with
  | together before after split stands =>
    refine .apart fun run => ?_
    have isKept := moves run
    have here := apart run
    cases same : run.1 with
    | whole =>
      rw [same] at here
      exact Passed.of_leads (leads (kept run)) here
    | front =>
      rw [same] at here isKept
      refine ⟨.of_leads (leads (kept run)) here.1, ?_, ?_⟩
      · rw [stands, isKept]
        exact ⟨before, by rw [place, tail, List.append_nil, split], rfl⟩
      · rw [stands, place]
        refine isLate_of_nears split ⟨_, lexed, ?_, read, less⟩
        rw [← stands ⟨.whole, rfl⟩]
        refine (leads ⟨.whole, rfl⟩).imp_right ?_
        rintro ⟨word, next, isEval, trails⟩
        refine ⟨word, next, ?_, trails⟩
        rw [List.mem_singleton.1 isEval]
        decide

/-- In front of a token of the source that ends behind the cut, any side may be followed alone. -/
theorem apart_of_across {before after : List Char} (split : before ++ after = cut.front)
    (across : ∃ lexed, (cut.place before after .whole).next = .ok lexed ∧
      lexed.after.size < cut.back.length)
    (ended : side = .front → (cut.place before after .front).Ended) :
    cut.Apart side (cut.place before after side) := by
  obtain ⟨lexed, next, less⟩ := across
  cases side with
  | whole => exact .across next less
  | front =>
    refine ⟨ended rfl, ⟨before, ?_, rfl⟩, isLate_of_nears split ⟨_, lexed, .here, next, less⟩⟩
    rw [place, tail, List.append_nil, split]

section Together

variable {cursors : Followed side .together → Cursor} {before after : List Char}
  (split : before ++ after = cut.front) (stands : ∀ run, cursors run = cut.place before after run.1)
include split stands

/-- In front of a token of the source that ends behind the cut, one side is followed alone. -/
theorem agree_across
    (beyond : ∀ lexed, (cut.place before after .whole).next = .ok lexed →
      lexed.after.size < cut.back.length)
    (ended : side = .front → (cut.place before after .front).Ended) :
    (cut.comparison side).Agree (Meeting cursors) fun run => (cursors run).next := by
  cases next : (cut.place before after .whole).next with
  | error error =>
    refine .settled (.whole ⟨.whole, rfl⟩ rfl error ?_)
    rw [stands, next]
    rfl
  | ok lexed =>
    have across : ∃ lexed, (cut.place before after .whole).next = .ok lexed ∧
        lexed.after.size < cut.back.length := ⟨lexed, next, beyond lexed next⟩
    let kept : Followed side .apart → Followed side .together := fun run => ⟨run.1, rfl⟩
    have apart : ∀ run, cut.Apart run.1 (cursors (kept run)) := fun run => by
      obtain rfl := eq_own run
      rw [stands]
      exact apart_of_across split across ended
    rw [← stands ⟨.whole, rfl⟩] at across
    exact agree_apart kept (fun _ => rfl) apart (keeps_across kept (fun _ => rfl) apart across)

/-- In front of a comment that is open at the cut, the front cannot be read. -/
theorem agree_comment {later : List Char} (same : after = '/' :: '*' :: later)
    (beyond : ∀ length, lengthOfBlockComment? (later ++ cut.back) = some length →
      later.length < length) :
    (cut.comparison side).Agree (Meeting cursors) fun run => (cursors run).next := by
  subst same
  cases side with
  | whole =>
    refine agree_across split stands (fun lexed read => ?_) nofun
    obtain ⟨_, -, -, less⟩ := next_whole_comment beyond read
    exact less
  | front =>
    cases next : (cut.place before ('/' :: '*' :: later) .whole).next with
    | error error =>
      refine .settled (.whole ⟨.whole, rfl⟩ rfl error ?_)
      rw [stands, next]
      rfl
    | ok lexed =>
      obtain ⟨length, closes, after, less⟩ := next_whole_comment beyond next
      refine .settled (.front ⟨.front, rfl⟩ rfl rfl
        (.malformed (byteLength before) .unclosedComment) ?_ (.inl (.comment ?_)))
      · rw [stands, next_front_comment beyond]
        rfl
      · exact ⟨before, later, _, by simp [← split], rfl, ⟨length, closes, rfl⟩, after ▸ less⟩

end Together

/-- The sides meet the same token, or one of them is followed alone from here. -/
theorem agree_token (twins : cut.Twins side stage cursors) :
    (cut.comparison side).Agree (Meeting cursors) fun run => (cursors run).next := by
  cases twins with
  | apart apart => exact agree_apart id (fun _ => rfl) apart fun _ twins _ => twins
  | together before after split stands =>
    rename_i cursors
    cases reaches cut before after with
    | token token passed later whole takes =>
      have takes : ∀ run, (cursors run).Takes token (cut.place (before ++ passed) later run.1) :=
        fun run => stands run ▸ takes run.1
      refine agree_takes id (fun _ => rfl) takes (.together _ _ ?_ fun _ => rfl)
        (fun _ => .inl rfl) fun _ twins _ => twins
      rw [List.append_assoc, ← whole, split]
    | across beyond ended => exact agree_across split stands beyond fun _ => ended
    | comment later same beyond => exact agree_comment split stands same beyond

theorem agree_next (twins : cut.Twins side stage cursors) :
    (cut.comparison side).Agree (fun later kept lexed =>
      (∃ kind, (cut.comparison side).Tokens later kind lexed) ∧
        (cut.comparison side).Keeps kept cursors) fun run => (cursors run).next :=
  (agree_token twins).imp fun _ _ _ _ _ met => ⟨met.1.tokens, met.2⟩

theorem agree_gap (twins : cut.Twins side stage cursors) :
    (cut.comparison side).Agree ((cut.comparison side).Peeks id cursors)
      fun run => gap (cursors run) :=
  agree_gap_of_step (fun twins => .inr (agree_token twins)) twins

end Cut

end BranchText
