import BranchText.Token.Stream

/-!
# Lookahead

A stream is worked with step by step: it looks at the next token, takes it, or jumps. What it keeps
of a look is the token that stands at its index (`IsSound`), so that it behaves like the stream that
has forgotten the look. A whole run without its looks is therefore the same run
(`history_without_looks`).
-/

namespace BranchText

namespace Lexer

/-- A step of work with a stream. -/
inductive Step where
  | peek
  | next
  | override (index : Nat)
  deriving Repr, DecidableEq

/-- Whether the step only looks. -/
def Step.isLook : Step → Bool
  | .peek => true
  | _ => false

/-- The answer to a step, and the stream after it. Only a jump has no answer. -/
def work (lexer : Lexer) : Step → Option (Except ReadError Token) × Lexer
  | .peek => (some lexer.peek.1, lexer.peek.2)
  | .next => (some lexer.next.1, lexer.next.2)
  | .override index => (none, lexer.override index)

/-- What is seen of a step: its answer, and the index after it. -/
structure Seen where
  step : Step
  answer : Option (Except ReadError Token)
  index : Nat

/-- What is seen of a run. -/
def history (lexer : Lexer) : List Step → List Seen
  | [] => []
  | step :: rest =>
    let (answer, later) := lexer.work step
    ⟨step, answer, later.index⟩ :: later.history rest

/-- The stream after a run. -/
def after (lexer : Lexer) : List Step → Lexer
  | [] => lexer
  | step :: rest => (lexer.work step).2.after rest

/-- The run without the steps that only look. -/
def withoutLooks (steps : List Step) : List Step := steps.filter (!·.isLook)

theorem withoutLooks_look {step : Step} {rest : List Step} (looks : step.isLook = true) :
    withoutLooks (step :: rest) = withoutLooks rest := by
  simp [withoutLooks, looks]

theorem withoutLooks_act {step : Step} {rest : List Step} (acts : step.isLook = false) :
    withoutLooks (step :: rest) = step :: withoutLooks rest := by
  simp [withoutLooks, acts]

/-- The stream that has looked at nothing. -/
def forget (lexer : Lexer) : Lexer := { lexer with ahead := none }

/-- What was looked at stands at the index. -/
def IsSound (lexer : Lexer) : Prop :=
  ∀ token, lexer.ahead = some token → read lexer.source lexer.index = .ok token

variable {lexer : Lexer}

theorem isSound_of_ahead (nothing : lexer.ahead = none) : lexer.IsSound := by
  intro token looked
  rw [nothing] at looked
  cases looked

/-! ## One step -/

/-- A look answers what stands at the index, and leaves the stream there. -/
theorem IsSound.peek (sound : lexer.IsSound) :
    lexer.peek.1 = read lexer.source lexer.index ∧ lexer.peek.2.forget = lexer.forget ∧
      lexer.peek.2.IsSound := by
  unfold Lexer.peek
  split
  · rename_i token looked
    exact ⟨(sound token looked).symm, rfl, sound⟩
  · split
    · rename_i error failed
      exact ⟨failed.symm, rfl, sound⟩
    · rename_i token found
      refine ⟨found.symm, rfl, ?_⟩
      rintro _ ⟨⟩
      exact found

/-- The next token is the one that stands at the index, looked at or not. -/
theorem IsSound.next (sound : lexer.IsSound) :
    lexer.next = lexer.forget.next ∧ lexer.next.1 = read lexer.source lexer.index ∧
      lexer.next.2.ahead = none := by
  obtain ⟨source, index, ahead⟩ := lexer
  cases ahead with
  | none =>
    refine ⟨rfl, ?_, ?_⟩ <;> unfold Lexer.next <;> dsimp only <;>
      cases read source index <;> rfl
  | some token =>
    have found : read source index = .ok token := sound token rfl
    simp [Lexer.next, forget, found]

theorem IsSound.work (sound : lexer.IsSound) (step : Step) : (lexer.work step).2.IsSound := by
  cases step with
  | peek => exact sound.peek.2.2
  | next => exact isSound_of_ahead sound.next.2.2
  | override index => exact isSound_of_ahead rfl

theorem IsSound.work_look (sound : lexer.IsSound) {step : Step} (looks : step.isLook = true) :
    (lexer.work step).2.forget = lexer.forget := by
  cases step with
  | peek => exact sound.peek.2.1
  | next => cases looks
  | override => cases looks

/-- A step that does more than look is taken alike by the stream that has forgotten its looks. -/
theorem IsSound.work_forget (sound : lexer.IsSound) {step : Step} (acts : step.isLook = false) :
    lexer.forget.work step = lexer.work step ∧
      (lexer.work step).2.forget = (lexer.work step).2 := by
  cases step with
  | peek => cases acts
  | next =>
    obtain ⟨same, -, nothing⟩ := sound.next
    refine ⟨by rw [Lexer.work, Lexer.work, same], ?_⟩
    simp only [Lexer.work, forget, ← nothing]
  | override index => exact ⟨rfl, rfl⟩

/-! ## Whole runs -/

theorem isSound_start (source : List Char) : (start source).IsSound := isSound_of_ahead rfl

theorem IsSound.after (sound : lexer.IsSound) (steps : List Step) :
    (lexer.after steps).IsSound := by
  induction steps generalizing lexer with
  | nil => exact sound
  | cons step rest ih => exact ih (sound.work step)

/-- The stream that has forgotten its looks comes to the same place without them. -/
theorem IsSound.after_forget (sound : lexer.IsSound) (steps : List Step) :
    lexer.forget.after (withoutLooks steps) = (lexer.after steps).forget := by
  induction steps generalizing lexer with
  | nil => rfl
  | cons step rest ih =>
    rw [Lexer.after, ← ih (sound.work step)]
    cases looks : step.isLook with
    | true => rw [withoutLooks_look looks, sound.work_look looks]
    | false =>
      obtain ⟨same, forgotten⟩ := sound.work_forget looks
      rw [withoutLooks_act looks, Lexer.after, same, forgotten]

theorem IsSound.history_forget (sound : lexer.IsSound) (steps : List Step) :
    lexer.forget.history (withoutLooks steps) =
      (lexer.history steps).filter (!·.step.isLook) := by
  induction steps generalizing lexer with
  | nil => rfl
  | cons step rest ih =>
    have later := ih (sound.work step)
    cases looks : step.isLook with
    | true => simp [withoutLooks_look looks, Lexer.history, looks, ← later, sound.work_look looks]
    | false =>
      obtain ⟨same, forgotten⟩ := sound.work_forget looks
      rw [forgotten] at later
      simp [withoutLooks_act looks, Lexer.history, looks, ← later, same]

/-- Looking ahead does not show. Of any run over a source, errors included, the steps that do more
than look have the same answers, and the same index after them, when the looks are left out. A look
after the run answers what taking a token would answer there, and in the run without its looks, and
it leaves the index where it is. -/
theorem history_without_looks (source : List Char) (steps : List Step) :
    ((start source).history steps).filter (!·.step.isLook) =
        (start source).history (withoutLooks steps) ∧
      ((start source).after steps).peek.1 = ((start source).after steps).next.1 ∧
      ((start source).after steps).peek.1 =
        ((start source).after (withoutLooks steps)).next.1 ∧
      ((start source).after steps).peek.2.index = ((start source).after steps).index := by
  have sound := isSound_start source
  have there := sound.after steps
  have place : (start source).after (withoutLooks steps) = ((start source).after steps).forget :=
    sound.after_forget steps
  obtain ⟨looked, stays, -⟩ := there.peek
  obtain ⟨same, taken, -⟩ := there.next
  have index := congrArg Lexer.index stays
  refine ⟨(sound.history_forget steps).symm, looked.trans taken.symm, ?_, index⟩
  rw [place, ← same, looked, taken]

end Lexer

end BranchText
