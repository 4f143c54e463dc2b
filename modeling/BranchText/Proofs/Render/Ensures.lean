import BranchText.Render.Document

/-!
# What a part of a render ensures

`Rendering.Ensures` states what holds after a part of a render, whether it ends well or fails.
There is one rule for each way in which renders are put together, so that what a longer part
ensures comes down to what its parts do.
-/

namespace BranchText

namespace Rendering

variable {α β : Type}

/-- Run in the state, the part ends well with a value and a state that are good, or fails in a
state that is failing. -/
def Ensures (part : Rendering α) (state : RenderState) (good : α → RenderState → Prop)
    (failing : RenderState → Prop) : Prop :=
  match part.run state with
  | (.ok value, later) => good value later
  | (.error _, later) => failing later

section Rules

variable {state : RenderState} {good : α → RenderState → Prop} {failing : RenderState → Prop}

theorem Ensures.imp {part : Rendering α} {better : α → RenderState → Prop}
    {worse : RenderState → Prop} (ensures : Ensures part state better worse)
    (weaker : ∀ value later, better value later → good value later)
    (weakerFailing : ∀ later, worse later → failing later) :
    Ensures part state good failing := by
  unfold Ensures at ensures ⊢
  split
  · rename_i value later same
    rw [same] at ensures
    exact weaker value later ensures
  · rename_i error later same
    rw [same] at ensures
    exact weakerFailing later ensures

/-- What holds however the part ends. -/
theorem ensures_always {part : Rendering α} {holds : RenderState → Prop} :
    Ensures part state (fun _ later => holds later) holds ↔ holds (part.run state).2 := by
  unfold Ensures
  rcases part.run state with ⟨outcome, later⟩
  cases outcome <;> rfl

/-- A part that ends well with a good result. -/
theorem ensures_of_run_ok {part : Rendering α} {value : α} {later : RenderState}
    (run : part.run state = (.ok value, later)) :
    Ensures part state good failing ↔ good value later := by
  rw [Ensures, run]

/-- A part whose text is known has ended well. -/
theorem run_of_toOption {part : Rendering α} {value : α}
    (found : (part.run state).1.toOption = some value) :
    part.run state = (.ok value, (part.run state).2) := by
  rcases same : part.run state with ⟨outcome, later⟩
  rw [same] at found
  cases outcome with
  | error error => cases found
  | ok other =>
    cases found
    rfl

/-- What a part ensures, together with how it has run. -/
theorem Ensures.withRun {part : Rendering α} (ensures : Ensures part state good failing) :
    Ensures part state (fun value later => good value later ∧
      part.run state = (.ok value, later)) failing := by
  unfold Ensures at ensures ⊢
  rcases run : part.run state with ⟨outcome, later⟩
  rw [run] at ensures
  cases outcome with
  | error error => exact ensures
  | ok value => exact ⟨ensures, rfl⟩

@[simp]
theorem ensures_pure (value : α) :
    Ensures (pure value) state good failing ↔ good value state := Iff.rfl

@[simp]
theorem ensures_throw (error : RenderError) :
    Ensures (throw error : Rendering α) state good failing ↔ failing state := Iff.rfl

/-- A part that fails leaves out what comes behind it. -/
theorem run_bind (part : Rendering β) (next : β → Rendering α) (state : RenderState) :
    (part >>= next).run state =
      match part.run state with
      | (.ok value, later) => (next value).run later
      | (.error error, later) => (.error error, later) := by
  change (match part.run state with | (outcome, later) => ExceptT.bindCont next outcome later) = _
  rcases part.run state with ⟨outcome, later⟩
  cases outcome <;> rfl

/-- A sequence ends well only if its first part does. -/
theorem exists_of_run_bind {part : Rendering β} {next : β → Rendering α}
    {state later : RenderState} {value : α} (run : (part >>= next).run state = (.ok value, later)) :
    ∃ first between, part.run state = (.ok first, between) ∧
      (next first).run between = (.ok value, later) := by
  rw [run_bind] at run
  rcases ended : part.run state with ⟨error | first, between⟩
  · rw [ended] at run
    cases run
  · rw [ended] at run
    exact ⟨first, between, rfl, run⟩

@[simp]
theorem ensures_bind (part : Rendering β) (next : β → Rendering α) :
    Ensures (part >>= next) state good failing ↔
      Ensures part state (fun value later => Ensures (next value) later good failing) failing := by
  unfold Ensures
  rw [run_bind]
  rcases part.run state with ⟨outcome, later⟩
  cases outcome <;> rfl

@[simp]
theorem ensures_map (change : β → α) (part : Rendering β) :
    Ensures (change <$> part) state good failing ↔
      Ensures part state (fun value later => good (change value) later) failing := by
  rw [map_eq_pure_bind, ensures_bind]
  rfl

end Rules

section Primitives

variable {state : RenderState} {failing : RenderState → Prop}

@[simp]
theorem ensures_get {good : RenderState → RenderState → Prop} :
    Ensures (get : Rendering RenderState) state good failing ↔ good state state := Iff.rfl

@[simp]
theorem ensures_set (next : RenderState) {good : PUnit → RenderState → Prop} :
    Ensures (set next : Rendering PUnit) state good failing ↔ good ⟨⟩ next := Iff.rfl

@[simp]
theorem ensures_modify (change : RenderState → RenderState) {good : PUnit → RenderState → Prop} :
    Ensures (modify change : Rendering PUnit) state good failing ↔ good ⟨⟩ (change state) :=
  Iff.rfl

@[simp]
theorem ensures_note (event : Event) {good : Unit → RenderState → Prop} :
    Ensures (note event) state good failing ↔
      good () { state with events := event :: state.events } := Iff.rfl

@[simp]
theorem ensures_warn (warning : Warning) {good : Unit → RenderState → Prop} :
    Ensures (warn warning) state good failing ↔
      good () { state with warnings := state.warnings ++ [warning] } := Iff.rfl

@[simp]
theorem ensures_recorded (name : String) {good : Option Record → RenderState → Prop} :
    Ensures (recorded name) state good failing ↔ good (state.ledger.get? name) state := Iff.rfl

end Primitives

end Rendering

end BranchText
