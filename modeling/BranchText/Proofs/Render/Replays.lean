import BranchText.Proofs.Render.Contributions
import BranchText.Proofs.Render.Ledger

/-!
# References that are replayed

A reference with a name records its own text under the name, so that a plain copy of the name gives
the same text again, without a draw and without a warning. The record is written once the text is
known, behind everything that was rendered for it. It is written only if the target of the
reference has a record of its own: a reference that falls back because its target is missing
leaves none.
-/

namespace BranchText

/-- The reference is a plain copy of the name: without a name of its own, without choices, and
without executing its target again. -/
structure Reference.Copies (copy : Reference) (name : String) : Prop where
  target : copy.target = name
  identifier : copy.identifier = none
  mappings : copy.mappings = []
  fallback : copy.fallback = none
  reruns : copy.reruns = false

theorem Reference.Copies.isCopy {copy : Reference} {name : String} (copies : copy.Copies name) :
    copy.isCopy = true := by
  rw [Reference.isCopy, copies.mappings, copies.fallback]
  rfl

namespace Rendering

/-- The reference gives the text, and changes nothing: it draws nothing and warns of nothing. -/
def Replays (nested : Choice → Rendering String) (copy : Reference) (state : RenderState)
    (text : String) : Prop :=
  (renderReference nested copy).run state = (.ok text, state.noted (.referred copy))

variable {nested other : Choice → Rendering String} {reference copy : Reference} {name : String}
  {state later : RenderState}

/-- A copy of a name under which a branch is recorded gives the recorded text. -/
theorem replays_of_recorded {entry : Record} (copies : copy.Copies name)
    (found : state.ledger.get? name = some entry) (taken : entry.chosen ≠ none) :
    Replays nested copy state entry.rendered := by
  obtain ⟨index, chosen⟩ := Option.ne_none_iff_exists'.1 taken
  rw [Replays, run_renderReference (copies.target.symm ▸ found)]
  simp only [branchOf, chosen, copies.reruns, answer, copies.isCopy, nameOutcome,
    copies.identifier, if_true]
  rfl

/-- What holds of all values and states holds however a part ends well. -/
theorem ensures_of_forall {α : Type} (part : Rendering α) {good : α → RenderState → Prop}
    (all : ∀ value after, good value after) : Ensures part state good fun _ => True := by
  unfold Ensures
  split
  · exact all _ _
  · trivial

/-- A reference with a name leaves a record of its text, if its target has a record. -/
theorem ensures_named (named : reference.identifier = some name)
    (present : state.ledger.get? reference.target ≠ none) :
    Ensures (renderReference nested reference) state
      (fun text after => ∃ entry, after.ledger.get? name = some entry ∧ entry.chosen ≠ none ∧
        entry.rendered = text) fun _ => True := by
  refine ensures_renderReference (fun absent => absurd absent present) fun target _ => ?_
  refine ensures_of_forall _ fun taken between => ensures_of_forall _ fun output after =>
    ⟨trivial, fun _ => ?_⟩
  refine ⟨⟨taken.1, some taken.2.1, output, .declared reference.span.start⟩, ?_,
    Option.some_ne_none _, rfl⟩
  rw [RenderState.naming, named]
  exact after.get?_recording_self ..

/-- Behind a reference with a name whose target had a record, a copy of the name replays the text
of the reference. -/
theorem replays_named (named : reference.identifier = some name)
    (present : state.ledger.get? reference.target ≠ none) {text : String}
    (rendered : (renderReference nested reference).run state = (.ok text, later))
    (copies : copy.Copies name) : Replays other copy later text := by
  obtain ⟨entry, found, taken, rfl⟩ :=
    (ensures_of_run_ok rendered).1 (ensures_named named present)
  exact replays_of_recorded copies found taken

/-- A plain copy of the name `A`. -/
def copyOfA : Reference := ⟨"A", none, false, [], none, false, ⟨40, 44⟩⟩

theorem copyOfA_copies : copyOfA.Copies "A" := ⟨rfl, rfl, rfl, rfl, rfl⟩

/-- A reference to `N` under the name `A`, which executes `N` again and maps its branch. -/
def mappedAgain : Reference :=
  ⟨"N", some "A", false, [⟨0, .nodes [.text "x", oneWay "M" false false "y" 24 31]⟩], none, true,
    ⟨11, 40⟩⟩

/-- A mapping of a set that nothing was drawn from before is replayed without a draw. -/
theorem replays_named_mappedAgain :
    let declared := (Rendering.document scriptless ⟨[oneWay "N" true true "a" 0 11], [], []⟩).run
      (.initial (.ofSeed 1))
    let ended := (renderReference (choice depthLimit scriptless) mappedAgain).run declared.2
    declared.2.ledger.get? mappedAgain.target ≠ none ∧ ended.1.toOption = some "xy" ∧
      Replays (choice depthLimit scriptless) copyOfA ended.2 "xy" := by
  intro declared ended
  have present : declared.2.ledger.get? mappedAgain.target ≠ none := by
    rw [← Option.isSome_iff_ne_none]
    decide +kernel
  have rendered : ended.1.toOption = some "xy" := by decide +kernel
  exact ⟨present, rendered, replays_named rfl present (run_of_toOption rendered) copyOfA_copies⟩

/-- A reference under the name `A` to a name that nothing declares. -/
def fallingBack : Reference :=
  ⟨"Missing", some "A", false, [], some (.nodes [.text "fb"]), false, ⟨0, 19⟩⟩

/-- A reference with a name whose target is missing gives a text that is not replayed. -/
theorem not_replays_fallingBack :
    ¬ ∀ (setting : Setting) (generator : Generator) (state : RenderState),
      Reachable setting generator state → ∀ (reference copy : Reference) (name text : String)
        (later : RenderState), reference.identifier = some name → copy.Copies name →
      (renderReference (choice depthLimit setting) reference).run state = (.ok text, later) →
        Replays (choice depthLimit setting) copy later text := by
  intro claim
  have replays := claim scriptless (.ofSeed 1) _ .initial fallingBack copyOfA "A" "fb" _ rfl
    copyOfA_copies (run_of_toOption (by decide +kernel))
  have warned : ((renderReference (choice depthLimit scriptless) copyOfA).run
      ((renderReference (choice depthLimit scriptless) fallingBack).run
        (.initial (.ofSeed 1))).2).1.toOption = some "" := by decide +kernel
  rw [replays] at warned
  exact absurd (Option.some.inj warned) (by decide)

end Rendering

end BranchText
