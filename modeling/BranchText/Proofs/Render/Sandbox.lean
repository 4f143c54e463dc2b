import BranchText.Proofs.Render.Dormant

/-!
# Renders that do not allow scripts

What such a render gives depends on its source, its seed and the settings of its caller alone. It
reads no other document, and it fails at the first script block or call that it reaches.
-/

namespace BranchText

namespace Rendering

/-- Reads and renders a document where script blocks are not allowed and no function is known. -/
def inertSource (text : String) : Rendering String :=
  match Document.read text.toList with
  | .error error => throw (.unread error)
  | .ok found => inertDocument found

/-- Where scripts are not allowed, a source renders as an inert one. -/
theorem inStep_source (setting : Setting) (disabled : setting.allowScripts = false)
    (text : String) :
    ∃ nodes, InStep nodes (fun _ => True) (source setting text) (inertSource text) := by
  unfold source inertSource
  cases Document.read text.toList with
  | error error => exact ⟨[], inStep_throw (by simp)⟩
  | ok found => exact ⟨found.nodes, inStep_document (.inl disabled)⟩

end Rendering

namespace RenderSettings

open Rendering

/-- A render that does not allow scripts is an inert one, and comes to rest. -/
theorem perform_inert (settings : RenderSettings) (disabled : settings.allowScripts = false)
    (loader : Loader) (source : String) :
    settings.perform loader source = (inertSource source).run (.initial settings.generator) ∧
      ∃ nodes, Rests nodes (fun _ => True) (settings.perform loader source) := by
  obtain ⟨nodes, inStep⟩ := inStep_source (settings.setting loader) disabled source
  obtain ⟨same, rests⟩ := inStep _ (dormant_initial nodes settings.generator)
  exact ⟨same, nodes, rests⟩

theorem render_of_perform_error {settings : RenderSettings} {loader : Loader} {source : String}
    {error : RenderError} (failed : (settings.perform loader source).1 = .error error) :
    settings.render loader source = .error error := by
  rw [render, failed]

/-- With scripts disabled, neither the loader nor the working directory has an influence on a
render, nothing is loaded, and whatever script block or call is reached makes the render fail. -/
theorem render_sandboxed (settings : RenderSettings) (disabled : settings.allowScripts = false)
    (loader other : Loader) (directory : Option String) (source : String) :
    { settings with workingDirectory := directory }.render other source =
        settings.render loader source ∧
      settings.loadedPaths loader source = [] ∧
      (∀ call, .called call ∈ (settings.perform loader source).2.events →
        settings.render loader source = .error (.functionNotFound call.name call.span.start)) ∧
      ∀ block, .ran block ∈ (settings.perform loader source).2.events →
        settings.render loader source = .error (.scriptsDisabled block.span.start) := by
  obtain ⟨inert, nodes, rests⟩ := perform_inert settings disabled loader source
  refine ⟨?_, rests.loads, fun call reached => ?_, fun block reached => ?_⟩
  · have elsewhere : { settings with workingDirectory := directory }.perform other source =
        settings.perform loader source := by
      have moved := perform_inert { settings with workingDirectory := directory } disabled other
        source
      exact moved.1.trans inert.symm
    simp only [render, elsewhere]
  · exact render_of_perform_error (rests.refused reached rfl)
  · exact render_of_perform_error (rests.refused reached rfl)

/-- Settings of a caller who does not allow scripts. -/
def strict : RenderSettings := ⟨some 1, false, none, .empty⟩

/-- The calls that were reached, the latest first. -/
def callsIn (events : List Event) : List FunctionCall :=
  events.filterMap fun
    | .called call => some call
    | _ => none

/-- A call that is reached in a branch makes a strict render fail, wherever documents are looked
up. -/
theorem render_sandboxed_calling :
    let source := "a\x7b(b\x7bcall f\x7d)\x7d"
    { strict with workingDirectory := some "docs" }.render (.ofDocuments [("f", "x")]) source =
        strict.render .unavailable source ∧
      strict.loadedPaths .unavailable source = [] ∧
      strict.render .unavailable source = .error (.functionNotFound "f" 5) := by
  intro source
  obtain ⟨same, nothing, found, -⟩ := render_sandboxed strict rfl .unavailable
    (.ofDocuments [("f", "x")]) (some "docs") source
  have reached : callsIn (strict.perform .unavailable source).2.events = [⟨"f", ⟨5, 11⟩⟩] := by
    decide +kernel
  refine ⟨same, nothing, found ⟨"f", ⟨5, 11⟩⟩ ?_⟩
  have listed : ⟨"f", ⟨5, 11⟩⟩ ∈ callsIn (strict.perform .unavailable source).2.events :=
    reached ▸ List.mem_singleton.2 rfl
  obtain ⟨event, member, isCall⟩ := List.mem_filterMap.1 listed
  cases event with
  | called call =>
    cases isCall
    exact member
  | _ => cases isCall

end RenderSettings

end BranchText
