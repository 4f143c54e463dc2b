import BranchText.Cleanup.Pass
import BranchText.Render.Document

/-!
# Rendered text

From source text to finished text: the document is read and rendered, and what comes out is
cleaned up once, with the caller's settings over those of the document.
-/

namespace BranchText

/-- A finished text and what was noticed on the way. -/
structure RenderOutput where
  text : String
  warnings : List Warning
  deriving Repr, DecidableEq

namespace Event

mutual

/-- The paths asked for in an event. -/
def loadsIn : Event → List String
  | .loaded path => [path]
  | .included _ events => loads events
  | _ => []

/-- The paths asked for in events, the latest of which comes first, in order. -/
def loads : List Event → List String
  | [] => []
  | event :: earlier => loads earlier ++ loadsIn event

end

end Event

namespace RenderSettings

/-- The setting that a document is rendered in. -/
def setting (settings : RenderSettings) (loader : Loader) : Setting :=
  ⟨settings.allowScripts, settings.baseDirectory, loader⟩

/-- The generator of the seed; zero if there is none. -/
def generator (settings : RenderSettings) : Generator := .ofSeed (settings.seed.getD 0)

/-- Renders source text and leaves it as it is. -/
def perform (settings : RenderSettings) (loader : Loader) (source : String) :
    Except RenderError String × RenderState :=
  (Rendering.source (settings.setting loader) source).run (.initial settings.generator)

/-- Renders source text. -/
def render (settings : RenderSettings) (loader : Loader) (source : String) :
    Except RenderError RenderOutput :=
  let outcome := settings.perform loader source
  match outcome.1 with
  | .error error => .error error
  | .ok raw =>
    let state := outcome.2
    let cleanup := (state.settings.withOver settings.overrides).resolve
    .ok ⟨cleanup.apply raw, state.warnings⟩

/-- The paths that a render asks its loader for, in order. -/
def loadedPaths (settings : RenderSettings) (loader : Loader) (source : String) : List String :=
  Event.loads (settings.perform loader source).2.events

end RenderSettings

end BranchText
