import BranchText.Disk.Path
import BranchText.Document.Reader
import BranchText.Render.State

/-!
# Included documents

An included document is rendered on its own, with a copy of the generator and an empty ledger, and
then hands everything it has recorded to the document that includes it. Its records count as
imported, so their names can be declared again.
-/

namespace BranchText

/-- Where included documents come from: the text at a path. -/
abbrev Loader := String → Except IncludeError String

namespace Loader

/-- Nothing can be included. -/
def unavailable : Loader := fun _ => .error .unavailable

/-- Documents held in memory. Paths with the same components name the same document. -/
def ofDocuments (documents : List (String × String)) : Loader := fun path =>
  match documents.find? fun entry => Path.components entry.1 = Path.components path with
  | some (_, text) => .ok text
  | none => .error (.notFound path)

/-- Documents read from files. -/
def ofFiles (files : Files) : Loader := fun path =>
  match files path with
  | .ok text => .ok text
  | .error .notFound => .error (.notFound path)
  | .error failure => .error (.unreadable path failure)

end Loader

/-- Where a document is rendered: what is the same throughout one document. -/
structure Setting where
  allowScripts : Bool
  /-- The directory that included paths start from. -/
  directory : String
  loader : Loader

/-- Everything that an included document hands over. -/
structure Included where
  path : String
  text : String
  ledger : Table String Record
  functions : Table String Provided
  sessions : Array Script.Session
  settings : SettingsLayer
  warnings : List Warning

namespace Provided

/-- The same function or value when `count` sessions stand before its own. -/
def shift (count : Nat) : Provided → Provided
  | function callable session => function callable (session + count)
  | value text => value text

end Provided

namespace Rendering

/-- The text of a document after its warnings about modes. -/
def renderWhole (renderNodes : List Node → Rendering String) (document : Document) :
    Rendering String := do
  if document.usesModes then
    warn (.modesNotApplied ((document.modes.head?.map (·.span.start)).getD 0))
  renderNodes document.nodes

/-- Renders the document at a path on its own. `child` renders the nodes of a document in its
setting. -/
def renderIncluded (child : Setting → List Node → Rendering String) (setting : Setting)
    (path : String) : Rendering Included := do
  let resolved := Path.join setting.directory path
  note (.loaded resolved)
  match setting.loader resolved with
  | .error error => throw (.notIncluded error)
  | .ok source =>
    match Document.read source.toList with
    | .error error => throw (.within resolved (.unread error))
    | .ok document =>
      let inner := { setting with directory := (Path.parent? resolved).getD setting.directory }
      let outcome := (renderWhole (child inner) document).run
        (.initial (← get).generator)
      note (.included resolved outcome.2.events)
      match outcome.1 with
      | .error error => throw (.within resolved error)
      | .ok text =>
        let after := outcome.2
        return ⟨resolved, text, after.ledger, after.functions, after.sessions, after.settings,
          after.warnings⟩

/-- Takes over everything that an included document hands over. -/
def merge (included : Included) : Rendering Unit :=
  modify fun state =>
    { state with
      ledger := state.ledger.extend
        (included.ledger.map fun entry => { entry with origin := .imported }).entries
      functions := state.functions.extend
        (included.functions.map (·.shift state.sessions.size)).entries
      sessions := state.sessions ++ included.sessions
      settings := state.settings.withOver included.settings
      warnings := state.warnings ++ included.warnings
      events := .merged included.path included.ledger :: state.events }

end Rendering

end BranchText
