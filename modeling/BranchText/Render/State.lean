import BranchText.Chance.Generator
import BranchText.Ledger.Record
import BranchText.Ledger.Table
import BranchText.Render.Error
import BranchText.Script.Evaluation
import BranchText.Warning

/-!
# The state of a render

A render draws from a generator and keeps a ledger of what named nodes gave, the functions and
settings that scripts registered, the decks of set forks without a name, and the warnings so far.
What it did to its state stays done when it fails.

The events of a render say what it executed and drew, in order. Nothing is decided by them; they
are what statements about whole renders speak of.
-/

namespace BranchText

/-- What a script provided under a name. -/
inductive Provided where
  /-- A function and the place of its session. -/
  | function (callable : Script.Callable) (session : Nat)
  | value (text : String)
  deriving Repr

/-- What happened in a render. -/
inductive Event where
  /-- A fork of a document was reached. -/
  | reached (fork : Fork)
  /-- A reference was reached. -/
  | referred (reference : Reference)
  /-- The target of the reference that was reached last has no record. -/
  | missed (reference : Reference)
  /-- A branch was drawn: from the record of a name, or from a fork without one. -/
  | drew (name : Option String) (live : LiveFork) (draw : Draw)
  /-- The branch drawn last, and not finished yet, has been rendered. -/
  | finished (name : Option String) (live : LiveFork)
  /-- A reference rendered what it has for the branch of its target: a mapping or the fallback. -/
  | answered (reference : Reference) (branch : Nat) (choice : Choice)
  /-- A script block was reached. -/
  | ran (block : ScriptBlock)
  /-- The call of a provided function was reached. -/
  | called (call : FunctionCall)
  /-- The text at a path was asked for. -/
  | loaded (path : String)
  /-- The document at a path was rendered on its own, with these events, the latest first. -/
  | included (path : String) (events : List Event)
  /-- What the document at a path had recorded was taken over. -/
  | merged (path : String) (ledger : Table String Record)
  deriving Repr

/-- Everything that a render changes. -/
structure RenderState where
  generator : Generator
  ledger : Table String Record
  functions : Table String Provided
  /-- The sessions that provided functions belong to. -/
  sessions : Array Script.Session
  /-- The layer that scripts and included documents built up. -/
  settings : SettingsLayer
  /-- Set forks without a name, by their offset. -/
  anonymousSets : Table Nat LiveFork
  warnings : List Warning
  /-- The latest first. -/
  events : List Event

namespace RenderState

/-- The state that a render starts in. -/
def initial (generator : Generator) : RenderState where
  generator := generator
  ledger := .empty
  functions := .empty
  sessions := #[]
  settings := .empty
  anonymousSets := .empty
  warnings := []
  events := []

end RenderState

/-- A part of a render that may fail. -/
abbrev Rendering (α : Type) := ExceptT RenderError (StateM RenderState) α

namespace Rendering

/-- Adds a warning. -/
def warn (warning : Warning) : Rendering Unit :=
  modify fun state => { state with warnings := state.warnings ++ [warning] }

/-- Adds an event. -/
def note (event : Event) : Rendering Unit :=
  modify fun state => { state with events := event :: state.events }

/-- What is recorded under a name. -/
def recorded (name : String) : Rendering (Option Record) := return (← get).ledger.get? name

end Rendering

end BranchText
