import BranchText.Render.Nodes
import BranchText.Render.Scripts

/-!
# Rendering documents

A branch can hold further forks, a reference can execute a recorded fork again, and a script can
include a whole document. All of these render a choice inside a choice. `Rendering.choice` counts
how deeply choices are nested and gives up at a depth that no document reaches that does not refer
to itself.
-/

namespace BranchText

namespace Rendering

/-- Renders a choice with at most `depth` choices inside each other. -/
def choice : Nat → Setting → Choice → Rendering String
  | 0, _, _ => throw .tooDeep
  | depth + 1, setting, .nodes nodes => renderNodes (choice depth setting) nodes false
  | depth + 1, setting, .script block =>
    let child := fun inner nodes => renderNodes (choice depth inner) nodes true
    runScript (renderIncluded child setting) setting block
  | depth + 1, setting, .call call =>
    let child := fun inner nodes => renderNodes (choice depth inner) nodes true
    runCall (renderIncluded child setting) call

/-- How deeply choices can be nested. -/
def depthLimit : Nat := 4096

/-- Renders the nodes of a document. -/
def nodes (setting : Setting) (nodes : List Node) : Rendering String :=
  renderNodes (choice depthLimit setting) nodes true

/-- Renders a document, without cleanup. -/
def document (setting : Setting) (document : Document) : Rendering String :=
  renderWhole (nodes setting) document

/-- Reads and renders a document, without cleanup. -/
def source (setting : Setting) (text : String) : Rendering String :=
  match Document.read text.toList with
  | .error error => throw (.unread error)
  | .ok found => document setting found

/-- Renders the document at a path on its own and takes over what it hands over. -/
def includeDocument (setting : Setting) (path : String) : Rendering String := do
  let included ← renderIncluded nodes setting path
  merge included
  return included.text

end Rendering

end BranchText
