import BranchText.Render.Include
import BranchText.Script.Advice

/-!
# Script blocks and calls in a render

A script block runs against the render: its draws come from the generator of the render, the
documents it includes are rendered in its setting, and what it registers is gathered as a list of
effects. Once the script has ended well the effects are taken over: first the included documents,
then the functions and values, then the settings. A failed include fails the render even if the
script went on after it.
-/

namespace BranchText

/-- What a script did to the tables of its render. -/
inductive Effect where
  | provided (name : String) (entry : Provided)
  | settings (layer : SettingsLayer)
  | included (document : Included)

namespace Effect

/-- The documents among the effects. -/
def documents (effects : List Effect) : List Included :=
  effects.filterMap fun
    | included document => some document
    | _ => none

/-- The functions and values among the effects. -/
def entries (effects : List Effect) : List (String × Provided) :=
  effects.filterMap fun
    | provided name entry => some (name, entry)
    | _ => none

/-- The settings among the effects as one layer, if there are any. -/
def layer? (effects : List Effect) : Option SettingsLayer :=
  effects.foldl (fun gathered effect =>
    match effect with
    | settings layer => some ((gathered.getD .empty).withOver layer)
    | _ => gathered) none

end Effect

/-- What a running script has gathered. -/
structure Gathered where
  /-- In the order they happened. -/
  effects : List Effect
  /-- The last include that failed. -/
  failure : Option RenderError

/-- A script that runs against a render: includes that fail are kept, and do not stop it. -/
abbrev Hosting (α : Type) := StateT Gathered (StateM RenderState) α

namespace Hosting

/-- Gathers an effect. -/
def gather (effect : Effect) : Hosting Unit :=
  modify fun gathered => { gathered with effects := gathered.effects ++ [effect] }

/-- Draws from the generator of the render. -/
def drawn {α : Type} (draw : Generator → α × Generator) : Hosting α :=
  StateT.lift fun state =>
    let (value, generator) := draw state.generator
    (value, { state with generator := generator })

/-- Answers a script whose functions belong to the session with this place. -/
def answer (fetch : String → Rendering Included) (session : Nat) :
    (request : Script.Request) → Hosting request.Answer
  | .fraction => drawn Generator.unit
  | .below high => drawn (Generator.below high)
  | .integer low high => drawn (Generator.intFrom low high)
  | .keep (.function name callable) => gather (.provided name (.function callable session))
  | .keep (.value name text) => gather (.provided name (.value text))
  | .keep (.settings layer) => gather (.settings layer)
  | .document path => do
    let outcome ← StateT.lift (fetch path).run
    match outcome with
    | .ok document =>
      gather (.included document)
      return .ok document.text
    | .error error =>
      modify fun gathered => { gathered with failure := some error }
      return .error ("include(\"" ++ path ++ "\") failed: " ++ error.message)

end Hosting

namespace Rendering

variable {α : Type}

/-- Runs a script against the render, and fails if an include did. -/
def host (fetch : String → Rendering Included) (session : Nat) (script : Script.Exchange α) :
    Rendering (α × Except RenderError (List Effect)) := do
  let (value, gathered) ← ExceptT.lift ((script.run (Hosting.answer fetch session)).run ⟨[], none⟩)
  match gathered.failure with
  | some error => return (value, .error error)
  | none => return (value, .ok gathered.effects)

/-- Takes over the effects of a script. -/
def absorb (effects : List Effect) (offset : Nat) : Rendering Unit := do
  (Effect.documents effects).forM merge
  modify fun state =>
    { state with functions := state.functions.extend (Effect.entries effects) }
  match Effect.layer? effects with
  | none => return
  | some layer =>
    match layer.version with
    | some version =>
      if version ≠ languageVersion then warn (.versionMismatch version languageVersion offset)
    | none => pure ()
    modify fun state => { state with settings := state.settings.withOver layer }

/-- Runs a script block. -/
def runScript (fetch : String → Rendering Included) (setting : Setting) (block : ScriptBlock) :
    Rendering String := do
  let offset := block.span.start
  note (.ran block)
  if !setting.allowScripts then throw (.scriptsDisabled offset)
  (ScriptBlock.ambientWarnings block.source offset).forM warn
  match Script.Program.read? block.source with
  | none => throw (.script .malformed offset)
  | some program =>
    let ((result, session), effects) ← host fetch (← get).sessions.size program.run
    match effects, result with
    | .error error, _ => throw error
    | .ok _, .error raised => throw (.script (.stopped raised.message) offset)
    | .ok effects, .ok output =>
      let included := (Effect.documents effects).length
      (ScriptBlock.idleWarning? block.source output included offset).toList.forM warn
      modify fun state => { state with sessions := state.sessions.push session }
      absorb effects offset
      return output

/-- Calls a provided function. What it registers is dropped; its variables keep their values. -/
def runCall (fetch : String → Rendering Included) (call : FunctionCall) : Rendering String := do
  let offset := call.span.start
  note (.called call)
  let state ← get
  match state.functions.get? call.name with
  | none => throw (.functionNotFound call.name offset)
  | some (.value _) => throw (.notCallable call.name offset)
  | some (.function callable place) =>
    let session := state.sessions.getD place ⟨[], #[]⟩
    let ((result, session), effects) ← host fetch place (session.call callable)
    modify fun state => { state with sessions := state.sessions.setIfInBounds place session }
    match effects, result with
    | .error error, _ => throw error
    | .ok _, .error raised => throw (.script (.functionStopped raised.message) offset)
    | .ok _, .ok output => return output

end Rendering

end BranchText
