import BranchText.Json.Basic
import BranchText.Outcomes.Count
import BranchText.Render.Output
import BranchText.Settings.Decoding
import BranchText.Source.Position

/-!
# The playground

Rendering and analysis for a host that has no files and speaks JSON: settings come in as JSON,
results go out as JSON, and errors are texts that start with their line and column.
-/

namespace BranchText

namespace Playground

/-- A message after the line and column it is about. -/
def placed (source : String) (offset : Nat) (message : String) : String :=
  let position := Position.ofOffset source.toList offset
  toString position.line ++ ":" ++ toString position.column ++ ": " ++ message

/-- Reads settings; a blank text stands for the default ones. -/
def settings? (text : String) : Option RenderSettings :=
  if text.toList.all Alphabet.unicode.isWhitespace then some .default
  else RenderSettings.ofJson? text

/-- A warning with its line and column. -/
def warningJson (source : String) (warning : Warning) : Json :=
  let position := Position.ofOffset source.toList warning.offset
  .object [("kind", .text warning.kind.name), ("message", .text warning.message),
    ("line", .natural position.line), ("column", .natural position.column)]

/-- The text of a render error, after its place if it has one in the document. -/
def errorText (source : String) (error : RenderError) : String :=
  match error.offset? with
  | some offset => placed source offset error.message
  | none => error.message

/-- What is said when the settings cannot be read. -/
def invalidSettings : String := "Invalid settings JSON"

/-- Renders a document. -/
def render (source settings : String) : Except String Json :=
  match settings? settings with
  | none => .error invalidSettings
  | some settings =>
    match settings.render .unavailable source with
    | .error error => .error (errorText source error)
    | .ok output =>
      .ok (.object [("text", .text output.text),
        ("warnings", .list (output.warnings.map (warningJson source)))])

/-- An analysis in JSON. Counts of renderings are texts, because they outgrow the numbers of many
readers of JSON. -/
def analysisJson (analysis : Analysis) : Json :=
  let outcomes := analysis.possibleOutcomes.map toString
  .object [("possible_outcomes", .ofOption .text outcomes), ("forks", .natural analysis.forks),
    ("references", .natural analysis.references),
    ("unresolved", .list (analysis.unresolved.map .text))]

/-- Counts what a document can render as. -/
def analyze (source : String) : Except String Json :=
  match Document.read source.toList with
  | .error error => .error (placed source error.offset error.message)
  | .ok document => .ok (analysisJson document.analyze)

end Playground

end BranchText
