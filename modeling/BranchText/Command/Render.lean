import BranchText.Command.Basic
import BranchText.Document.Dump
import BranchText.Outcomes.Count
import BranchText.Render.Output
import BranchText.Report
import BranchText.Settings.Request

/-!
# The render command

Renders a document from a file or from the standard input. It can count the possible renderings,
or dump the document as it was read, instead.
-/

namespace BranchText

namespace RenderCommand

/-- What the command is asked to do. -/
structure Options where
  /-- The file to render; without one the standard input is. -/
  input : Option String
  seed : Option UInt64
  noScripts : Bool
  analyze : Bool
  dump : Bool
  settings : Option String

/-- What reading the arguments comes to. -/
inductive Parsed where
  | run (options : Options)
  | help
  | invalidSeed (written : String)
  | unknownArgument (argument : String)

/-- The seed that a text writes: decimal digits, with a plus sign or without. -/
def seed? (written : String) : Option UInt64 :=
  let digits := match written.toList with
    | '+' :: rest => rest
    | rest => rest
  let value := Decimal.appendDigits 0 digits
  if !digits.isEmpty && digits.all Decimal.isDigit && value < UInt64.size then
    some (UInt64.ofNat value)
  else none

/-- Reads arguments from left to right, on top of what was read so far. -/
def parseFrom (options : Options) : List String → Parsed
  | [] => .run options
  | "--help" :: _ => .help
  | "-h" :: _ => .help
  | "--seed" :: written :: rest =>
    match seed? written with
    | some seed => parseFrom { options with seed := some seed } rest
    | none => .invalidSeed written
  | "--settings" :: path :: rest => parseFrom { options with settings := some path } rest
  | "--no-scripts" :: rest => parseFrom { options with noScripts := true } rest
  | "--analyze" :: rest => parseFrom { options with analyze := true } rest
  | "--ast" :: rest => parseFrom { options with dump := true } rest
  | "-" :: rest => parseFrom { options with input := none } rest
  | argument :: rest =>
    if argument.startsWith "--" || options.input.isSome then .unknownArgument argument
    else parseFrom { options with input := some argument } rest

/-- Reads arguments. -/
def parse (arguments : List String) : Parsed :=
  parseFrom ⟨none, none, false, false, false, none⟩ arguments

/-- How the command is used. -/
def usage : String :=
  "Usage: render [FILE|-] [OPTIONS]\n\nOptions:\n"
    ++ "  --seed <n>           Seed the random generator for reproducible output\n"
    ++ "  --no-scripts         Fail on script blocks instead of running them\n"
    ++ "  --analyze            Print the number of possible renderings\n"
    ++ "  --settings <file>    Load render settings from a RON file\n"
    ++ "  --ast                Print the parsed document as RON\n"

/-- The report for an error at an offset. -/
def errorReport (source filename : String) (offset : Nat) (message : String) : String :=
  Report.write source filename .error offset (offset + 1) message

/-- The text for an error of a render. -/
def renderErrorText (source filename : String) (error : RenderError) : String :=
  match error.offset? with
  | some offset => errorReport source filename offset error.message
  | none => "error: " ++ error.message ++ "\n"

/-- The directory that includes are looked up in when the settings name none: that of the input
file. -/
def inputDirectory (options : Options) : Option String :=
  match options.input.bind Path.parent? with
  | none => none
  | some directory => if directory.isEmpty then none else some directory

/-- The settings that the options ask for. Without a seed of their own they get a fresh one. -/
def settings (options : Options) (files : Files) (fresh : UInt64) :
    Except SettingsError RenderSettings := do
  let request : SettingsRequest :=
    { file := options.settings
      seed := options.seed
      allowScripts := if options.noScripts then some false else none
      workingDirectory := none
      overrides := .empty }
  let settings ← request.resolve files
  return { settings with
    seed := settings.seed.or (some fresh)
    workingDirectory := settings.workingDirectory.or (inputDirectory options) }

/-- Does what the options ask for with the source text. -/
def perform (options : Options) (files : Files) (fresh : UInt64) (source filename : String) :
    CommandResult :=
  if options.dump then
    match Document.read source.toList with
    | .error error => .failure (errorReport source filename error.offset error.message)
    | .ok document => .success (document.toRon.pretty ++ "\n") ""
  else
    match settings options files fresh with
    | .error error => .failure ("Failed to load settings: " ++ error.message ++ "\n")
    | .ok settings =>
      if options.analyze then
        match Document.read source.toList with
        | .error error => .failure (errorReport source filename error.offset error.message)
        | .ok document =>
          let analysis := document.analyze
          .success ((analysis.possibleOutcomes.map toString).getD "" ++ "\n")
            (if analysis.unresolved.isEmpty then ""
              else "unresolved: " ++ String.intercalate ", " analysis.unresolved ++ "\n")
      else
        match settings.render (.ofFiles files) source with
        | .error error => .failure (renderErrorText source filename error)
        | .ok output =>
          .success output.text (Report.writeAll source filename output.warnings)

/-- The source text that the options name. -/
def source (options : Options) (files : Files) (input : Except ReadFailure String) :
    Except ReadFailure String :=
  match options.input with
  | some path => files path
  | none => input

/-- Runs the command with the text of the standard input. -/
def run (arguments : List String) (files : Files) (fresh : UInt64)
    (input : Except ReadFailure String) : CommandResult :=
  match parse arguments with
  | .help => .success "" usage
  | .invalidSeed written => .failure ("Invalid seed: " ++ written ++ "\n" ++ usage)
  | .unknownArgument argument => .failure ("Unknown argument: " ++ argument ++ "\n" ++ usage)
  | .run options =>
    match source options files input with
    | .error failure => .failure ("Failed to read input: " ++ failure.message ++ "\n")
    | .ok source => perform options files fresh source (options.input.getD "<stdin>")

/-- The paths of the files that the command reads when these are the files. -/
def readPaths (arguments : List String) (files : Files) (fresh : UInt64)
    (input : Except ReadFailure String) : List String :=
  match parse arguments with
  | .run options =>
    let named := options.input.toList ++ options.settings.toList
    match source options files input, settings options files fresh with
    | .ok source, .ok settings => named ++ settings.loadedPaths (.ofFiles files) source
    | _, _ => named
  | _ => []

end RenderCommand

end BranchText
