import BranchText.Command.Basic
import BranchText.Disk.Files
import BranchText.Document.Reader
import BranchText.Lint
import BranchText.Report

/-!
# The lint command

Checks one document, or all documents below a directory in the order of their paths, without
rendering them: files that end in `.txt` or `.fork` are documents. It fails if a document cannot
be read.
-/

namespace BranchText

namespace LintCommand

/-- How the command is used. -/
def usage : String := "Usage: doc_linter <file-or-dir>\n"

/-- The extensions of documents. -/
def extensions : List String := ["txt", "fork"]

/-- Whether a file below a directory is a document. -/
def isDocument (path : String) : Bool :=
  match Path.extension? path with
  | some extension => extensions.contains extension
  | none => false

/-- What checking one document comes to. -/
structure Checked where
  output : String
  errors : String
  parsed : Bool
  findings : Nat

/-- A line about a place in a file. -/
def lineAbout (word filename : String) (source : List Char) (offset : Nat) (message : String) :
    String :=
  let position := Position.ofOffset source offset
  word ++ ": " ++ filename ++ ":" ++ toString position.line ++ ":" ++ toString position.column
    ++ ": " ++ message ++ "\n"

/-- Checks one document. -/
def check (files : Files) (path : String) : Checked :=
  let title := "=== " ++ path ++ " ===\n"
  match files path with
  | .error failure =>
    ⟨title, "ERROR: Failed to read " ++ path ++ ": " ++ failure.message ++ "\n", false, 0⟩
  | .ok source =>
    match Document.read source.toList with
    | .error error =>
      ⟨title ++ lineAbout "ERROR" path source.toList error.offset error.message,
        Report.write source path .error error.offset (error.offset + 1) error.message, false, 0⟩
    | .ok document =>
      let findings := document.findings
      let analysis := document.analyze
      let lines := findings.map fun finding =>
        lineAbout "WARNING" path source.toList finding.offset finding.display
      let counts := "  " ++ toString analysis.forks ++ " forks, " ++ toString analysis.references
        ++ " references, " ++ (analysis.possibleOutcomes.map toString).getD ""
        ++ " possible outcomes\n"
      ⟨title ++ String.join lines ++ counts, Report.writeAll source path findings, true,
        findings.length⟩

/-- The last line of the output. -/
def summary (checked : List Checked) : String :=
  "\nSummary: " ++ toString checked.length ++ " documents, "
    ++ toString (checked.countP (!·.parsed)) ++ " failed to parse, "
    ++ toString (checked.foldl (fun count document => count + document.findings) 0) ++ " warnings\n"

/-- Checks documents one after another. -/
def checkAll (files : Files) (paths : List String) : CommandResult :=
  let checked := paths.map (check files)
  { exitCode := if checked.all (·.parsed) then 0 else 1
    output := String.join (checked.map (·.output)) ++ summary checked
    errors := String.join (checked.map (·.errors)) }

/-- The documents that a path names: a file, or the documents below a directory in the order of
their paths. -/
def documents? (path : String) : Listing → Option (List String)
  | .missing => none
  | .file => some [path]
  | .directory below =>
    some ((below.filter isDocument).mergeSort fun first second =>
      Path.precedes (Path.components first) (Path.components second))

/-- What the arguments ask for: a path, or nothing but to be told the usage. -/
def target? : List String → Option String
  | [] => none
  | "--help" :: _ => none
  | "-h" :: _ => none
  | path :: _ => some path

/-- Runs the command. -/
def run (arguments : List String) (list : String → Listing) (files : Files) : CommandResult :=
  match target? arguments with
  | none => .success usage ""
  | some path =>
    match documents? path (list path) with
    | none => .failure ("ERROR: Path '" ++ path ++ "' does not exist\n")
    | some paths => checkAll files paths

end LintCommand

end BranchText
