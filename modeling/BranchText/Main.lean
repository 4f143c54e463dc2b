import BranchText.Command.Lint
import BranchText.Command.Render

/-!
# Command line

The commands on the files of the machine: the first argument names the command and the others are
its own. What a command does is decided by `RenderCommand.run` and `LintCommand.run`; this module
fetches what they read and writes what they answer.
-/

namespace BranchText

namespace CommandLine

/-- How the program is used. -/
def usage : String := "Usage: branchtext render|lint [ARGUMENTS]\n"

/-- Why the system did not let a file be read. -/
def failureOf : IO.Error → ReadFailure
  | .noFileOrDirectory .. => .notFound
  | .inappropriateType _ 20 _ => .notDirectory
  | .inappropriateType _ 21 _ => .isDirectory
  | error => .other (toString error)

/-- The text that bytes spell. -/
def textOf (bytes : ByteArray) : Except ReadFailure String :=
  match String.fromUTF8? bytes with
  | some text => .ok text
  | none => .error .invalidText

/-- What an action that fetches bytes comes to. -/
def fetch (action : IO ByteArray) : IO (Except ReadFailure String) := do
  try return textOf (← action)
  catch error => return .error (failureOf error)

/-- What the files that were read hold, by path. -/
abbrev Snapshot := List (String × Except ReadFailure String)

namespace Snapshot

/-- The files of a snapshot; what was not read is not there. -/
def files (snapshot : Snapshot) : Files := fun path =>
  (snapshot.lookup path).getD (.error .notFound)

/-- The snapshot with the files at these paths. -/
def extend (snapshot : Snapshot) (paths : List String) : IO Snapshot := do
  let found ← paths.mapM fun (path : String) => return (path, ← fetch (IO.FS.readBinFile path))
  return snapshot ++ found

/-- Reads files until none is missing that is asked for. -/
partial def settle (wanted : Files → List String) (snapshot : Snapshot) : IO Snapshot := do
  match (wanted snapshot.files).filter fun path => (snapshot.lookup path).isNone with
  | [] => return snapshot
  | paths => settle wanted (← snapshot.extend paths)

end Snapshot

/-- The paths of all files below a directory. A directory that cannot be read counts as empty. -/
partial def filesBelow (directory : String) : IO (List String) := do
  let entries ← try (← IO.FS.realPath directory).readDir catch _ => pure #[]
  let below ← entries.toList.mapM fun entry => do
    let path := Path.join directory entry.fileName
    if ← entry.path.isDir then filesBelow path else return [path]
  return below.flatten

/-- What a path names on the machine. -/
def list (path : String) : IO Listing := do
  try
    let place ← IO.FS.realPath path
    if ← place.isDir then return .directory (← filesBelow path)
    return .file
  catch _ => return .missing

/-- A seed that no one chose. -/
def freshSeed : IO UInt64 := do
  let bytes ← IO.getRandomBytes 8
  return bytes.toList.foldl (fun seed byte => seed * 256 + byte.toUInt64) 0

/-- The text of the standard input, if the command reads it. -/
def standardInput (arguments : List String) : IO (Except ReadFailure String) := do
  match RenderCommand.parse arguments with
  | .run { input := none, .. } => fetch (← IO.getStdin).readBinToEnd
  | _ => return .error .notFound

/-- Runs the render command on the files of the machine. -/
def render (arguments : List String) : IO CommandResult := do
  let fresh ← freshSeed
  let input ← standardInput arguments
  let wanted := fun files => RenderCommand.readPaths arguments files fresh input
  let snapshot ← Snapshot.settle wanted []
  return RenderCommand.run arguments snapshot.files fresh input

/-- Runs the lint command on the files of the machine. -/
def lint (arguments : List String) : IO CommandResult := do
  match LintCommand.target? arguments with
  | none => return LintCommand.run arguments (fun _ => .missing) (Snapshot.files [])
  | some path =>
    let listing ← list path
    let paths := (LintCommand.documents? path listing).getD []
    let snapshot ← Snapshot.extend [] paths
    return LintCommand.run arguments (fun _ => listing) snapshot.files

end CommandLine

end BranchText

open BranchText

/-- Runs the command that the first argument names. -/
def main (arguments : List String) : IO UInt32 := do
  let result ← match arguments with
    | "render" :: rest => CommandLine.render rest
    | "lint" :: rest => CommandLine.lint rest
    | _ => pure (.failure CommandLine.usage)
  (← IO.getStdout).putStr result.output
  (← IO.getStderr).putStr result.errors
  return UInt32.ofNat result.exitCode
