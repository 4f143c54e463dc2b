import BranchText.Disk.Path

/-!
# Files

What a program that reads text files can see: `Files` answers for a path with the text of a file
or with the reason why there is none. `Tree` is a directory held in memory that answers as the
directory on a disk would.
-/

namespace BranchText

/-- Why a file could not be read. -/
inductive ReadFailure where
  | notFound
  | isDirectory
  | notDirectory
  | invalidText
  /-- Any other reason, in the words of the system. -/
  | other (reason : String)
  deriving Repr, DecidableEq

namespace ReadFailure

/-- The words of the system for a failure. -/
def message : ReadFailure → String
  | notFound => "No such file or directory (os error 2)"
  | isDirectory => "Is a directory (os error 21)"
  | notDirectory => "Not a directory (os error 20)"
  | invalidText => "stream did not contain valid UTF-8"
  | other reason => reason

end ReadFailure

/-- What reading the file at a path gives. -/
abbrev Files := String → Except ReadFailure String

/-- What a path names, to a program that goes through directories. -/
inductive Listing where
  | missing
  | file
  /-- A directory, with the paths of all files below it. -/
  | directory (below : List String)
  deriving Repr, DecidableEq

/-- A file or a directory in memory, named by the path from the directory that holds all. -/
structure TreeEntry where
  path : List String
  /-- The bytes of a file; directories have none. -/
  content : Option ByteArray

/-- A directory in memory. -/
structure Tree where
  entries : List TreeEntry

namespace Tree

/-- The entry for a path as it was written; a slash at the end makes it a directory. -/
def entryOf (path : String) (content : ByteArray) : TreeEntry :=
  let names := (Path.components path).filterMap fun
    | .name text => some text
    | _ => none
  ⟨names, if path.toList.getLast? = some '/' then none else some content⟩

/-- What is found at a place. -/
inductive Found where
  | file (content : ByteArray)
  | directory
  | nothing

/-- What is at the place with these names below the top. -/
def find (tree : Tree) (names : List String) : Found :=
  match tree.entries.find? (·.path = names) with
  | some ⟨_, some content⟩ => .file content
  | some ⟨_, none⟩ => .directory
  | none =>
    if names.isEmpty || tree.entries.any (fun entry => names.isPrefixOf entry.path) then .directory
    else .nothing

/-- Where a walk along a path stands. -/
inductive Place where
  /-- Inside the tree, at these names. -/
  | inside (names : List String)
  /-- In a directory that holds the tree, directly or not. -/
  | outside

/-- One step of a walk. Only directories can be stepped through. -/
def stepTo (tree : Tree) (place : Place) (segment : List Char) : Except ReadFailure Place :=
  match place with
  | .outside => if segment = ['.', '.'] || segment = ['.'] || segment = [] then .ok .outside
    else .error .notFound
  | .inside names =>
    match tree.find names with
    | .nothing => .error .notFound
    | .file _ => .error .notDirectory
    | .directory =>
      if segment = [] || segment = ['.'] then .ok place
      else if segment = ['.', '.'] then
        if names.isEmpty then .ok .outside else .ok (.inside names.dropLast)
      else .ok (.inside (names ++ [String.ofList segment]))

/-- The place that a path leads to. -/
def walk (tree : Tree) (path : String) : Except ReadFailure Place :=
  if path.isEmpty then .error .notFound
  else
    (Path.segments path.toList).foldlM tree.stepTo
      (if Path.isAbsolute path then .outside else .inside [])

/-- What a path leads to. -/
def look (tree : Tree) (path : String) : Except ReadFailure Found :=
  match tree.walk path with
  | .error failure => .error failure
  | .ok .outside => .ok .directory
  | .ok (.inside names) => .ok (tree.find names)

/-- Reads a file of the tree. -/
def files (tree : Tree) : Files := fun path =>
  match tree.look path with
  | .error failure => .error failure
  | .ok .nothing => .error .notFound
  | .ok .directory => .error .isDirectory
  | .ok (.file content) =>
    match String.fromUTF8? content with
    | some text => .ok text
    | none => .error .invalidText

/-- The paths of all files below the place with these names, as seen from the path of that place. -/
def filesBelow (tree : Tree) (names : List String) (directory : String) : List String :=
  tree.entries.filterMap fun entry =>
    if names.isPrefixOf entry.path && entry.content.isSome then
      some ((entry.path.drop names.length).foldl Path.join directory)
    else none

/-- What a path names. -/
def list (tree : Tree) (path : String) : Listing :=
  match tree.walk path with
  | .error _ => .missing
  | .ok .outside => .directory []
  | .ok (.inside names) =>
    match tree.find names with
    | .nothing => .missing
    | .file _ => .file
    | .directory => .directory (tree.filesBelow names path)

end Tree

end BranchText
