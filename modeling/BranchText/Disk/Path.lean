/-!
# Paths

Paths are kept as they were written. Joining puts one path behind another, or replaces it if the
second is absolute; nothing is resolved. Two paths name the same document when they have the same
components: repeated slashes, inner dots and a slash at the end do not count.
-/

namespace BranchText

namespace Path

/-- Whether a path starts at the root. -/
def isAbsolute (path : String) : Bool := path.toList.head? = some '/'

/-- A path behind a directory. -/
def join (directory path : String) : String :=
  if isAbsolute path then path
  else
    match directory.toList.getLast? with
    | none => path
    | some '/' => directory ++ path
    | some _ => directory ++ "/" ++ path

/-- The parts between slashes, empty ones included. -/
def segments : List Char → List (List Char)
  | [] => [[]]
  | c :: rest =>
    if c = '/' then [] :: segments rest
    else
      match segments rest with
      | [] => [[c]]
      | part :: parts => (c :: part) :: parts

/-- A part of a path that matters to what it names. -/
inductive Component where
  | root
  /-- A dot at the very start. -/
  | here
  | parent
  | name (text : String)
  deriving Repr, DecidableEq

/-- What a part after the first stands for; empty parts and dots stand for nothing. -/
def component? (segment : List Char) : Option Component :=
  if segment = [] || segment = ['.'] then none
  else if segment = ['.', '.'] then some .parent
  else some (.name (String.ofList segment))

/-- The components of a path. -/
def components (path : String) : List Component :=
  let parts := segments path.toList
  let start : List Component :=
    if isAbsolute path then [.root]
    else if parts.head? = some ['.'] then [.here]
    else []
  start ++ parts.filterMap component?

/-- The rank of a kind of component in the order of paths. -/
def Component.rank : Component → Nat
  | .root => 0
  | .here => 1
  | .parent => 2
  | .name _ => 3

/-- Whether a component comes before another one in the order of paths. -/
def Component.precedes (first second : Component) : Bool :=
  match first, second with
  | .name first, .name second => first < second
  | first, second => first.rank < second.rank

/-- Whether a path, by its components, comes before another one or is the same. -/
def precedes : List Component → List Component → Bool
  | [], _ => true
  | _ :: _, [] => false
  | first :: firsts, second :: seconds =>
    first.precedes second || (first = second && precedes firsts seconds)

/-- Drops slashes and dots at the end that stand for nothing, from a path that is kept last
character first. -/
def dropIdleEnd : List Char → List Char
  | ['/'] => ['/']
  | '/' :: rest => dropIdleEnd rest
  | '.' :: '/' :: rest => dropIdleEnd ('/' :: rest)
  | path => path
termination_by path => path.length

/-- The path without its last component; the root and the empty path have none to lose. -/
def parent? (path : String) : Option String :=
  match dropIdleEnd path.toList.reverse with
  | [] => none
  | ['/'] => none
  | trimmed => some (String.ofList (dropIdleEnd (trimmed.dropWhile (· ≠ '/'))).reverse)

/-- The last component, if it is a name. -/
def fileName? (path : String) : Option String :=
  match (components path).getLast? with
  | some (.name text) => some text
  | _ => none

/-- What follows the last dot of the file name, if a name stands before that dot. -/
def extension? (path : String) : Option String := do
  let name ← fileName? path
  let reversed := name.toList.reverse
  match reversed.dropWhile (· ≠ '.') with
  | _ :: _ :: _ => some (String.ofList (reversed.takeWhile (· ≠ '.')).reverse)
  | _ => none

end Path

end BranchText
