/-!
# Scanning text

A scan takes something off the front of a text, or fails. Scans are put together in sequence, and
`Scan.separated` repeats one between commas.
-/

namespace BranchText

/-- Takes something off the front of a text. -/
abbrev Scan (α : Type) := StateT (List Char) Option α

namespace Scan

variable {α : Type}

/-- Takes nothing and fails. -/
def fail : Scan α := fun _ => none

/-- The next character, which is not taken. -/
def peek? : Scan (Option Char) := return (← get).head?

/-- Takes the next character. -/
def next : Scan Char := fun text =>
  match text with
  | [] => none
  | c :: rest => some (c, rest)

/-- Takes the given text if it comes next, and says whether it did. -/
def accept (expected : List Char) : Scan Bool := fun text =>
  if expected.isPrefixOf text then some (true, text.drop expected.length) else some (false, text)

/-- Takes the given text, which has to come next. -/
def require (expected : List Char) : Scan Unit := do
  if ← accept expected then return else fail

/-- Takes characters as long as they are of a kind. -/
def takeWhile (kind : Char → Bool) : Scan (List Char) := fun text =>
  some (text.takeWhile kind, text.dropWhile kind)

/-- Takes a given number of characters. -/
def take : Nat → Scan (List Char)
  | 0 => return []
  | count + 1 => do
    let first ← next
    return first :: (← take count)

/-- A value that must be there. -/
def some? : Option α → Scan α
  | some value => return value
  | none => fail

/-- Whether a scan would succeed here; it takes nothing. -/
def succeeds (scan : Scan Unit) : Scan Bool := fun text => some ((scan text).isSome, text)

/-- Takes the closing character after a comma, if it may come there and does. -/
def ends (trailing : Bool) (closing : Char) : Scan Bool :=
  if trailing then accept [closing] else return false

/-- At most `limit` elements up to the closing character, with commas between them and `blanks`
around everything. -/
def separatedUpTo (trailing : Bool) (blanks : Scan Unit) (closing : Char) (element : Scan α) :
    Nat → Scan (List α)
  | 0 => fail
  | limit + 1 => do
    let first ← element
    blanks
    if ← accept [','] then
      blanks
      if ← ends trailing closing then return [first]
      else return first :: (← separatedUpTo trailing blanks closing element limit)
    else
      require [closing]
      return [first]

/-- Elements up to the closing character, with commas between them; `trailing` allows one comma
after the last. Every element takes a character, so there are no more of them than characters. -/
def separated (trailing : Bool) (blanks : Scan Unit) (closing : Char) (element : Scan α) :
    Scan (List α) := do
  blanks
  if ← accept [closing] then return []
  else separatedUpTo trailing blanks closing element ((← get).length + 1)

/-- What a scan takes off a text, if it takes all of it. -/
def whole? (scan : Scan α) (text : List Char) : Option α :=
  match scan text with
  | some (value, []) => some value
  | _ => none

end Scan

end BranchText
