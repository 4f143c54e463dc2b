import BranchText.Source.Cursor

/-!
# Positions

Readers of messages count lines and columns, both from one, a column being one character wide
whatever its bytes. An offset inside a character, or past the end of the source, stands for the
last character boundary at or before it.
-/

namespace BranchText

/-- The characters that end at or before the byte offset. -/
def charsBefore (source : List Char) (offset : Nat) : List Char :=
  match source with
  | [] => []
  | c :: rest =>
    if c.utf8Size ≤ offset then c :: charsBefore rest (offset - c.utf8Size) else []

/-- A place as people name it. -/
structure Position where
  line : Nat
  column : Nat
  deriving Repr, DecidableEq

namespace Position

/-- The place at the start of every source. -/
def first : Position := ⟨1, 1⟩

/-- The place after one more character. -/
def after (position : Position) (c : Char) : Position :=
  if c = '\n' then ⟨position.line + 1, 1⟩ else ⟨position.line, position.column + 1⟩

/-- The position of a byte offset in a source. -/
def ofOffset (source : List Char) (offset : Nat) : Position :=
  (charsBefore source offset).foldl after first

end Position

end BranchText
