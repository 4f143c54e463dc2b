/-!
# Cursors

Sources are measured in bytes of their UTF-8 form and read character by character. A `Cursor` is
a place between two characters: the byte offset of the place and the characters that follow it.
`Cursor.at?` finds the cursor at a byte offset, and has an answer exactly at character boundaries.
-/

namespace BranchText

/-- The number of bytes the characters take in UTF-8. -/
def byteLength : List Char → Nat
  | [] => 0
  | c :: rest => c.utf8Size + byteLength rest

@[simp]
theorem byteLength_nil : byteLength [] = 0 := rfl

@[simp]
theorem byteLength_cons (c : Char) (rest : List Char) :
    byteLength (c :: rest) = c.utf8Size + byteLength rest := rfl

@[simp]
theorem byteLength_append (front back : List Char) :
    byteLength (front ++ back) = byteLength front + byteLength back := by
  induction front with
  | nil => simp
  | cons c rest ih => simp [ih, Nat.add_assoc]

/-- A place in a source: its byte offset and the characters after it. -/
structure Cursor where
  offset : Nat
  rest : List Char
  deriving Repr, DecidableEq

namespace Cursor

/-- The cursor before the first character. -/
def start (source : List Char) : Cursor := ⟨0, source⟩

/-- How many characters are left to read. -/
def size (cursor : Cursor) : Nat := cursor.rest.length

/-- The byte offset at which the source ends. -/
def stop (cursor : Cursor) : Nat := cursor.offset + byteLength cursor.rest

/-- The cursor `count` characters further on, or the end if there are fewer. -/
def skip (cursor : Cursor) (count : Nat) : Cursor :=
  ⟨cursor.offset + byteLength (cursor.rest.take count), cursor.rest.drop count⟩

@[simp]
theorem size_skip (cursor : Cursor) (count : Nat) :
    (cursor.skip count).size = cursor.size - count := by
  simp [skip, size]

theorem size_skip_le (cursor : Cursor) (count : Nat) : (cursor.skip count).size ≤ cursor.size := by
  simp

/-- Skipping characters does not move the end of the source. -/
theorem stop_skip (cursor : Cursor) (count : Nat) : (cursor.skip count).stop = cursor.stop := by
  have split : byteLength cursor.rest
      = byteLength (cursor.rest.take count) + byteLength (cursor.rest.drop count) := by
    rw [← byteLength_append, List.take_append_drop]
  simp only [skip, stop, split, Nat.add_assoc]

/-- The text from one cursor up to a later one. -/
def textUntil (cursor later : Cursor) : List Char :=
  cursor.rest.take (cursor.size - later.size)

/-- The cursor at a byte offset, or `none` past the end and inside a character. -/
def at? (source : List Char) (offset : Nat) : Option Cursor :=
  go 0 source
where
  go (here : Nat) (rest : List Char) : Option Cursor :=
    if here = offset then some ⟨here, rest⟩
    else match rest with
      | [] => none
      | c :: rest => go (here + c.utf8Size) rest

/-- The place to resume from at any byte offset: the first boundary at or after it, with the
character that the offset splits, if it splits one. -/
def resume (source : List Char) (offset : Nat) : Cursor × Option Char :=
  go 0 none source
where
  go (here : Nat) (before : Option Char) (rest : List Char) : Cursor × Option Char :=
    if offset ≤ here then (⟨here, rest⟩, if here = offset then none else before)
    else match rest with
      | [] => (⟨here, []⟩, none)
      | c :: rest => go (here + c.utf8Size) (some c) rest

end Cursor

end BranchText
