import BranchText.Token.Stream

/-!
# Reading by byte index

The readers of this library walk along the characters of a source. A reader of bytes keeps an index
into the source instead, looks one token ahead, jumps over parts that it has searched byte by byte,
and goes back when a lookahead was in vain. `Indexed` is the kind of computation that such a reader
is, and every access to the source goes through one of the checked ones here: a computation that
accesses a byte past the end, takes a slice that does not lie between two character boundaries of
the source, or jumps to a place that is none, has no value. Nor has one that never ends.
-/

namespace BranchText

/-- A byte as the character with that code point. Only the bytes of ASCII characters are looked
for, and these are the characters themselves. -/
def latin (byte : UInt8) : Char := Char.ofNat byte.toNat

/-- The bytes of a text in UTF-8, as characters. -/
def bytesOf (text : List Char) : List Char := (text.flatMap String.utf8EncodeChar).map latin

/-- A computation on the token stream of a source. -/
abbrev Indexed (α : Type) := StateT Lexer (ExceptT ReadError Option) α

namespace Indexed

variable {α : Type}

/-- An access that is not allowed. -/
def outside : Indexed α := fun _ => (none : Option (Except ReadError (α × Lexer)))

/-- The source that is read. -/
def source : Indexed (List Char) := return (← get).source

/-- The byte index of the next token. -/
def here : Indexed Nat := return (← get).index

/-- The place at a byte index, which has to be a character boundary. -/
def place (index : Nat) : Indexed Cursor := do
  match Cursor.at? (← source) index with
  | some cursor => return cursor
  | none => outside

/-- The byte at an index, which has to be less than the length of the source. -/
def byteAt (index : Nat) : Indexed Char := do
  match (bytesOf (← source))[index]? with
  | some byte => return byte
  | none => outside

/-- The text between two byte indices, which have to be character boundaries in this order. -/
def slice (start stop : Nat) : Indexed (List Char) := do
  let front ← place start
  let back ← place stop
  if start ≤ stop then return front.textUntil back else outside

/-- Jumps to a byte index, which has to be a character boundary. -/
def jump (index : Nat) : Indexed Unit := do
  discard (place index)
  modify fun lexer => lexer.override index

end Indexed

end BranchText
