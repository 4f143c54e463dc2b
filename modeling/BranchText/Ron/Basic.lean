import BranchText.Decimal.Style
import BranchText.Text.Literal

/-!
# Object notation

RON, the notation that settings are kept in and documents are dumped in. A `Ron` value is written
on one line by `Ron.compact`, and one field or element per line by `Ron.pretty`.
-/

namespace BranchText

/-- A value of the notation. -/
inductive Ron where
  | bool (value : Bool)
  | natural (value : Nat)
  /-- An integer with a sign in front. -/
  | signed (value : Int)
  | double (value : Float)
  | text (value : String)
  | character (value : Char)
  /-- Nothing, where a value may be absent. -/
  | absent
  /-- A value that may be absent and is not. -/
  | present (value : Ron)
  /-- A name that stands alone. -/
  | word (name : String)
  | list (items : List Ron)
  | map (entries : List (Ron × Ron))
  /-- Values between parentheses, after a name or without one. -/
  | tuple (name : Option String) (items : List Ron)
  /-- Named fields between parentheses, after a name or without one. -/
  | record (name : Option String) (fields : List (String × Ron))

namespace Ron

/-- A record without a name. -/
def fields (fields : List (String × Ron)) : Ron := .record none fields

/-- A constructor with one argument. -/
def variant (name : String) (value : Ron) : Ron := .tuple (some name) [value]

/-- A value that may be absent. -/
def ofOption {α : Type} (encode : α → Ron) : Option α → Ron
  | none => .absent
  | some value => .present (encode value)

/-- Values without parts. -/
def atom : Ron → String
  | .bool value => if value then "true" else "false"
  | .natural value => toString value
  | .signed value => toString value
  | .double value => Decimal.write .objectNotation value
  | .text value => literal value
  | .character value => String.ofList ('\'' :: Literal.escape value ++ ['\''])
  | .word name => name
  | _ => "None"

/-- Joins texts with commas. -/
def commaSeparated (texts : List String) : String := String.intercalate "," texts

mutual

/-- Writes a value on one line, without blanks. -/
def compact : Ron → String
  | .present value => "Some(" ++ value.compact ++ ")"
  | .list items => "[" ++ commaSeparated (compactItems items) ++ "]"
  | .map entries => "\x7b" ++ commaSeparated (compactEntries entries) ++ "\x7d"
  | .tuple name items => name.getD "" ++ "(" ++ commaSeparated (compactItems items) ++ ")"
  | .record name fields => name.getD "" ++ "(" ++ commaSeparated (compactFields fields) ++ ")"
  | .bool value => atom (.bool value)
  | .natural value => atom (.natural value)
  | .signed value => atom (.signed value)
  | .double value => atom (.double value)
  | .text value => atom (.text value)
  | .character value => atom (.character value)
  | .word name => atom (.word name)
  | .absent => atom .absent

/-- The elements of a list on one line each. -/
def compactItems : List Ron → List String
  | [] => []
  | item :: rest => item.compact :: compactItems rest

/-- The entries of a map. -/
def compactEntries : List (Ron × Ron) → List String
  | [] => []
  | (key, value) :: rest => (key.compact ++ ":" ++ value.compact) :: compactEntries rest

/-- The fields of a record. -/
def compactFields : List (String × Ron) → List String
  | [] => []
  | (name, value) :: rest => (name ++ ":" ++ value.compact) :: compactFields rest

end

/-- The indentation of a nesting depth: four spaces for each level. -/
def indent (depth : Nat) : String := String.ofList (List.replicate (4 * depth) ' ')

/-- Lines between brackets, each with a comma after it, or the brackets alone. -/
def bracketed (opening closing : String) (depth : Nat) (lines : List String) : String :=
  if lines.isEmpty then opening ++ closing
  else
    opening ++ "\n"
      ++ String.join (lines.map fun line => indent (depth + 1) ++ line ++ ",\n")
      ++ indent depth ++ closing

mutual

/-- Writes a value at a nesting depth, one field or element per line; tuples stay on theirs. -/
def prettyAt (depth : Nat) : Ron → String
  | .present value => "Some(" ++ prettyAt depth value ++ ")"
  | .list items => bracketed "[" "]" depth (prettyItems (depth + 1) items)
  | .map entries => bracketed "\x7b" "\x7d" depth (prettyEntries (depth + 1) entries)
  | .tuple name items =>
    name.getD "" ++ "(" ++ String.intercalate ", " (prettyItems depth items) ++ ")"
  | .record name fields => name.getD "" ++ bracketed "(" ")" depth (prettyFields (depth + 1) fields)
  | .bool value => atom (.bool value)
  | .natural value => atom (.natural value)
  | .signed value => atom (.signed value)
  | .double value => atom (.double value)
  | .text value => atom (.text value)
  | .character value => atom (.character value)
  | .word name => atom (.word name)
  | .absent => atom .absent

/-- The elements of a list. -/
def prettyItems (depth : Nat) : List Ron → List String
  | [] => []
  | item :: rest => prettyAt depth item :: prettyItems depth rest

/-- The entries of a map. -/
def prettyEntries (depth : Nat) : List (Ron × Ron) → List String
  | [] => []
  | (key, value) :: rest =>
    (prettyAt depth key ++ ": " ++ prettyAt depth value) :: prettyEntries depth rest

/-- The fields of a record. -/
def prettyFields (depth : Nat) : List (String × Ron) → List String
  | [] => []
  | (name, value) :: rest => (name ++ ": " ++ prettyAt depth value) :: prettyFields depth rest

end

/-- Writes a value with one field or element per line. -/
def pretty (value : Ron) : String := prettyAt 0 value

end Ron

end BranchText
