import BranchText.Source.Position
import BranchText.Text.Alphabet
import BranchText.Warning

/-!
# Reports

A report shows a message and the place in a source text that it is about: a header with file, line
and column, the line itself, and a mark under it that leads to the message again. Lines and columns
of reports count characters and break at every line terminator of Unicode. A place at the end of
the text shows no line; a line break at the very end does not start another line.
-/

namespace BranchText

/-- How serious a report is. -/
inductive Severity where
  | error
  | warning
  deriving Repr, DecidableEq

/-- The word a report starts with. -/
def Severity.name : Severity → String
  | error => "Error"
  | warning => "Warning"

namespace Report

/-- Whether a character ends a line. -/
def endsLine (c : Char) : Bool :=
  c = '\r' || c = '\n' || c = '\x0b' || c = '\x0c' || c = '\u0085' || c = '\u2028' || c = '\u2029'

/-- The lines of a text, with their ends. A carriage return and a line feed end one line. -/
def lines : List Char → List (List Char)
  | [] => []
  | '\r' :: '\n' :: rest => ['\r', '\n'] :: lines rest
  | c :: rest =>
    if endsLine c then [c] :: lines rest
    else
      match lines rest with
      | [] => [[c]]
      | line :: later => (c :: line) :: later

/-- Where a character stands: the index of its line, its index in that line, and the line. -/
structure Place where
  line : Nat
  column : Nat
  text : List Char

/-- The place of the character with this index, which is at most the number of characters. -/
def placeIn (line : Nat) : List (List Char) → Nat → Place
  | [], index => ⟨line, index, []⟩
  | [last], index => ⟨line, index, last⟩
  | first :: later, index =>
    if index < first.length then ⟨line, index, first⟩
    else placeIn (line + 1) later (index - first.length)

/-- A text without the white space at its end. -/
def dropEnd (text : List Char) : List Char :=
  (text.reverse.dropWhile Alphabet.unicode.isWhitespace).reverse

/-- A number of equal characters. -/
def run (count : Nat) (c : Char) : List Char := List.replicate count c

/-- The marked line, the mark under it and the message that the mark leads to. -/
def labelLines (margin number : List Char) (place : Place) (width : Nat) (message : List Char) :
    List (List Char) :=
  let middle := width / 2
  [' ' :: number ++ [' ', '│', ' '] ++ dropEnd place.text,
    margin ++ run place.column ' ' ++ run middle '─' ++ ['┬'] ++ run (width - middle - 1) '─'
      ++ [' ', ' '],
    margin ++ run (place.column + middle) ' ' ++ ['╰'] ++ run (width - middle + 1) '─' ++ [' ']
      ++ message]

/-- Lines, each with its end. -/
def joined (lines : List (List Char)) : String := String.ofList (lines.flatMap (· ++ ['\n']))

/-- The report for a message about the bytes from `start` to `stop`. A place is at least one
character wide. -/
def write (source filename : String) (severity : Severity) (start stop : Nat) (message : String) :
    String :=
  let chars := source.toList
  let first := (charsBefore chars start).length
  let width := max (charsBefore chars stop).length (first + 1) - first
  let place := placeIn 1 (lines chars) first
  let number := (toString place.line).toList
  let blank := run (number.length + 2) ' '
  let margin := blank ++ ['│', ' ']
  let header := severity.name.toList ++ [':', ' '] ++ message.toList
  let location := blank ++ ['╭', '─', '[', ' '] ++ filename.toList ++ [':'] ++ number ++ [':']
    ++ (toString (place.column + 1)).toList ++ [' ', ']']
  let label :=
    if first < chars.length then labelLines margin number place width message.toList else [margin]
  joined ([header, location, blank ++ ['│']] ++ label ++ [run (number.length + 2) '─' ++ ['╯']])

/-- The reports for warnings. -/
def writeAll (source filename : String) (warnings : List Warning) : String :=
  String.join (warnings.map fun warning =>
    write source filename .warning warning.offset (warning.offset + 1) warning.display)

end Report

end BranchText
