import BranchText.Decimal.Nearest
import BranchText.Decimal.Style
import BranchText.Script.Syntax
import BranchText.Text.Literal

/-!
# The values of scripts

Scripts compute with integers of 64 bits, doubles, truth values, texts, lists, objects and
functions. `Value.display` is the text that a value puts into a document; inside lists and objects
texts are quoted, so there `Value.element` is used.
-/

namespace BranchText

namespace Script

/-- A function as a value. A closure comes with the cells of the variables that it took along. -/
inductive Callable where
  | named (name : String)
  | closure (parameters : List String) (body : List Statement) (captured : List (String × Nat))
  deriving Repr

mutual

/-- A value of a script. -/
inductive Value where
  | unit
  | boolean (value : Bool)
  | integer (value : Int)
  | double (value : Float)
  | text (value : String)
  | array (items : List Value)
  /-- The entries are in ascending order of their keys. -/
  | object (entries : List Entry)
  | function (callable : Callable)

/-- A key of an object with its value. -/
structure Entry where
  key : String
  value : Value

end

deriving instance Repr, Inhabited for Value, Entry

/-- The text of a function. -/
def Callable.display : Callable → String
  | .named name => "Fn(" ++ name ++ ")"
  | .closure _ _ _ => "Fn(closure)"

mutual

/-- How a value is shown inside a list or an object. -/
def Value.element : Value → String
  | .unit => "()"
  | .boolean value => if value then "true" else "false"
  | .integer value => toString value
  | .double value => Decimal.write .scriptElement value
  | .text value => literal value
  | .array items => "[" ++ String.intercalate ", " (elementsOf items) ++ "]"
  | .object entries => "#" ++ "\x7b" ++ String.intercalate ", " (entriesOf entries) ++ "\x7d"
  | .function callable => callable.display

/-- How the items of a list are shown. -/
def elementsOf : List Value → List String
  | [] => []
  | item :: rest => item.element :: elementsOf rest

/-- How the entries of an object are shown. -/
def entriesOf : List Entry → List String
  | [] => []
  | ⟨key, value⟩ :: rest => (literal key ++ ": " ++ value.element) :: entriesOf rest

end

/-- The text that a value puts into a document. -/
def Value.display : Value → String
  | .unit => ""
  | .double value => Decimal.write .scriptText value
  | .text value => value
  | value => value.element

/-- The double nearest to an integer. -/
def doubleOf (value : Int) : Float :=
  let magnitude := Decimal.nearestDouble value.natAbs 1
  if value < 0 then -magnitude else magnitude

/-- A number as a double. -/
def Value.number? : Value → Option Float
  | .double value => some value
  | .integer value => some (doubleOf value)
  | _ => none

mutual

/-- Whether two values are equal. Integers and doubles are compared as numbers; apart from them,
values of different kinds differ, and functions differ from everything. -/
def Value.same : Value → Value → Bool
  | .unit, .unit => true
  | .boolean left, .boolean right => left == right
  | .integer left, .integer right => left == right
  | .integer left, .double right => doubleOf left == right
  | .double left, .integer right => left == doubleOf right
  | .double left, .double right => left == right
  | .text left, .text right => left == right
  | .array left, .array right => sameItems left right
  | .object left, .object right => sameEntries left right
  | _, _ => false

/-- Whether two lists are equal. -/
def sameItems : List Value → List Value → Bool
  | [], [] => true
  | left :: lefts, right :: rights => left.same right && sameItems lefts rights
  | _, _ => false

/-- Whether two objects are equal. -/
def sameEntries : List Entry → List Entry → Bool
  | [], [] => true
  | ⟨key, left⟩ :: lefts, ⟨other, right⟩ :: rights =>
    key == other && left.same right && sameEntries lefts rights
  | _, _ => false

end

/-- Puts an entry at its place among entries in ascending order. -/
def insertEntry (entry : Entry) : List Entry → List Entry
  | [] => [entry]
  | first :: rest =>
    if entry.key < first.key then entry :: first :: rest
    else if first.key < entry.key then first :: insertEntry entry rest
    else entry :: rest

/-- An object with these entries. -/
def Value.ofEntries (entries : List Entry) : Value :=
  .object (entries.foldl (fun sorted entry => insertEntry entry sorted) [])

/-- The value under a key. -/
def valueAt? (key : String) (entries : List Entry) : Option Value :=
  (entries.find? (·.key = key)).map (·.value)

end Script

end BranchText
