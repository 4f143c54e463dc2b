import BranchText.Decimal.Number
import BranchText.Ron.Basic
import BranchText.Text.Hex
import BranchText.Text.Scan

/-!
# Reading object notation

Values may stand among blanks and comments, and lists may end in a comma. Extensions at the start
of a text change how values are read; with `implicit_some`, a value alone can stand for a present
one. Values are nested at most `Ron.depthLimit` deep.
-/

namespace BranchText

namespace Ron

/-- A text that was read: its value, and whether a present value may stand alone. -/
structure Source where
  impliesSome : Bool
  value : Ron

namespace Reader

/-- Whether a character is a blank. -/
def isBlank (c : Char) : Bool := c = ' ' || c = '\t' || c = '\n' || c = '\r'

/-- Whether a character can start a name. -/
def startsName (c : Char) : Bool := c.isAlpha || c = '_'

/-- Whether a character can continue a name. -/
def continuesName (c : Char) : Bool := c.isAlphanum || c = '_'

/-- Whether a character can continue a name that is marked as raw. -/
def continuesRawName (c : Char) : Bool := continuesName c || c = '.' || c = '+' || c = '-'

/-- The text after a comment and the blanks before it; the text itself if there is no comment.
Nothing if a comment is not closed or a slash starts none. -/
def afterBlanks? (limit : Nat) (text : List Char) : Option (List Char) :=
  match limit, text.dropWhile isBlank with
  | limit + 1, '/' :: '/' :: rest => afterBlanks? limit (rest.dropWhile (· ≠ '\n'))
  | limit + 1, '/' :: '*' :: rest => do afterBlanks? limit (← afterComment? 0 rest)
  | _, '/' :: _ => none
  | _, rest => some rest
where
  /-- The text after a block comment; comments nest. -/
  afterComment? (depth : Nat) : List Char → Option (List Char)
    | '/' :: '*' :: rest => afterComment? (depth + 1) rest
    | '*' :: '/' :: rest =>
      match depth with
      | 0 => some rest
      | depth + 1 => afterComment? depth rest
    | _ :: rest => afterComment? depth rest
    | [] => none

/-- Takes blanks and comments. -/
def blanks : Scan Unit := fun text => (afterBlanks? text.length text).map fun rest => ((), rest)

/-- Takes a comma with the blanks around it, if there is one. -/
def comma : Scan Bool := do
  blanks
  if ← Scan.accept [','] then
    blanks
    return true
  else return false

/-- Takes a name, if one comes next. The start of a raw text is no name, and a name that goes on
with characters of a raw one is an error. -/
def name? : Scan (Option String) := fun text =>
  match text with
  | 'r' :: '\x22' :: _ => some (none, text)
  | 'r' :: '#' :: rest =>
    if (rest.head?.map continuesRawName).getD false then
      some (some (String.ofList (rest.takeWhile continuesRawName)), rest.dropWhile continuesRawName)
    else some (none, text)
  | c :: _ =>
    if startsName c then
      let name := text.takeWhile continuesName
      if name.length < (text.takeWhile continuesRawName).length then none
      else some (some (String.ofList name), text.dropWhile continuesName)
    else some (none, text)
  | [] => some (none, text)

/-- Takes a word if it comes next and no longer name does. -/
def word (expected : String) : Scan Bool := fun text =>
  let rest := text.drop expected.length
  if expected.toList.isPrefixOf text && !(rest.head?.map continuesName).getD false then
    some (true, rest)
  else some (false, text)

/-- Whether a character can stand in an integer, in any base. -/
def inInteger (c : Char) : Bool := (Hex.value? c).isSome || c = '_'

/-- Whether a character can stand in a number with a fraction or an exponent. -/
def inDouble (c : Char) : Bool :=
  Decimal.isDigit c || c = 'e' || c = 'E' || c = '.' || c = '+' || c = '-' || c = '_'

/-- The digits of an integer in a base; underscores between digits do not count. -/
def integerOf? (base : Nat) (digits : List Char) : Option Nat :=
  match digits with
  | [] => none
  | '_' :: _ => none
  | digits => do
    let values ← (digits.filter (· ≠ '_')).mapM Hex.value?
    if values.all (· < base) then
      some (values.foldl (fun number value => base * number + value) 0)
    else none

/-- Takes an integer without a sign. -/
def integer : Scan Nat := do
  let base : Nat ←
    if ← Scan.accept ['0', 'x'] then pure 16
    else if ← Scan.accept ['0', 'b'] then pure 2
    else if ← Scan.accept ['0', 'o'] then pure 8
    else pure 10
  Scan.some? (integerOf? base (← Scan.takeWhile inInteger))

/-- The double that the characters of a number stand for. -/
def doubleOf? (text : List Char) : Option Float :=
  let (negative, body) := match text with
    | '-' :: rest => (true, rest)
    | '+' :: rest => (false, rest)
    | rest => (false, rest)
  let whole := body.takeWhile Decimal.isDigit
  let (fraction, rest) := match body.dropWhile Decimal.isDigit with
    | '.' :: rest => (rest.takeWhile Decimal.isDigit, rest.dropWhile Decimal.isDigit)
    | rest => ([], rest)
  let exponent? : Option (List Char) := match rest with
    | [] => some []
    | e :: rest =>
      let digits := match rest with
        | '-' :: digits => digits
        | '+' :: digits => digits
        | digits => digits
      if (e = 'e' || e = 'E') && !digits.isEmpty && digits.all Decimal.isDigit then some rest
      else none
  if whole.isEmpty && fraction.isEmpty then none
  else exponent?.map fun exponent =>
    let magnitude := Decimal.nearestToParts whole fraction exponent
    if negative then -magnitude else magnitude

/-- Takes a number. It is a double if more of its characters can stand in one than in an integer.
Integers have 64 bits. -/
def number : Scan Ron := do
  let text ← get
  let body := match text with
    | '+' :: rest => rest
    | '-' :: rest => rest
    | rest => rest
  if (body.takeWhile inInteger).length < (body.takeWhile inDouble).length then
    return .double (← Scan.some? (doubleOf? (← Scan.takeWhile inDouble)))
  else if ← Scan.accept ['-'] then
    let value ← integer
    if value ≤ UInt64.size / 2 then return .signed (-(value : Int)) else Scan.fail
  else if ← Scan.accept ['+'] then
    let value ← integer
    if value < UInt64.size / 2 then return .signed value else Scan.fail
  else
    let value ← integer
    if value < UInt64.size then return .natural value else Scan.fail

/-- Takes an escape after its backslash. -/
def escape : Scan Char := do
  match ← Scan.next with
  | '\'' => return '\''
  | '\x22' => return '\x22'
  | '\\' => return '\\'
  | 'n' => return '\n'
  | 'r' => return '\r'
  | 't' => return '\t'
  | '0' => return '\x00'
  | 'x' =>
    let digits ← Scan.take 2
    Scan.some? (do Hex.char? (← Hex.number? digits))
  | 'u' =>
    Scan.require ['\x7b']
    let digits ← Scan.takeWhile (· ≠ '\x7d')
    Scan.require ['\x7d']
    if digits.isEmpty || 6 < digits.length then Scan.fail
    else Scan.some? (do Hex.char? (← Hex.number? digits))
  | _ => Scan.fail

/-- Takes the characters of a text up to its closing quote, at most `limit` of them. -/
def quotedUpTo : Nat → Scan (List Char)
  | 0 => Scan.fail
  | limit + 1 => do
    match ← Scan.next with
    | '\x22' => return []
    | '\\' =>
      let c ← escape
      return c :: (← quotedUpTo limit)
    | c => return c :: (← quotedUpTo limit)

/-- Takes the characters of a raw text up to the ending, at most `limit` of them. -/
def rawUpTo (ending : List Char) : Nat → Scan (List Char)
  | 0 => Scan.fail
  | limit + 1 => do
    if ← Scan.accept ending then return []
    else
      let c ← Scan.next
      return c :: (← rawUpTo ending limit)

/-- Takes a text, plain or raw. -/
def text : Scan String := do
  let limit := (← get).length + 1
  if ← Scan.accept ['\x22'] then return String.ofList (← quotedUpTo limit)
  else
    Scan.require ['r']
    let hashes ← Scan.takeWhile (· = '#')
    Scan.require ['\x22']
    return String.ofList (← rawUpTo ('\x22' :: hashes) limit)

/-- Takes a character between single quotes. -/
def character : Scan Char := do
  Scan.require ['\'']
  let first ← Scan.next
  let c ← if first = '\\' then escape else if first = '\'' then Scan.fail else pure first
  Scan.require ['\'']
  return c

/-- Takes one field of a record. -/
def field (value : Scan Ron) : Scan (String × Ron) := do
  let name ← Scan.some? (← name?)
  blanks
  Scan.require [':']
  blanks
  return (name, ← value)

/-- Takes one entry of a map. -/
def entry (value : Scan Ron) : Scan (Ron × Ron) := do
  let key ← value
  blanks
  Scan.require [':']
  blanks
  return (key, ← value)

/-- Whether a field comes next. -/
def startsField : Scan Bool :=
  Scan.succeeds do
    discard (Scan.some? (← name?))
    blanks
    Scan.require [':']

/-- Takes what stands between parentheses, after the opening one. -/
def parenthesized (name : Option String) (value : Scan Ron) : Scan Ron := do
  blanks
  if ← startsField then
    return .record name (← Scan.separated true blanks ')' (field value))
  else return .tuple name (← Scan.separated true blanks ')' value)

/-- Takes a value that is present, after its mark. -/
def presentValue (impliesSome : Bool) (value : Scan Ron) : Scan Ron := do
  blanks
  if ← Scan.accept ['('] then
    blanks
    let inner ← value
    discard comma
    Scan.require [')']
    return .present inner
  else if impliesSome then return .present (← value)
  else Scan.fail

/-- Takes a value. A value with values inside it is taken by `within`, which gives the scan for
these. -/
def valueWith (impliesSome : Bool) (within : (Scan Ron → Scan Ron) → Scan Ron) : Scan Ron := do
  if ← word "true" then return .bool true
  else if ← word "false" then return .bool false
  else if ← word "Some" then within (presentValue impliesSome)
  else if ← word "None" then return .absent
  else if ← Scan.accept ['(', ')'] then return .tuple none []
  else if ← word "inf" then return .double (Float.ofBits 0x7FF0000000000000)
  else if ← word "NaN" then return .double (Float.ofBits 0x7FF8000000000000)
  else
    match ← name? with
    | some name =>
      blanks
      if ← Scan.accept ['('] then within (parenthesized (some name)) else return .word name
    | none =>
      match ← Scan.peek? with
      | some '(' => do
        discard Scan.next
        within (parenthesized none)
      | some '[' => do
        discard Scan.next
        within fun inner => return .list (← Scan.separated true blanks ']' inner)
      | some '\x7b' => do
        discard Scan.next
        within fun inner => return .map (← Scan.separated true blanks '\x7d' (entry inner))
      | some '\x22' => return .text (← text)
      | some 'r' => return .text (← text)
      | some '\'' => return .character (← character)
      | _ => number

/-- Takes a value with at most `depth` values around each other. -/
def value (impliesSome : Bool) : Nat → Scan Ron
  | 0 => valueWith impliesSome fun _ => Scan.fail
  | depth + 1 => valueWith impliesSome fun container => container (value impliesSome depth)

/-- Takes texts one after another, with blanks between them. -/
def requireAll : List String → Scan Unit
  | [] => return
  | first :: rest => do
    Scan.require first.toList
    blanks
    requireAll rest

/-- The names of extensions. -/
def knownExtensions : List String := ["unwrap_newtypes", "implicit_some", "unwrap_variant_newtypes"]

/-- Takes the names of extensions, at most `limit` of them. -/
def extensionNames : Nat → Scan (List String)
  | 0 => Scan.fail
  | limit + 1 => do
    let name ← Scan.some? (← name?)
    if !knownExtensions.contains name then Scan.fail
    let more ← comma
    if ((← Scan.peek?).map continuesName).getD false then
      if more then return name :: (← extensionNames limit) else Scan.fail
    else return [name]

/-- Takes the extensions at the start of a text, at most `limit` lists of them. -/
def extensions : Nat → Scan (List String)
  | 0 => Scan.fail
  | limit + 1 => do
    blanks
    if (← Scan.peek?) = some '#' then
      requireAll ["#", "!", "[", "enable", "("]
      let names ← extensionNames ((← get).length + 1)
      blanks
      requireAll [")", "]"]
      return names ++ (← extensions limit)
    else return []

end Reader

/-- How deep values can be nested. -/
def depthLimit : Nat := 128

/-- Reads a text that holds one value. -/
def read? (text : List Char) : Option Source :=
  Scan.whole? (do
    let extensions ← Reader.extensions (text.length + 1)
    let impliesSome := extensions.contains "implicit_some"
    let value ← Reader.value impliesSome depthLimit
    Reader.blanks
    return ⟨impliesSome, value⟩) text

end Ron

end BranchText
