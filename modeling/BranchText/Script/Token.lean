import BranchText.Decimal.Number
import BranchText.Script.Syntax
import BranchText.Text.Hex

/-!
# The tokens of scripts

Script text is cut into words, numbers, quoted texts and symbols; blanks and comments are dropped.
A text with anything else in it is no script.
-/

namespace BranchText

namespace Script

/-- The symbols of the language. -/
inductive Symbol where
  | leftParen
  | rightParen
  | leftBracket
  | rightBracket
  | leftBrace
  | rightBrace
  /-- Opens an object. -/
  | hashBrace
  | comma
  | semicolon
  | colon
  | dot
  | range
  | assign
  | increase
  | equal
  | plus
  | minus
  | times
  | slash
  | percent
  | bar
  | doubleBar
  deriving Repr, DecidableEq

/-- A token of a script. -/
inductive Token where
  | word (name : String)
  | integer (value : Int)
  | double (value : Float)
  | text (value : String)
  | symbol (symbol : Symbol)
  deriving Repr

/-- The spellings of symbols, longer ones first where one begins another. -/
def symbols : List (List Char × Symbol) :=
  [(['#', '{'], .hashBrace),
    (['.', '.'], .range),
    (['=', '='], .equal),
    (['+', '='], .increase),
    (['|', '|'], .doubleBar),
    (['('], .leftParen),
    ([')'], .rightParen),
    (['['], .leftBracket),
    ([']'], .rightBracket),
    (['{'], .leftBrace),
    (['}'], .rightBrace),
    ([','], .comma),
    ([';'], .semicolon),
    ([':'], .colon),
    (['.'], .dot),
    (['='], .assign),
    (['+'], .plus),
    (['-'], .minus),
    (['*'], .times),
    (['/'], .slash),
    (['%'], .percent),
    (['|'], .bar)]

/-- Whether a character can start a word. -/
def startsWord (c : Char) : Bool := c.isAlpha || c = '_'

/-- Whether a character can continue a word. -/
def continuesWord (c : Char) : Bool := c.isAlphanum || c = '_'

/-- Whether a character is a blank. -/
def isBlank (c : Char) : Bool := c = ' ' || c = '\t' || c = '\n' || c = '\r'

/-- Drops a block comment after its opening mark; comments nest. Nothing if it is not closed. -/
def afterBlockComment? (depth : Nat) : List Char → Option (List Char)
  | '/' :: '*' :: rest => afterBlockComment? (depth + 1) rest
  | '*' :: '/' :: rest =>
    match depth with
    | 0 => some rest
    | depth + 1 => afterBlockComment? depth rest
  | _ :: rest => afterBlockComment? depth rest
  | [] => none

/-- The character with a code point in hexadecimal digits. -/
def charOfHex? (digits : List Char) : Option Char := do Hex.char? (← Hex.number? digits)

/-- The text between double quotes and what follows the closing one. Two quotes in a row stand for
one inside the text. -/
def quoted? : List Char → Option (List Char × List Char)
  | [] => none
  | '\x22' :: '\x22' :: rest => (quoted? rest).map fun (text, rest) => ('\x22' :: text, rest)
  | '\x22' :: rest => some ([], rest)
  | '\n' :: _ => none
  | '\\' :: 'n' :: rest => (quoted? rest).map fun (text, rest) => ('\n' :: text, rest)
  | '\\' :: 'r' :: rest => (quoted? rest).map fun (text, rest) => ('\r' :: text, rest)
  | '\\' :: 't' :: rest => (quoted? rest).map fun (text, rest) => ('\t' :: text, rest)
  | '\\' :: 'x' :: a :: b :: rest => do
    let c ← charOfHex? [a, b]
    let (text, rest) ← quoted? rest
    return (c :: text, rest)
  | '\\' :: 'u' :: a :: b :: c :: d :: rest => do
    let c ← charOfHex? [a, b, c, d]
    let (text, rest) ← quoted? rest
    return (c :: text, rest)
  | '\\' :: 'U' :: a :: b :: c :: d :: e :: f :: g :: h :: rest => do
    let c ← charOfHex? [a, b, c, d, e, f, g, h]
    let (text, rest) ← quoted? rest
    return (c :: text, rest)
  | '\\' :: c :: rest =>
    if ['\\', '\x22', '\x27', '\x60'].contains c then
      (quoted? rest).map fun (text, rest) => (c :: text, rest)
    else none
  | c :: rest => (quoted? rest).map fun (text, rest) => (c :: text, rest)

/-- Whether a character can stand in a number after its first digit. -/
def continuesDigits (c : Char) : Bool := Decimal.isDigit c || c = '_'

/-- The fraction that a text starts with: its point, and its digits. A point before a word, an
underscore or another point belongs to what follows. -/
def fractionLength (text : List Char) : Nat :=
  match text with
  | '.' :: next :: rest =>
    if Decimal.isDigit next then 1 + ((next :: rest).takeWhile continuesDigits).length
    else if next = '.' || startsWord next then 0
    else 1
  | ['.'] => 1
  | _ => 0

/-- The length of the exponent that a text starts with. -/
def exponentLength (text : List Char) : Nat :=
  match text with
  | e :: rest =>
    if e = 'e' || e = 'E' then
      let signed := match rest with
        | '+' :: rest => (1, rest)
        | '-' :: rest => (1, rest)
        | rest => (0, rest)
      let digits := (signed.2.takeWhile continuesDigits).length
      if digits = 0 then 0 else 1 + signed.1 + digits
    else 0
  | [] => 0

/-- The number written by digits with an optional fraction and exponent. Integers that are too
large become doubles. -/
def numberOf (whole fraction exponent : List Char) : Token :=
  let whole := whole.filter Decimal.isDigit
  let places := fraction.filter Decimal.isDigit
  let digits := Decimal.appendDigits 0 (whole ++ places)
  if fraction.isEmpty && exponent.isEmpty && (digits : Int) ≤ largestInteger then .integer digits
  else .double (Decimal.nearestToParts whole places exponent)

/-- The next token of a text and the rest, which is shorter. -/
structure NextToken (text : List Char) where
  token : Token
  rest : List Char
  shorter : rest.length < text.length

/-- Reads the token at the front of a text that starts with no blank and no comment. -/
def nextToken? (text : List Char) : Option (NextToken text) :=
  match text with
  | [] => none
  | first :: rest =>
    let found : Option (Token × List Char) :=
      if first = '\x22' then
        (quoted? rest).map fun (value, rest) => (.text (String.ofList value), rest)
      else if startsWord first then
        some (.word (String.ofList (first :: rest.takeWhile continuesWord)),
          rest.dropWhile continuesWord)
      else if Decimal.isDigit first then
        let whole := first :: rest.takeWhile continuesDigits
        let after := rest.dropWhile continuesDigits
        let places := fractionLength after
        let afterPlaces := after.drop places
        let size := exponentLength afterPlaces
        some (numberOf whole (after.take places) (afterPlaces.take size), afterPlaces.drop size)
      else
        (symbols.find? fun entry => entry.1.isPrefixOf text).map fun entry =>
          (.symbol entry.2, text.drop entry.1.length)
    match found with
    | none => none
    | some (token, after) =>
      if shorter : after.length < (first :: rest).length then some ⟨token, after, shorter⟩
      else none

theorem length_afterBlockComment {depth : Nat} {text after : List Char}
    (found : afterBlockComment? depth text = some after) : after.length < text.length := by
  fun_induction afterBlockComment? depth text with
  | case1 _ _ ih => have := ih found; simp only [List.length_cons]; omega
  | case2 => cases found; simp only [List.length_cons]; omega
  | case3 _ _ ih => have := ih found; simp only [List.length_cons]; omega
  | case4 _ _ _ _ _ ih => have := ih found; simp only [List.length_cons]; omega
  | case5 => cases found

/-- Drops the rest of a line. -/
def afterLine (text : List Char) : List Char := text.dropWhile (· ≠ '\n')

theorem length_afterLine_le (text : List Char) : (afterLine text).length ≤ text.length :=
  (List.dropWhile_sublist _).length_le

/-- The tokens of a script; nothing if some of its text is no token. -/
def tokenize (text : List Char) : Option (List Token) :=
  match text with
  | [] => some []
  | '/' :: '/' :: rest =>
    have := length_afterLine_le rest
    tokenize (afterLine rest)
  | '/' :: '*' :: rest =>
    match found : afterBlockComment? 0 rest with
    | none => none
    | some after =>
      have := length_afterBlockComment found
      tokenize after
  | c :: rest =>
    if isBlank c then tokenize rest
    else
      match nextToken? (c :: rest) with
      | none => none
      | some next =>
        have : next.rest.length < rest.length + 1 := next.shorter
        (tokenize next.rest).map (next.token :: ·)
termination_by text.length

end Script

end BranchText
