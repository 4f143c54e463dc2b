import BranchText.Document.ReadError
import BranchText.Source.Cursor

/-!
# The extent of a script block

A script block ends at the square bracket that matches the one it starts with. Brackets in
strings, templates, comments and regex literals do not count, so the search follows these. Whether
a slash starts a regex literal depends on the last significant character before it.

`Extent.step` says what one character does, `Extent.find` walks to the closing bracket.
-/

namespace BranchText

namespace Extent

/-- What the search is inside of. -/
inductive Mode where
  | code
  | quoted (quote : Char)
  | template
  | lineComment
  | blockComment
  | regex (inClass : Bool)
  deriving Repr, DecidableEq

/-- After these characters a slash starts a regex literal; after any other it divides. -/
def regexPreceders : List Char :=
  ['(', ',', '=', ':', '[', '!', '&', '|', '?', '{', '}', ';', '+', '-', '*', '%', '<', '>', '~',
    '^']

/-- Blanks, which are never significant. -/
def isInsignificant (c : Char) : Bool :=
  c = ' ' || c = '\t' || c = '\n' || c = '\r' || c = '\x0c'

/-- The state of the search between two characters. -/
structure State where
  mode : Mode
  /-- How many brackets are open beside the one of the block. -/
  depth : Nat
  /-- The last significant character of code. -/
  significant : Option Char
  /-- Where the string, template, comment or regex that the search is inside of was opened. -/
  opened : Nat
  deriving Repr, DecidableEq

namespace State

/-- The state at the start of a body; `before` is a significant character just before it. -/
def initial (body : Nat) (before : Option Char) : State := ⟨.code, 0, before, body⟩

/-- Whether a slash here starts a regex literal. -/
def regexMayStart (state : State) : Bool :=
  match state.significant with
  | none => true
  | some c => regexPreceders.contains c

/-- Enters a construct that starts at an offset. -/
def enter (state : State) (mode : Mode) (offset : Nat) : State :=
  { state with mode := mode, opened := offset }

/-- Goes back to code after a construct whose last character is significant. -/
def leave (state : State) (last : Char) : State :=
  { state with mode := .code, significant := some last }

/-- Passes a character of code. -/
def pass (state : State) (c : Char) : State :=
  if isInsignificant c then state else { state with significant := some c }

end State

/-- What one character does to the search. -/
inductive Step where
  /-- Go on with the next character. -/
  | one (state : State)
  /-- Go on after the next character, which this one takes with it. -/
  | two (state : State)
  /-- This is the closing bracket. -/
  | close
  | fail (error : ReadError)

/-- What a character of code does. -/
def stepCode (state : State) (offset : Nat) (c : Char) (next : Option Char) : Step :=
  if c = '\x22' || c = '\x27' then .one (state.enter (.quoted c) offset)
  else if c = '\x60' then .one (state.enter .template offset)
  else if c = '/' then
    if next = some '/' then .two { state with mode := .lineComment }
    else if next = some '*' then .two (state.enter .blockComment offset)
    else if state.regexMayStart then .one (state.enter (.regex false) offset)
    else .one (state.pass c)
  else if c = '[' then .one { state.pass c with depth := state.depth + 1 }
  else if c = ']' then
    match state.depth with
    | 0 => .close
    | depth + 1 => .one { state.pass c with depth := depth }
  else .one (state.pass c)

/-- What the character at an offset does, given the character after it. -/
def step (state : State) (offset : Nat) (c : Char) (next : Option Char) : Step :=
  match state.mode with
  | .code => stepCode state offset c next
  | .quoted quote =>
    if c = '\\' then .two state
    else if c = '\n' then .fail (.unclosedScript state.opened .string)
    else if c = quote then .one (state.leave c)
    else .one state
  | .template =>
    if c = '\\' then .two state
    else if c = '\x60' then .one (state.leave c)
    else .one state
  | .lineComment => .one (if c = '\n' then { state with mode := .code } else state)
  | .blockComment =>
    if c = '*' && next = some '/' then .two { state with mode := .code } else .one state
  | .regex inClass =>
    if c = '\\' then .two state
    else if c = '\n' then .fail (.unclosedScript state.opened .regex)
    else if c = '[' then .one { state with mode := .regex true }
    else if c = ']' && inClass then .one { state with mode := .regex false }
    else if c = '/' && !inClass then .one (state.leave c)
    else .one state

/-- What an error names when the text ends in this state. -/
def errorAtEnd (opening : Nat) (state : State) : ReadError :=
  match state.mode with
  | .quoted _ | .template => .unclosedScript state.opened .string
  | .blockComment => .unclosedScript state.opened .comment
  | .regex _ => .unclosedScript state.opened .regex
  | .code | .lineComment => .unclosedScript opening .script

/-- The cursor at the closing bracket. `opening` is the offset reported if there is none. -/
def find (opening : Nat) (state : State) (offset : Nat) : List Char → Except ReadError Cursor
  | [] => .error (errorAtEnd opening state)
  | c :: rest =>
    match step state offset c rest.head? with
    | .one state => find opening state (offset + c.utf8Size) rest
    | .two state =>
      match rest with
      | [] => .error (errorAtEnd opening state)
      | next :: later => find opening state (offset + c.utf8Size + next.utf8Size) later
    | .close => .ok ⟨offset, c :: rest⟩
    | .fail error => .error error

/-- The closing bracket is one of the characters searched. -/
theorem size_find_le {opening : Nat} {state : State} {offset : Nat} {text : List Char}
    {cursor : Cursor} (found : find opening state offset text = .ok cursor) :
    cursor.size ≤ text.length := by
  fun_induction find opening state offset text with
  | case1 => cases found
  | case2 _ _ _ _ _ _ ih =>
    have := ih found
    simp only [List.length_cons]
    omega
  | case3 => cases found
  | case4 _ _ _ _ _ _ _ ih =>
    have := ih found
    simp only [List.length_cons]
    omega
  | case5 => cases found; exact Nat.le_refl _
  | case6 => cases found

end Extent

/-- The byte offset of the bracket that closes the script block whose body starts at `body`.
`opening` is the offset of the bracket that opens it. A body offset inside a character starts
after that character. -/
def scriptEnd (source : List Char) (body opening : Nat) : Except ReadError Nat :=
  let (cursor, split) := Cursor.resume source body
  (Extent.find opening (.initial body split) cursor.offset cursor.rest).map (·.offset)

end BranchText
