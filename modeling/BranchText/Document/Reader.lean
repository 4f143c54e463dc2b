import BranchText.Document.Pieces

/-!
# Reading documents

The grammar of documents:

    document  := (text | '[[' verbatim ']]' | '{' block '}')*
    block     := ('#' | '|')* (name ':')? ('eval'? '@' reference | entries)
               | 'mode' name ':' rules | 'use' name
    entries   := choice weight? (',' choice weight?)* ','?
    choice    := '(' document ')' | '[' script ']' | '{' block '}' | 'call' name
    reference := name (':' (indices '->' choice | choice) (',' ...)* ','?)?

The readers of nested parts call one another. Each call is made on a shorter text, or on the same
text for a smaller part of the grammar, so reading always ends.
-/

namespace BranchText

namespace Reader

mutual

/-- Reads nodes up to the end of the text, or up to the parenthesis that closes the one at
`enclosing`, which is taken too. `depth` counts the parentheses that are open in the text. -/
def sequence (enclosing : Option Nat) (depth : Nat) (passage : Passage) (legacy : Legacy)
    (cursor : Cursor) : Except ReadError (Reading (List Node × Legacy) (cursor.size + 1)) := do
  let lexed ← cursor.next
  have afterLe := lexed.size_le
  if atEnd : lexed.token.kind = .endOfText then
    allClosed enclosing
    return ⟨(passage.close, legacy), lexed.after, by omega⟩
  else
    have afterLt := lexed.size_lt atEnd
    match lexed.token.kind, enclosing.isSome, depth with
    | .rightParen, true, 0 => return ⟨(passage.close, legacy), lexed.after, by omega⟩
    | .rightParen, true, depth + 1 =>
      let reading ← sequence enclosing depth (passage.append ")") legacy lexed.after
      return ⟨reading.value, reading.rest, by have := reading.size_lt; omega⟩
    | .leftParen, true, depth =>
      let reading ← sequence enclosing (depth + 1) (passage.append "(") legacy lexed.after
      return ⟨reading.value, reading.rest, by have := reading.size_lt; omega⟩
    | .leftBrace, _, depth =>
      let inner ← block lexed.token.start lexed.after
      have innerLt := inner.size_lt
      let reading ← sequence enclosing depth (passage.addBlock inner.value.1)
        (legacy ++ inner.value.2) inner.rest
      return ⟨reading.value, reading.rest, by have := reading.size_lt; omega⟩
    | .doubleLeftBracket, _, depth =>
      let inner ← verbatim lexed.token.start lexed.after
      have innerLt := inner.size_lt
      let reading ← sequence enclosing depth (passage.append inner.value) legacy inner.rest
      return ⟨reading.value, reading.rest, by have := reading.size_lt; omega⟩
    | .rightBrace, _, _ => throw (.malformed lexed.token.start .strayBrace)
    | _, _, depth =>
      let reading ← sequence enclosing depth (passage.append lexed.token.text) legacy lexed.after
      return ⟨reading.value, reading.rest, by have := reading.size_lt; omega⟩
termination_by 8 * cursor.size

/-- Reads the inside of a block, whose brace stands at `opening`, and its closing brace. Mode
declarations and switches make no node. -/
def block (opening : Nat) (cursor : Cursor) :
    Except ReadError (Reading (Option Node × Legacy) (cursor.size + 1)) := do
  let start ← skipTrivia cursor
  have startLt := start.size_lt
  let flagged ← flags ⟨false, false⟩ start.rest
  have flaggedLt := flagged.size_lt
  let lexed ← flagged.rest.next
  have lexedLe := lexed.size_le
  let plain := !flagged.value.silent && !flagged.value.isSet && followedByBlank lexed.after
  if plain && lexed.token.kind = .mode then
    let reading ← mode opening lexed.after
    return ⟨(none, reading.value), reading.rest, by have := reading.size_lt; omega⟩
  else if plain && lexed.token.kind = .use then
    let trimmed ← skipTrivia lexed.after
    let name ← identifier trimmed.rest
    let close ← closingBrace opening name.rest
    return ⟨(none, ⟨[], [name.value]⟩), close.rest, by
      have := trimmed.size_lt
      have := name.size_lt
      have := close.size_lt
      omega⟩
  else
    let named ← label opening flagged.rest
    have namedLt := named.size_lt
    let body ← skipTrivia named.rest
    have bodyLt := body.size_lt
    let first ← body.rest.next
    have firstLe := first.size_le
    let reruns ← if first.token.kind = .eval then referenceFollows first.after else pure false
    if reruns then
      let trimmed ← skipTrivia first.after
      have trimmedLt := trimmed.size_lt
      let sign ← trimmed.rest.next
      have signLe := sign.size_le
      if isAt : sign.token.kind = .at then
        have signLt := sign.size_lt (by rw [isAt]; decide)
        if flagged.value.isSet then throw (.malformed sign.token.start .setReference)
        let reading ← reference opening named.value flagged.value.silent true sign.after
        return ⟨(some (.reference reading.value.1), reading.value.2), reading.rest, by
          have := reading.size_lt; omega⟩
      else throw (.malformed sign.token.start .expectedReference)
    else if isAt : first.token.kind = .at then
      have firstLt := first.size_lt (by rw [isAt]; decide)
      if flagged.value.isSet then throw (.malformed first.token.start .setReference)
      let reading ← reference opening named.value flagged.value.silent false first.after
      return ⟨(some (.reference reading.value.1), reading.value.2), reading.rest, by
        have := reading.size_lt; omega⟩
    else
      let reading ← entries opening [] .empty body.rest
      let node ← forkNode opening named.value flagged.value reading.value.1 reading.rest.offset
      return ⟨(some node, reading.value.2), reading.rest, by have := reading.size_lt; omega⟩
termination_by 8 * cursor.size + 4

/-- Reads the entries of a fork and its closing brace. `branches` holds those read so far, last
first. -/
def entries (opening : Nat) (branches : List Branch) (legacy : Legacy) (cursor : Cursor) :
    Except ReadError (Reading (List Branch × Legacy) (cursor.size + 1)) := do
  let start ← skipTrivia cursor
  have startLt := start.size_lt
  let first ← start.rest.next
  have firstLe := first.size_le
  if first.token.kind = .rightBrace && !branches.isEmpty then
    return ⟨(branches.reverse, legacy), first.after, by omega⟩
  else if first.token.kind = .endOfText then throw (.malformed opening .unclosedBrace)
  else
    let chosen ← choice start.rest
    have chosenLt := chosen.size_lt
    let weighted ← weight chosen.rest
    have weightedLt := weighted.size_lt
    let branches := ⟨chosen.value.1, weighted.value⟩ :: branches
    let legacy := legacy ++ chosen.value.2
    let trimmed ← skipTrivia weighted.rest
    have trimmedLt := trimmed.size_lt
    let separator ← trimmed.rest.next
    have separatorLe := separator.size_le
    match separator.token.kind with
    | .comma =>
      let reading ← entries opening branches legacy separator.after
      return ⟨reading.value, reading.rest, by have := reading.size_lt; omega⟩
    | .rightBrace => return ⟨(branches.reverse, legacy), separator.after, by omega⟩
    | .endOfText => throw (.malformed opening .unclosedBrace)
    | _ => throw (.malformed separator.token.start (.expectedSeparator separator.token.text))
termination_by 8 * cursor.size + 2

/-- Reads a choice. -/
def choice (cursor : Cursor) : Except ReadError (Reading (Choice × Legacy) cursor.size) := do
  let lexed ← cursor.next
  if atEnd : lexed.token.kind = .endOfText then
    throw (.malformed lexed.token.start (.expectedChoice lexed.token.shown))
  else
    have afterLt := lexed.size_lt atEnd
    match lexed.token.kind with
    | .leftParen =>
      let reading ← sequence (some lexed.token.start) 0 .empty .empty lexed.after
      return ⟨(.nodes reading.value.1, reading.value.2), reading.rest, by
        have := reading.size_lt; omega⟩
    | .leftBracket =>
      let reading ← script lexed.token.start lexed.after
      return ⟨(.script reading.value, .empty), reading.rest, by have := reading.size_lt; omega⟩
    | .doubleLeftBracket =>
      /- A script whose body itself starts with a bracket. -/
      let body : Cursor := ⟨lexed.token.start + 1, '[' :: lexed.after.rest⟩
      let reading ← script lexed.token.start body
      return ⟨(.script reading.value, .empty), reading.rest, by
        have := reading.size_lt
        have : body.size = lexed.after.size + 1 := rfl
        omega⟩
    | .leftBrace =>
      let reading ← block lexed.token.start lexed.after
      match reading.value with
      | (none, _) => throw (.malformed lexed.token.start .legacyChoice)
      | (some node, legacy) =>
        return ⟨(.nodes [node], legacy), reading.rest, by have := reading.size_lt; omega⟩
    | .call =>
      if followedByBlank lexed.after then
        let trimmed ← skipBlanks lexed.after
        let name ← identifier trimmed.rest
        return ⟨(.call ⟨name.value, ⟨lexed.token.start, name.rest.offset⟩⟩, .empty), name.rest, by
          have := trimmed.size_lt
          have := name.size_lt
          omega⟩
      else throw (.malformed lexed.token.start (.expectedChoice lexed.token.shown))
    | _ => throw (.malformed lexed.token.start (.expectedChoice lexed.token.shown))
termination_by 8 * cursor.size

/-- Reads a reference after its sign, and the closing brace of its block. -/
def reference (opening : Nat) (name : Option String) (silent reruns : Bool) (cursor : Cursor) :
    Except ReadError (Reading (Reference × Legacy) (cursor.size + 1)) := do
  let start ← skipBlanks cursor
  have startLt := start.size_lt
  let target ← identifier start.rest
  have targetLt := target.size_lt
  let trimmed ← skipTrivia target.rest
  have trimmedLt := trimmed.size_lt
  let colon ← trimmed.rest.next
  have colonLe := colon.size_le
  if colon.token.kind = .colon then
    let mapped ← mappings opening true [] none .empty colon.after
    have mappedLt := mapped.size_lt
    let close ← closingBrace opening mapped.rest
    let (found, fallback, legacy) := mapped.value
    return ⟨(⟨target.value, name, silent, found, fallback, reruns, ⟨opening, close.rest.offset⟩⟩,
      legacy), close.rest, by have := close.size_lt; omega⟩
  else
    let close ← closingBrace opening trimmed.rest
    return ⟨(⟨target.value, name, silent, [], none, reruns, ⟨opening, close.rest.offset⟩⟩,
      .empty), close.rest, by have := close.size_lt; omega⟩
termination_by 8 * cursor.size + 3

/-- Reads the mappings and the fallback of a reference, up to the closing brace. `first` says
that none was read yet. -/
def mappings (opening : Nat) (first : Bool) (found : List Mapping) (fallback : Option Choice)
    (legacy : Legacy) (cursor : Cursor) :
    Except ReadError
      (Reading (List Mapping × Option Choice × Legacy) (cursor.size + 1)) := do
  let start ← skipTrivia cursor
  have startLt := start.size_lt
  let lexed ← start.rest.next
  have lexedLe := lexed.size_le
  if lexed.token.kind = .rightBrace then
    if first then throw (.malformed lexed.token.start .expectedMapping)
    return ⟨(found, fallback, legacy), start.rest, by omega⟩
  else if lexed.token.kind = .endOfText then throw (.malformed opening .unclosedBrace)
  else if fallback.isSome then throw (.malformed lexed.token.start .fallbackNotLast)
  else
    let entry : Reading (List Mapping × Option Choice × Legacy) start.rest.size ←
      if numeric : lexed.token.kind = .number then
        let indices ← indexList start.rest
        have indicesLt := indices.size_lt
        let trimmed ← skipTrivia indices.rest
        have trimmedLt := trimmed.size_lt
        let chosen ← choice trimmed.rest
        let found ← addMappings chosen.value.1 indices.value found
        pure ⟨(found, none, legacy ++ chosen.value.2), chosen.rest, by
          have := chosen.size_lt; omega⟩
      else
        let chosen ← choice start.rest
        pure ⟨(found, some chosen.value.1, legacy ++ chosen.value.2), chosen.rest,
          chosen.size_lt⟩
    have entryLt := entry.size_lt
    let (found, fallback, legacy) := entry.value
    let trimmed ← skipTrivia entry.rest
    have trimmedLt := trimmed.size_lt
    let separator ← trimmed.rest.next
    have separatorLe := separator.size_le
    match separator.token.kind with
    | .comma =>
      let reading ← mappings opening false found fallback legacy separator.after
      return ⟨reading.value, reading.rest, by have := reading.size_lt; omega⟩
    | .rightBrace => return ⟨(found, fallback, legacy), trimmed.rest, by omega⟩
    | .endOfText => throw (.malformed opening .unclosedBrace)
    | _ => throw (.malformed separator.token.start (.expectedSeparator separator.token.shown))
termination_by 8 * cursor.size + 2

/-- Reads a mode declaration after its keyword, and the closing brace of its block. -/
def mode (opening : Nat) (cursor : Cursor) :
    Except ReadError (Reading Legacy (cursor.size + 1)) := do
  let start ← skipTrivia cursor
  have startLt := start.size_lt
  let name ← identifier start.rest
  have nameLt := name.size_lt
  let trimmed ← skipTrivia name.rest
  have trimmedLt := trimmed.size_lt
  let colon ← trimmed.rest.next
  have colonLe := colon.size_le
  if colon.token.kind = .colon then
    let ruled ← rules opening [] .empty colon.after
    have ruledLt := ruled.size_lt
    let close ← closingBrace opening ruled.rest
    let declared : ModeDeclaration :=
      ⟨name.value, ruled.value.1, ⟨opening, close.rest.offset⟩⟩
    return ⟨ruled.value.2 ++ ⟨[declared], []⟩, close.rest, by have := close.size_lt; omega⟩
  else throw (.malformed colon.token.start .expectedModeColon)
termination_by 8 * cursor.size + 3

/-- Reads the rules of a mode, up to the closing brace. `found` holds those read so far, last
first. -/
def rules (opening : Nat) (found : List ModeRule) (legacy : Legacy) (cursor : Cursor) :
    Except ReadError (Reading (List ModeRule × Legacy) (cursor.size + 1)) := do
  let start ← skipTrivia cursor
  have startLt := start.size_lt
  let lexed ← start.rest.next
  have lexedLe := lexed.size_le
  if lexed.token.kind = .rightBrace then
    return ⟨(found.reverse, legacy), start.rest, by omega⟩
  else
    let bare : Reading Unit (start.rest.size + 1) ←
      if lexed.token.kind = .match then
        let trimmed ← skipTrivia lexed.after
        pure ⟨(), trimmed.rest, by have := trimmed.size_lt; omega⟩
      else pure ⟨(), start.rest, by omega⟩
    have bareLt := bare.size_lt
    let matcher ← quoted bare.rest
    have matcherLt := matcher.size_lt
    let trimmed ← skipTrivia matcher.rest
    have trimmedLt := trimmed.size_lt
    let arrow ← trimmed.rest.next
    have arrowLe := arrow.size_le
    if arrow.token.kind ≠ .arrow then throw (.malformed arrow.token.start .expectedRuleArrow)
    let trimmed ← skipTrivia arrow.after
    have trimmedLt := trimmed.size_lt
    let quote ← trimmed.rest.next
    let replacement : Reading (Choice × Legacy) trimmed.rest.size ←
      if quote.token.kind.quote?.isSome then
        let literal ← quoted trimmed.rest
        pure ⟨(.nodes [.text literal.value], .empty), literal.rest, literal.size_lt⟩
      else choice trimmed.rest
    have replacementLt := replacement.size_lt
    let found := ⟨matcher.value, replacement.value.1⟩ :: found
    let legacy := legacy ++ replacement.value.2
    let trimmed ← skipTrivia replacement.rest
    have trimmedLt := trimmed.size_lt
    let separator ← trimmed.rest.next
    have separatorLe := separator.size_le
    match separator.token.kind with
    | .comma =>
      let reading ← rules opening found legacy separator.after
      return ⟨reading.value, reading.rest, by have := reading.size_lt; omega⟩
    | .rightBrace => return ⟨(found.reverse, legacy), trimmed.rest, by omega⟩
    | .endOfText => throw (.malformed opening .unclosedBrace)
    | _ => throw (.malformed separator.token.start .expectedRuleSeparator)
termination_by 8 * cursor.size + 2

end

end Reader

/-- Reads a complete document. -/
def Document.read (source : List Char) : Except ReadError Document :=
  match Reader.sequence none 0 .empty .empty (Cursor.start source) with
  | .error error => .error error
  | .ok reading =>
    .ok ⟨reading.value.1, reading.value.2.modes, reading.value.2.switches⟩

end BranchText
