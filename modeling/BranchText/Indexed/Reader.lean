import BranchText.Document.Reader
import BranchText.Indexed.Stream

/-!
# Reading documents by byte index

The readers of `BranchText.Reader`, by byte index: with a token of lookahead, jumps over what was
searched in bytes, and a way back after the lookahead behind `eval`. What is read by recursion is
data, a `Stretch` of tokens or a `Part` that nests. Reading it recurs as it pleases; that it ends is
not seen from its definition.
-/

namespace BranchText

namespace Indexed

open Reader

/-- Goes on with a result, or fails with its error. -/
def check {α : Type} : Except ReadError α → Indexed α
  | .ok value => pure value
  | .error error => throw error

/-! ## Pieces -/

/-- What is read as long as tokens of its kind follow. -/
inductive Stretch : Type → Type where
  /-- Tokens of the kinds that `skipped` accepts. -/
  | skip (skipped : TokenKind → Bool) : Stretch Unit
  /-- The tokens that continue an identifier. -/
  | identifier (start : String) : Stretch String
  /-- The flags at the start of a block. -/
  | flags (found : Flags) : Stretch Flags

/-- Reads a stretch of tokens. -/
def Stretch.read {α : Type} : Stretch α → Indexed α
  | .skip skipped => do
    let token ← peek
    if skipped token.kind then
      discard next
      Stretch.skip skipped |>.read
  | .identifier start => do
    let token ← peek
    if isIdentifierToken token then
      discard next
      Stretch.identifier (start ++ token.text) |>.read
    else return start
  | .flags found => do
    let token ← peek
    match token.kind with
    | .hash =>
      discard next
      Stretch.skip TokenKind.isTrivia |>.read
      Stretch.flags { found with silent := true } |>.read
    | .pipe =>
      discard next
      Stretch.skip TokenKind.isTrivia |>.read
      Stretch.flags { found with isSet := true } |>.read
    | _ => return found
partial_fixpoint

/-- Skips blanks and line breaks. -/
def skipTrivia : Indexed Unit := (Stretch.skip TokenKind.isTrivia).read

/-- Skips blanks. -/
def skipBlanks : Indexed Unit := (Stretch.skip (· == .whitespace)).read

/-- Reads an identifier. -/
def identifier : Indexed String := do
  let name ← (Stretch.identifier "").read
  if name.isEmpty then
    let token ← peek
    throw (.malformed token.start .expectedIdentifier)
  else return name

/-- Whether the lexeme behind a token is a blank or a line break. -/
def followedByBlank (token : Token) : Indexed Bool := return (← scan token.stop).kind.isTrivia

/-- Whether an at sign follows behind the next token, after blanks and line breaks. Nothing is
taken. -/
def referenceFollows : Indexed Bool := do
  let saved ← here
  discard next
  skipTrivia
  let token ← peek
  jump saved
  return token.kind = .at

/-- Whether an identifier that starts with the next token is no name: a call is none, nor is the
repeated execution of a reference. -/
def unnamed (token : Token) : Indexed Bool :=
  if token.kind = .call then followedByBlank token
  else if token.kind = .eval then referenceFollows
  else pure false

/-- Reads the name and colon that a fork or reference may start with. -/
def label (opening : Nat) : Indexed (Option String) := do
  let token ← peek
  if !isIdentifierToken token then return none
  else
    if ← unnamed token then return none
    else
      let saved ← here
      let name ← identifier
      skipBlanks
      let token ← peek
      match token.kind with
      | .colon =>
        discard next
        return some name
      | .endOfText => throw (.malformed opening .unclosedBrace)
      | _ =>
        jump saved
        throw (.malformed token.start (.expectedColon name))

/-- Whether a block starts with a mode declaration or a switch, given its flags and next token. -/
def declares (flags : Flags) (token : Token) : Indexed Bool :=
  if !flags.silent && !flags.isSet && (token.kind = .mode || token.kind = .use) then
    followedByBlank token
  else pure false

/-- Whether the next token says to execute the target of a reference again. -/
def rerunFollows (token : Token) : Indexed Bool :=
  if token.kind = .eval then referenceFollows else pure false

/-- Reads the closing brace of a block. -/
def closingBrace (opening : Nat) : Indexed Unit := do
  skipTrivia
  let token ← next
  match token.kind with
  | .rightBrace => return
  | .endOfText => throw (.malformed opening .unclosedBrace)
  | _ => throw (.malformed token.start (.expectedClose token.shown))

/-- Reads a quoted literal. -/
def quoted : Indexed String := do
  let token ← peek
  if token.kind.quote?.isSome then
    let quote ← byteAt token.start
    let close ← (Search.quoteEnd quote token.start (token.start + 1)).find
    let text ← slice token.stop close
    jump (close + 1)
    return String.ofList (Quoted.decode text)
  else throw (.malformed token.start .expectedQuoted)

/-- Reads verbatim text after its two opening brackets, which stand at `opening`. -/
def verbatim (opening : Nat) : Indexed String := do
  return String.ofList (← (Search.verbatim opening (← here) []).find)

/-- Reads a script block whose opening bracket stands at `opening` and whose body starts at
`body`. -/
def script (opening body : Nat) : Indexed ScriptBlock := do
  let close ← (Search.scriptEnd opening (.initial body none) body).find
  let text ← slice body close
  jump (close + 1)
  return ⟨String.ofList text, ⟨opening, close + 1⟩⟩

/-- Reads the weight behind an entry, if there is one. -/
def weight : Indexed (Option Decimal) := do
  skipTrivia
  let token ← peek
  if token.kind = .number then
    discard next
    return some (Decimal.ofChars token.text.toList)
  else return none

/-! ## The grammar -/

/-- The parts of a document that nest. -/
inductive Part : Type → Type where
  /-- Nodes up to the end of the text, or up to the parenthesis that closes the one at `enclosing`,
  which is taken too. -/
  | sequence (enclosing : Option Nat) (depth : Nat) (passage : Passage) (legacy : Legacy) :
    Part (List Node × Legacy)
  /-- The inside of a block, whose brace stands at `opening`, and its closing brace. -/
  | block (opening : Nat) : Part (Option Node × Legacy)
  /-- The entries of a fork and its closing brace. -/
  | entries (opening : Nat) (branches : List Branch) (legacy : Legacy) :
    Part (List Branch × Legacy)
  | choice : Part (Choice × Legacy)
  /-- A reference after its sign, and the closing brace of its block. -/
  | reference (opening : Nat) (name : Option String) (silent reruns : Bool) :
    Part (Reference × Legacy)
  /-- The mappings and the fallback of a reference, up to the closing brace. -/
  | mappings (opening : Nat) (first : Bool) (found : List Mapping) (fallback : Option Choice)
    (legacy : Legacy) : Part (List Mapping × Option Choice × Legacy)
  /-- Branch indices and the arrow after them. -/
  | indices : Part (List (Nat × Nat))
  /-- A mode declaration after its keyword, and the closing brace of its block. -/
  | mode (opening : Nat) : Part Legacy
  /-- The rules of a mode, up to the closing brace. -/
  | rules (opening : Nat) (found : List ModeRule) (legacy : Legacy) : Part (List ModeRule × Legacy)

/-- Reads a part. -/
def Part.read {α : Type} : Part α → Indexed α
  | .sequence enclosing depth passage legacy => do
    let token ← peek
    match token.kind, enclosing.isSome, depth with
    | .endOfText, _, _ =>
      check (allClosed enclosing)
      discard next
      return (passage.close, legacy)
    | .rightParen, true, 0 =>
      discard next
      return (passage.close, legacy)
    | .rightParen, true, depth + 1 =>
      discard next
      Part.sequence enclosing depth (passage.append ")") legacy |>.read
    | .leftParen, true, depth =>
      discard next
      Part.sequence enclosing (depth + 1) (passage.append "(") legacy |>.read
    | .leftBrace, _, depth =>
      discard next
      let (node, inner) ← Part.block token.start |>.read
      Part.sequence enclosing depth (passage.addBlock node) (legacy ++ inner) |>.read
    | .doubleLeftBracket, _, depth =>
      discard next
      let text ← verbatim token.start
      Part.sequence enclosing depth (passage.append text) legacy |>.read
    | .rightBrace, _, _ => throw (.malformed token.start .strayBrace)
    | _, _, depth =>
      discard next
      Part.sequence enclosing depth (passage.append token.text) legacy |>.read
  | .block opening => do
    skipTrivia
    let flags ← (Stretch.flags ⟨false, false⟩).read
    let token ← peek
    if ← declares flags token then
      discard next
      if token.kind = .mode then
        let declared ← Part.mode opening |>.read
        return (none, declared)
      else
        skipTrivia
        let name ← identifier
        closingBrace opening
        return (none, ⟨[], [name]⟩)
    else
      let name ← label opening
      skipTrivia
      let first ← peek
      let reruns ← rerunFollows first
      if reruns then
        discard next
        skipTrivia
      let sign ← peek
      if sign.kind = .at then
        if flags.isSet then throw (.malformed sign.start .setReference)
        else
          discard next
          let (found, inner) ← Part.reference opening name flags.silent reruns |>.read
          return (some (.reference found), inner)
      else if reruns then throw (.malformed sign.start .expectedReference)
      else
        let (branches, inner) ← Part.entries opening [] .empty |>.read
        let stop ← here
        let node ← check (forkNode opening name flags branches stop)
        return (some node, inner)
  | .entries opening branches legacy => do
    skipTrivia
    let first ← peek
    if first.kind = .rightBrace && !branches.isEmpty then
      discard next
      return (branches.reverse, legacy)
    else if first.kind = .endOfText then throw (.malformed opening .unclosedBrace)
    else
      let (chosen, inner) ← Part.choice |>.read
      let weight ← weight
      skipTrivia
      let separator ← peek
      match separator.kind with
      | .comma =>
        discard next
        Part.entries opening (⟨chosen, weight⟩ :: branches) (legacy ++ inner) |>.read
      | .rightBrace =>
        discard next
        return ((⟨chosen, weight⟩ :: branches).reverse, legacy ++ inner)
      | .endOfText => throw (.malformed opening .unclosedBrace)
      | _ => throw (.malformed separator.start (.expectedSeparator separator.text))
  | .choice => do
    let token ← peek
    match token.kind with
    | .leftParen =>
      discard next
      let (nodes, legacy) ← Part.sequence (some token.start) 0 .empty .empty |>.read
      return (.nodes nodes, legacy)
    | .leftBracket =>
      discard next
      let block ← script token.start token.stop
      return (.script block, .empty)
    | .doubleLeftBracket =>
      discard next
      let block ← script token.start (token.start + 1)
      return (.script block, .empty)
    | .leftBrace =>
      discard next
      let (node, legacy) ← Part.block token.start |>.read
      match node with
      | none => throw (.malformed token.start .legacyChoice)
      | some node => return (.nodes [node], legacy)
    | .call =>
      let isCall ← followedByBlank token
      if isCall then
        discard next
        skipBlanks
        let name ← identifier
        let stop ← here
        return (.call ⟨name, ⟨token.start, stop⟩⟩, .empty)
      else throw (.malformed token.start (.expectedChoice token.shown))
    | _ => throw (.malformed token.start (.expectedChoice token.shown))
  | .reference opening name silent reruns => do
    skipBlanks
    let target ← identifier
    skipTrivia
    let token ← peek
    let (found, fallback, legacy) ←
      if token.kind = .colon then do
        discard next
        Part.mappings opening true [] none .empty |>.read
      else pure ([], none, .empty)
    closingBrace opening
    let stop ← here
    return (⟨target, name, silent, found, fallback, reruns, ⟨opening, stop⟩⟩, legacy)
  | .mappings opening first found fallback legacy => do
    skipTrivia
    let token ← peek
    if token.kind = .rightBrace then
      if first then throw (.malformed token.start .expectedMapping)
      else return (found, fallback, legacy)
    else if token.kind = .endOfText then throw (.malformed opening .unclosedBrace)
    else if fallback.isSome then throw (.malformed token.start .fallbackNotLast)
    else
      let (found, fallback, legacy) ←
        if token.kind = .number then do
          let indices ← Part.indices |>.read
          skipTrivia
          let (chosen, inner) ← Part.choice |>.read
          let found ← check (addMappings chosen indices found)
          pure (found, none, legacy ++ inner)
        else do
          let (chosen, inner) ← Part.choice |>.read
          pure (found, some chosen, legacy ++ inner)
      skipTrivia
      let separator ← peek
      match separator.kind with
      | .comma =>
        discard next
        Part.mappings opening false found fallback legacy |>.read
      | .rightBrace => return (found, fallback, legacy)
      | .endOfText => throw (.malformed opening .unclosedBrace)
      | _ => throw (.malformed separator.start (.expectedSeparator separator.shown))
  | .indices => do
    let number ← next
    if number.kind = .number then
      let index ← check (branchIndex number)
      skipTrivia
      let token ← peek
      match token.kind with
      | .arrow =>
        discard next
        return [(index, number.start)]
      | .comma =>
        discard next
        skipTrivia
        let later ← Part.indices |>.read
        return (index, number.start) :: later
      | _ => throw (.malformed token.start (.expectedArrow token.shown))
    else throw (.malformed number.start .expectedBranch)
  | .mode opening => do
    skipTrivia
    let name ← identifier
    skipTrivia
    let colon ← next
    if colon.kind = .colon then
      let (found, legacy) ← Part.rules opening [] .empty |>.read
      closingBrace opening
      let stop ← here
      return legacy ++ ⟨[⟨name, found, ⟨opening, stop⟩⟩], []⟩
    else throw (.malformed colon.start .expectedModeColon)
  | .rules opening found legacy => do
    skipTrivia
    let token ← peek
    if token.kind = .rightBrace then return (found.reverse, legacy)
    else
      if token.kind = .match then
        discard next
        skipTrivia
      let matcher ← quoted
      skipTrivia
      let arrow ← next
      if arrow.kind ≠ .arrow then throw (.malformed arrow.start .expectedRuleArrow)
      else
        skipTrivia
        let quote ← peek
        let (replacement, inner) ←
          if quote.kind.quote?.isSome then do
            let literal ← quoted
            pure (.nodes [.text literal], .empty)
          else Part.choice |>.read
        skipTrivia
        let separator ← peek
        match separator.kind with
        | .comma =>
          discard next
          Part.rules opening (⟨matcher, replacement⟩ :: found) (legacy ++ inner) |>.read
        | .rightBrace => return ((⟨matcher, replacement⟩ :: found).reverse, legacy ++ inner)
        | .endOfText => throw (.malformed opening .unclosedBrace)
        | _ => throw (.malformed separator.start .expectedRuleSeparator)
partial_fixpoint

/-- Reads a complete document. -/
def document : Indexed Document := do
  let (nodes, legacy) ← (Part.sequence none 0 .empty .empty).read
  return ⟨nodes, legacy.modes, legacy.switches⟩

end Indexed

/-- Reads a complete document by byte index, if no access on the way is out of bounds and the
reader ends. -/
def Document.readIndexed? (source : List Char) : Option (Except ReadError Document) :=
  ((Indexed.document.run (.start source)).run).map (Except.map Prod.fst)

end BranchText
