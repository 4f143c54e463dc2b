import BranchText.Proofs.Compared.Comparison

/-!
# Laws of comparisons

What a comparison has to know of its texts for all readers to agree: how the next token, a gap of
blanks and the parts with a syntax of their own are read, and which errors settle it. A gap is taken
as a whole, for related texts may differ in how many blanks and comments they have between two
tokens.
-/

namespace BranchText

/-- Whether a token of the kind ends something that nothing behind it can still change. -/
def TokenKind.closes : TokenKind → Bool
  | .rightBrace | .rightParen | .arrow => true
  | _ => false

namespace Reader

/-- Reads blanks and the comments among them. The value is the text that they stand for. -/
def gap (cursor : Cursor) : Except ReadError (Reading String (cursor.size + 1)) :=
  match cursor.next with
  | .error error => .error error
  | .ok lexed =>
    if blank : lexed.token.kind = .whitespace then
      have progress := lexed.size_lt (by rw [blank]; decide)
      match gap lexed.after with
      | .error error => .error error
      | .ok reading => .ok ⟨lexed.token.text ++ reading.value, reading.rest,
          Nat.lt_of_lt_of_le reading.size_lt (Nat.le_succ_of_le progress)⟩
    else .ok ⟨"", cursor, Nat.lt_succ_self _⟩
termination_by cursor.size

/-- The body of a script block behind its opening token. Of two brackets, the second belongs to the
body. -/
def scriptBody {cursor : Cursor} (lexed : Lexed cursor) : Cursor :=
  if lexed.token.kind = .doubleLeftBracket then ⟨lexed.token.start + 1, '[' :: lexed.after.rest⟩
  else lexed.after

/-- The error of a word that wants an identifier behind a blank. -/
structure Wants {cursor : Cursor} (lexed : Lexed cursor) (error : ReadError) : Prop where
  blank : followedByBlank lexed.after = true
  identifier : ∀ skipped atEnd, skipped .whitespace = true →
    (∀ kind, skipped kind = true → kind.isTrivia = true) →
    ∃ trimmed, skipWhile skipped atEnd lexed.after = .ok trimmed ∧
      Reader.identifier trimmed.rest = .error error

end Reader

namespace Comparison

open Reader

variable (C : Comparison)

/-! ## Values that are alike -/

section Values

variable {α κ : Type} {stage later : C.Stage}

/-- Readings with the same value, in a certain view of it, that end at the same place. -/
structure Alike (view : α → κ) (stage : C.Stage) {limit : C.Run stage → Nat}
    (readings : ∀ run, Reading α (limit run)) : Prop where
  value : ∃ seen, ∀ run, view (readings run).value = seen
  rest : C.Twins stage fun run => (readings run).rest

/-- Places from which little leads to the cursors are still the same at the later stage. -/
def Keeps (kept : C.Run later → C.Run stage) (cursors : C.Run stage → Cursor) : Prop :=
  ∀ olds : C.Run stage → Cursor, C.Twins stage olds →
    (∀ run, (olds run).Leads [.eval] (cursors run)) → C.Twins later fun run => olds (kept run)

/-- Tokens of the same kind. Those that are no blanks mean the same, and end at the same place. -/
structure Tokens (stage : C.Stage) (kind : TokenKind) {cursors : C.Run stage → Cursor}
    (lexed : ∀ run, Lexed (cursors run)) : Prop where
  kinds : ∀ run, (lexed run).token.kind = kind
  text : kind ≠ .whitespace → ∃ text, ∀ run, (lexed run).token.text = text
  after : kind ≠ .whitespace → C.Twins stage fun run => (lexed run).after
  closed : kind.closes = true → C.Closed stage fun run => (lexed run).after

/-- What is read is alike. -/
def Reads (view : α → κ) {limit : C.Run stage → Nat} :
    C.Likeness fun run => Reading α (limit run) :=
  fun later _ readings => C.Alike view later readings

/-- What is read is alike, and has been closed. -/
def Ends (view : α → κ) {limit : C.Run stage → Nat} :
    C.Likeness fun run => Reading α (limit run) :=
  fun later _ readings => C.Alike view later readings ∧
    C.Closed later fun run => (readings run).rest

/-- What is read is alike, and the places in front of it are kept. -/
def Peeks (view : α → κ) {limit : C.Run stage → Nat} (cursors : C.Run stage → Cursor) :
    C.Likeness fun run => Reading α (limit run) :=
  fun later kept readings => C.Alike view later readings ∧ C.Keeps kept cursors

/-- A word is followed by a blank in some readings only, one of which settles the comparison, for
it wants an identifier behind the blank and there is none. -/
def Torn {cursors : C.Run stage → Cursor} (lexed : ∀ run, Lexed (cursors run)) : Prop :=
  ∃ run error, Wants (lexed run) error ∧
    ∀ errors, errors run = some error → C.Settled stage errors

end Values

/-! ## Views of what is read -/

/-- A sequence and its declarations without spans. -/
def nodesView (value : List Node × Legacy) : List Node × Legacy :=
  (nodesWithoutSpans value.1, value.2.withoutSpans)

/-- A block and its declarations without spans. -/
def blockView (value : Option Node × Legacy) : Option Node × Legacy :=
  (value.1.map Node.withoutSpans, value.2.withoutSpans)

/-- The source of a script block. -/
def scriptView (block : ScriptBlock) : String := block.source

/-! ## Laws -/

/-- The laws under which all readers agree. -/
structure Lawful : Prop where
  next {stage : C.Stage} {cursors : C.Run stage → Cursor} (twins : C.Twins stage cursors) :
    C.Agree (fun later kept lexed => (∃ kind, C.Tokens later kind lexed) ∧ C.Keeps kept cursors)
      fun run => (cursors run).next
  gap {stage : C.Stage} {cursors : C.Run stage → Cursor} (twins : C.Twins stage cursors) :
    C.Agree (C.Peeks id cursors) fun run => gap (cursors run)
  /-- Behind a word that wants to be followed by a blank. -/
  blank {stage : C.Stage} {cursors : C.Run stage → Cursor} {lexed : ∀ run, Lexed (cursors run)}
    {kind : TokenKind} (twins : C.Twins stage cursors)
    (read : ∀ run, (cursors run).next = .ok (lexed run)) (tokens : C.Tokens stage kind lexed)
    (word : kind = .call ∨ kind = .mode ∨ kind = .use) :
    C.Torn lexed ∨ ∃ (later : C.Stage) (kept : C.Run later → C.Run stage),
      C.Later stage later kept ∧ C.Twins later (fun run => cursors (kept run)) ∧
      C.Twins later (fun run => (lexed (kept run)).after) ∧
      ∃ blank, ∀ run, followedByBlank (lexed (kept run)).after = blank
  literal {stage : C.Stage} {cursors : C.Run stage → Cursor} {lexed : ∀ run, Lexed (cursors run)}
    {kind : TokenKind} (twins : C.Twins stage cursors)
    (read : ∀ run, (cursors run).next = .ok (lexed run)) (tokens : C.Tokens stage kind lexed)
    (opens : kind.quote?.isSome = true) : C.Agree (C.Reads id) fun run => quoted (cursors run)
  verbatim {stage : C.Stage} {cursors : C.Run stage → Cursor} {lexed : ∀ run, Lexed (cursors run)}
    (twins : C.Twins stage cursors) (read : ∀ run, (cursors run).next = .ok (lexed run))
    (tokens : C.Tokens stage .doubleLeftBracket lexed) :
    C.Agree (C.Reads id) fun run => verbatim (lexed run).token.start (lexed run).after
  script {stage : C.Stage} {cursors : C.Run stage → Cursor} {lexed : ∀ run, Lexed (cursors run)}
    {kind : TokenKind} (twins : C.Twins stage cursors)
    (read : ∀ run, (cursors run).next = .ok (lexed run)) (tokens : C.Tokens stage kind lexed)
    (opens : kind = .leftBracket ∨ kind = .doubleLeftBracket) {body : C.Run stage → Cursor}
    (bodies : ∀ run, body run = scriptBody (lexed run)) :
    C.Agree (C.Reads scriptView) fun run => script (lexed run).token.start (body run)
  /-- Errors at a token that is not wanted. -/
  refused {stage : C.Stage} {cursors : C.Run stage → Cursor} {lexed : ∀ run, Lexed (cursors run)}
    {fault : C.Run stage → Fault} (twins : C.Twins stage cursors)
    (read : ∀ run, (cursors run).next = .ok (lexed run))
    (other : ∀ run, fault run ≠ .unclosedComment) :
    C.Settled stage fun run => some (.malformed (lexed run).token.start (fault run))
  /-- Errors at the end of the text. -/
  brace {stage : C.Stage} {opening : C.Run stage → Nat} (isOpen : C.OpenBrace stage opening) :
    C.Settled stage fun run => some (.malformed (opening run) .unclosedBrace)
  paren {stage : C.Stage} {opening : C.Run stage → Nat} (isOpen : C.OpenParen stage opening) :
    C.Settled stage fun run => some (.malformed (opening run) .unclosedParen)
  /-- Errors behind something that is closed. -/
  failed {stage : C.Stage} {cursors : C.Run stage → Cursor} (closed : C.Closed stage cursors)
    {errors : C.Run stage → Option ReadError} (all : ∀ run, ∃ error, errors run = some error) :
    C.Settled stage errors
  block {stage : C.Stage} {cursors : C.Run stage → Cursor} {lexed : ∀ run, Lexed (cursors run)}
    (twins : C.Twins stage cursors) (read : ∀ run, (cursors run).next = .ok (lexed run))
    (tokens : C.Tokens stage .leftBrace lexed)
    (agree : C.OpenBrace stage (fun run => (lexed run).token.start) →
      C.Agree (C.Ends blockView) fun run => block (lexed run).token.start (lexed run).after) :
    C.Agree (C.Ends blockView) fun run => block (lexed run).token.start (lexed run).after
  nested {stage : C.Stage} {cursors : C.Run stage → Cursor} {lexed : ∀ run, Lexed (cursors run)}
    (twins : C.Twins stage cursors) (read : ∀ run, (cursors run).next = .ok (lexed run))
    (tokens : C.Tokens stage .leftParen lexed)
    (agree : C.OpenParen stage (fun run => (lexed run).token.start) →
      C.Agree (C.Ends nodesView) fun run =>
        sequence (some (lexed run).token.start) 0 .empty .empty (lexed run).after) :
    C.Agree (C.Ends nodesView) fun run =>
      sequence (some (lexed run).token.start) 0 .empty .empty (lexed run).after

end Comparison

end BranchText
