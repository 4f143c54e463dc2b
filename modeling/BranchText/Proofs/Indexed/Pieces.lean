import BranchText.Proofs.Indexed.Literals
import BranchText.Proofs.Indexed.Mirrors
import BranchText.Proofs.Indexed.Searches

/-!
# Pieces by byte index

Every reader of a part that does not nest, by byte index, mirrors the one of cursors.
-/

namespace BranchText

namespace Indexed

open Reader

variable {source : List Char} {cursor : Cursor}

/-- Induction on what is left to read. -/
theorem cursor_induction {motive : Cursor → Prop}
    (step : ∀ cursor : Cursor, (∀ later : Cursor, later.size < cursor.size → motive later) →
      motive cursor) (cursor : Cursor) : motive cursor :=
  (measure Cursor.size).wf.induction cursor step

theorem mirrors_skipWhile {skipped : TokenKind → Bool} (atEnd : skipped .endOfText = false) :
    Mirrors source (Stretch.skip skipped).read cursor (Reader.skipWhile skipped atEnd cursor)
      Reading.view := by
  induction cursor using cursor_induction with
  | step cursor ih =>
    rw [Stretch.read, Reader.skipWhile]
    refine .peek (fun error failed => ?_) fun lexed read _ => ?_
    · simp only [failed]
    simp only [read]
    by_cases more : skipped lexed.token.kind = true
    · have progress := lexed.size_lt (fun kind => by rw [kind, atEnd] at more; cases more)
      simp only [if_pos more, dif_pos more]
      refine .take read ((ih lexed.after progress).last (fun error failed => ?_)
        fun found given => ⟨_, by rw [given], rfl⟩)
      rw [failed]
    · simp only [if_neg more, dif_neg more]
      exact .pure rfl

theorem mirrors_skipTrivia :
    Mirrors source skipTrivia cursor (Reader.skipTrivia cursor) Reading.view :=
  mirrors_skipWhile rfl

theorem mirrors_skipBlanks :
    Mirrors source skipBlanks cursor (Reader.skipBlanks cursor) Reading.view :=
  mirrors_skipWhile rfl

theorem trivia_in (isIn : cursor.In source) {trimmed : Reading Unit (cursor.size + 1)}
    (read : Reader.skipTrivia cursor = .ok trimmed) : trimmed.rest.In source := by
  have mirrors : Mirrors source skipTrivia cursor (Reader.skipTrivia cursor) Reading.view :=
    mirrors_skipTrivia
  rw [read] at mirrors
  exact mirrors.rest_in isIn

/-! ## Identifiers -/

theorem mirrors_identifierTail {start : String} :
    Mirrors source (Stretch.identifier start).read cursor (Reader.identifierTail start cursor)
      Reading.view := by
  induction cursor using cursor_induction generalizing start with
  | step cursor ih =>
    rw [Stretch.read, Reader.identifierTail]
    refine .peek (fun error failed => ?_) fun lexed read _ => ?_
    · simp only [failed]
    simp only [read]
    by_cases part : isIdentifierToken lexed.token = true
    · simp only [if_pos part, dif_pos part]
      refine .take read ((ih lexed.after (lexed.size_lt (kind_ne_endOfText part))).last
        (fun error failed => ?_) fun found given => ⟨_, by rw [given], rfl⟩)
      rw [failed]
    · simp only [if_neg part, dif_neg part]
      exact .pure rfl

/-- Only the token at the end of the text stands for nothing. -/
theorem text_ne_empty_of_taken {token : Token} {after : Cursor}
    (taken : Taken source token after) (more : token.kind ≠ .endOfText) : token.text ≠ "" := by
  have lexemes : ∀ text : List Char, (lexeme text).kind ≠ .endOfText → (lexeme text).text ≠ "" := by
    intro text more
    obtain - | ⟨first, rest⟩ := text
    · exact absurd rfl more
    by_cases escape : first = '\\'
    · rw [lexeme, if_pos escape]
      unfold Lexeme.ofEscape
      split
      · decide
      · decide
      · split
        · exact String.singleton_ne_empty
        · decide
      · decide
    · obtain ⟨kind, run, read, -, -⟩ := Lexeme.lexeme_eq_run escape rest
      have positive := Lexeme.length_lexeme_pos (List.cons_ne_nil first rest)
      rw [read] at positive ⊢
      rw [Ne, String.ofList_eq_empty_iff]
      exact List.ne_nil_of_length_pos positive
  cases taken with
  | lexeme isIn => exact lexemes _ more
  | comment =>
    have blank : " " ≠ "" := by decide
    exact blank

theorem identifierTail_ne_empty {start : String} (some : start ≠ "")
    {found : Reading String (cursor.size + 1)}
    (read : Reader.identifierTail start cursor = .ok found) : found.value ≠ "" := by
  induction cursor using cursor_induction generalizing start with
  | step cursor ih =>
    rw [Reader.identifierTail] at read
    split at read
    · cases read
    split at read
    · rename_i lexed token part
      split at read
      · cases read
      · rename_i tail found
        cases read
        refine ih lexed.after (lexed.size_lt (kind_ne_endOfText part)) (fun none => some ?_) found
        exact (String.append_eq_empty_iff.1 none).1
    · cases read
      exact some

/-- An identifier without characters takes no tokens. -/
theorem identifierTail_empty (isIn : cursor.In source) {found : Reading String (cursor.size + 1)}
    (read : Reader.identifierTail "" cursor = .ok found) (empty : found.value.isEmpty = true) :
    found.rest = cursor := by
  rw [Reader.identifierTail] at read
  split at read
  · cases read
  rename_i lexed next
  split at read
  · rename_i part
    split at read
    · cases read
    · rename_i tail given
      cases read
      have some : "" ++ lexed.token.text ≠ "" := fun none =>
        text_ne_empty_of_taken (taken_of_next isIn next) (kind_ne_endOfText part)
          (String.append_eq_empty_iff.1 none).2
      have more : tail.value ≠ "" := identifierTail_ne_empty some given
      exact absurd (String.isEmpty_iff.1 empty) more
  · cases read
    rfl

theorem mirrors_identifier :
    Mirrors source identifier cursor (Reader.identifier cursor) Reading.view := by
  refine .of_in fun isIn => ?_
  rw [identifier, Reader.identifier]
  refine mirrors_identifierTail.andRead fun found read => ?_
  split
  · rename_i empty
    rw [identifierTail_empty isIn read empty]
    exact .peekThen fun lexed _ taken => .throw taken.start_isPlace
  · exact .pure rfl

/-! ## Labels -/

theorem mirrors_referenceFollows {lexed : Lexed cursor} (read : cursor.next = .ok lexed) :
    Mirrors source referenceFollows cursor (Reader.referenceFollows lexed.after)
      fun follows => (follows, cursor) := by
  refine .of_in fun isIn => ?_
  rw [referenceFollows, Reader.referenceFollows]
  refine .here (.take read (mirrors_skipTrivia.andRead fun trimmed _ => ?_))
  exact .peekThen fun lexed _ _ => .jump isIn (.pure rfl)

/-- A flag is noted, with more of them behind blanks, or none is. -/
theorem read_flags (noted : Flags) : (Stretch.flags noted).read = (do
    let token ← peek
    let flagged : Option Flags :=
      if token.kind = .hash then some { noted with silent := true }
      else if token.kind = .pipe then some { noted with isSet := true }
      else none
    match flagged with
    | none => return noted
    | some noted =>
      discard next
      skipTrivia
      (Stretch.flags noted).read) := by
  conv => lhs; rw [Stretch.read]
  congr 1
  funext token
  split
  · simp [*, skipTrivia]
  · simp [*, skipTrivia]
  · rw [if_neg ‹_›, if_neg ‹_›]

theorem mirrors_flags {noted : Flags} :
    Mirrors source (Stretch.flags noted).read cursor (Reader.flags noted cursor)
      Reading.view := by
  induction cursor using cursor_induction generalizing noted with
  | step cursor ih =>
    rw [read_flags, Reader.flags]
    refine .peek (fun error failed => ?_) fun lexed read _ => ?_
    · simp only [failed]
    simp only [read]
    split
    · rename_i unflagged
      split
      · exact .pure rfl
      · rename_i flag
        rw [unflagged] at flag
        cases flag
    · rename_i found flag
      split
      · rename_i unflagged
        rw [flag] at unflagged
        cases unflagged
      rename_i same
      cases flag.symm.trans same
      have more : lexed.token.kind ≠ .endOfText := fun kind => by simp [kind] at flag
      have progress := lexed.size_lt more
      refine .take read (mirrors_skipTrivia.bind (fun error failed => ?_) fun trimmed given => ?_)
      · simp only [failed]
      have shorter := trimmed.size_lt
      refine (ih trimmed.rest (by omega)).last (fun error failed => ?_) fun reading last => ?_
      · simp only [given, failed]
      · have readingLt := reading.size_lt
        exact ⟨⟨reading.value, reading.rest, by omega⟩, by simp only [given, last], rfl⟩

theorem mirrors_unnamed {lexed : Lexed cursor} (read : cursor.next = .ok lexed) :
    Mirrors source (unnamed lexed.token) cursor
      (if lexed.token.kind = .call && Reader.followedByBlank lexed.after then .ok true
        else if lexed.token.kind = .eval then Reader.referenceFollows lexed.after
        else .ok false)
      fun unnamed => (unnamed, cursor) := by
  unfold unnamed
  split
  · rename_i call
    rw [← bind_pure (Indexed.followedByBlank lexed.token)]
    refine .followedByBlank read ?_
    cases Reader.followedByBlank lexed.after <;> simpa [call] using .pure rfl
  · rename_i notCall
    simp only [notCall, decide_false, Bool.false_and, Bool.false_eq_true, if_false]
    split
    · exact mirrors_referenceFollows read
    · exact .pure rfl

theorem mirrors_rerunFollows {lexed : Lexed cursor} (read : cursor.next = .ok lexed) :
    Mirrors source (rerunFollows lexed.token) cursor
      (if lexed.token.kind = .eval then Reader.referenceFollows lexed.after else .ok false)
      fun reruns => (reruns, cursor) := by
  unfold rerunFollows
  split
  · exact mirrors_referenceFollows read
  · exact .pure rfl

theorem mirrors_declares {lexed : Lexed cursor} (read : cursor.next = .ok lexed) (flags : Flags) :
    Mirrors source (declares flags lexed.token) cursor
      (.ok (!flags.silent && !flags.isSet && Reader.followedByBlank lexed.after &&
        (lexed.token.kind = .mode || lexed.token.kind = .use)))
      fun declared => (declared, cursor) := by
  unfold declares
  split
  · rename_i named
    rw [← bind_pure (Indexed.followedByBlank lexed.token)]
    refine .followedByBlank read (.pure ?_)
    simp only [Bool.and_eq_true] at named
    simp [named]
  · rename_i unnamed
    refine .pure ?_
    simp only [Prod.mk.injEq, and_true]
    revert unnamed
    cases flags.silent <;> cases flags.isSet <;>
      cases Reader.followedByBlank lexed.after <;> simp

theorem mirrors_label {opening : Nat} (place : Cursor.IsPlace source opening) :
    Mirrors source (label opening) cursor (Reader.label opening cursor) Reading.view := by
  have decided : ∀ {ω : Type} (call eval : Prop) [Decidable call] [Decidable eval]
      (follows : Except ReadError Bool) (none named : Except ReadError ω),
      (if call then none
        else if eval then follows >>= fun follows => if follows = true then none else named
        else named) =
      (if call then .ok true else if eval then follows else .ok false) >>= fun unnamed =>
        if unnamed = true then none else named := by
    intro ω call eval _ _ follows none named
    split
    · rfl
    · split <;> rfl
  refine .of_in fun isIn => ?_
  rw [label, Reader.label]
  refine .peekThen fun lexed read _ => ?_
  dsimp only
  split
  · exact .pure rfl
  rw [decided]
  refine (mirrors_unnamed read).andThen fun unnamed _ => ?_
  simp only
  split
  · exact .pure rfl
  refine .here (mirrors_identifier.andRead fun name _ =>
    mirrors_skipBlanks.andRead fun trimmed _ => .peekThen fun lexed read taken => ?_)
  cases kind : lexed.token.kind with
  | colon => exact .take read (.pure rfl)
  | endOfText => exact .throw place
  | _ => exact .jump isIn (.throw taken.start_isPlace)

theorem mirrors_closingBrace {opening : Nat} (place : Cursor.IsPlace source opening) :
    Mirrors source (closingBrace opening) cursor (Reader.closingBrace opening cursor)
      Reading.view := by
  rw [closingBrace, Reader.closingBrace]
  refine mirrors_skipTrivia.andRead fun trimmed _ => .nextThen fun lexed _ taken => ?_
  cases kind : lexed.token.kind with
  | rightBrace => exact .pure rfl
  | endOfText => exact .throw place
  | _ => exact .throw taken.start_isPlace

/-! ## Numbers -/

theorem mirrors_weight :
    Mirrors source weight cursor (Reader.weight cursor) Reading.view := by
  rw [weight, Reader.weight]
  refine mirrors_skipTrivia.andRead fun trimmed _ => .peekThen fun lexed read _ => ?_
  dsimp only
  split
  · exact .take read (.pure rfl)
  · exact .pure rfl

theorem mirrors_indexList :
    Mirrors source Part.indices.read cursor (Reader.indexList cursor) Reading.view := by
  induction cursor using cursor_induction with
  | step cursor ih =>
    rw [Part.read, Reader.indexList]
    refine .nextThen fun number read taken => ?_
    by_cases numeric : number.token.kind = .number
    · have progress := number.size_lt (by rw [numeric]; decide)
      rw [if_pos numeric, dif_pos numeric]
      refine .checkThen (fun error failed => ?_) fun index _ => ?_
      · unfold branchIndex at failed
        split at failed
        · cases failed
        · cases failed
          exact taken.start_isPlace
      refine mirrors_skipTrivia.andRead fun trimmed _ => .peekThen fun lexed next takenNext => ?_
      cases kind : lexed.token.kind with
      | arrow => exact .take next (.pure rfl)
      | comma =>
        refine .take next (mirrors_skipTrivia.andRead fun later _ => ?_)
        have trimmedLt := trimmed.size_lt
        have lexedLe := lexed.size_le
        have laterLt := later.size_lt
        exact (ih later.rest (by omega)).andRead fun reading _ => .pure rfl
      | _ => exact .throw takenNext.start_isPlace
    · rw [if_neg numeric, dif_neg numeric]
      exact .throw taken.start_isPlace

/-- The indices of a list stand at places. -/
theorem isPlace_of_indexList (isIn : cursor.In source)
    {found : Reading (List (Nat × Nat)) (cursor.size + 1)}
    (read : Reader.indexList cursor = .ok found) :
    ∀ entry ∈ found.value, Cursor.IsPlace source entry.2 := by
  induction cursor using cursor_induction with
  | step cursor ih =>
    rw [Reader.indexList] at read
    simp only [bind, Except.bind] at read
    split at read
    · cases read
    rename_i number next
    have start := (taken_of_next isIn next).start_isPlace
    split at read
    · split at read
      · cases read
      split at read
      · cases read
      rename_i trimmed skipped
      split at read
      · cases read
      rename_i lexed nextLexed
      split at read
      · cases read
        intro entry member
        rw [List.mem_singleton.1 member]
        exact start
      · split at read
        · cases read
        rename_i later skippedLater
        split at read
        · cases read
        rename_i reading tail
        cases read
        -- The rest of the list starts behind trivia, at a place.
        have laterIn : later.rest.In source := by
          have afterIn := (taken_of_next (trivia_in (taken_of_next isIn next).after_in skipped)
            nextLexed).after_in
          exact trivia_in afterIn skippedLater
        have trimmedLt := trimmed.size_lt
        have lexedLe := lexed.size_le
        have laterLt := later.size_lt
        have numberLt : number.after.size < cursor.size := number.size_lt (by simp [*])
        intro entry member
        rcases List.mem_cons.1 member with rfl | member
        · exact start
        · exact ih later.rest (by omega) laterIn tail entry member
      · cases read
    · cases read

/-! ## Literals and script blocks -/

/-- The kinds whose tokens have more than one spelling. -/
def isVaried (kind : TokenKind) : Bool :=
  [TokenKind.text, .whitespace, .number, .endOfText].contains kind

/-- Lexemes of the other kinds are what is listed for the kind. -/
theorem lexeme_spelled {text : List Char} (fixed : isVaried (lexeme text).kind = false) :
    ∃ spelling rest, (spelling, (lexeme text).kind) ∈ Lexeme.spellings ∧
      text = spelling ++ rest ∧ (lexeme text).length = spelling.length := by
  obtain - | ⟨first, rest⟩ := text
  · cases fixed
  by_cases escape : first = '\\'
  · have varied : isVaried (Lexeme.ofEscape rest).kind = true := by
      unfold Lexeme.ofEscape
      split
      · rfl
      · rfl
      · split <;> rfl
      · rfl
    rw [lexeme, if_pos escape, varied] at fixed
    cases fixed
  · obtain ⟨kind, run, read, runs, later, split⟩ := Lexeme.lexeme_eq_run escape rest
    rw [read] at fixed ⊢
    cases runs with
    | fixed listed => exact ⟨run, later, listed, split.symm, rfl⟩
    | _ => cases fixed

/-- So are tokens, and they stand where they start. -/
theorem spelled_of_taken {token : Token} {after : Cursor} (taken : Taken source token after)
    (fixed : isVaried token.kind = false) :
    ∃ spelling, (spelling, token.kind) ∈ Lexeme.spellings ∧
      Cursor.In ⟨token.start, spelling ++ after.rest⟩ source ∧
      after.offset = token.start + byteLength spelling := by
  cases taken with
  | comment => cases fixed
  | @lexeme place isIn =>
    obtain ⟨spelling, rest, listed, text, length⟩ := lexeme_spelled fixed
    have after : place.afterLexeme = ⟨place.offset + byteLength spelling, rest⟩ := by
      rw [Cursor.afterLexeme, length, Cursor.skip_of_append text]
    refine ⟨spelling, listed, ?_, ?_⟩
    · rw [after, ← text]
      exact isIn
    · rw [after]
      rfl

/-- Behind the first of two brackets there is a place. -/
theorem body_in {token : Token} {after : Cursor} (taken : Taken source token after)
    (kind : token.kind = .doubleLeftBracket) :
    Cursor.In ⟨token.start + 1, '[' :: after.rest⟩ source := by
  have brackets : ∀ entry ∈ Lexeme.spellings, entry.2 = .doubleLeftBracket →
      entry.1 = ['[', '['] := by decide
  have fixed : isVaried token.kind = false := by rw [kind]; rfl
  obtain ⟨spelling, listed, isIn, -⟩ := spelled_of_taken taken fixed
  obtain rfl := brackets _ listed kind
  exact isIn.tail

theorem quote_spelled : ∀ entry ∈ Lexeme.spellings, ∀ quote, entry.2.quote? = some quote →
    entry.1 = [quote] ∧ isAscii quote = true := by
  have all : ∀ entry ∈ Lexeme.spellings,
      (entry.2.quote?.all fun quote => entry.1 = [quote] && isAscii quote) = true := by decide
  intro entry listed quote opens
  have same := all entry listed
  rw [opens] at same
  simpa using same

/-- Where a stream stands after a jump to a place. -/
theorem at_of_in {lexer : Lexer} (isIn : cursor.In lexer.source) :
    ({ lexer with index := cursor.offset, ahead := none } : Lexer).At lexer.source cursor :=
  ⟨rfl, isIn, rfl, fun _ looked => by cases looked⟩

/-- A literal is searched and sliced from the quote on. -/
theorem runs_literal {lexer : Lexer} {opening : Cursor} {quote : Char} {rest : List Char}
    (isIn : opening.In lexer.source) (text : opening.rest = quote :: rest)
    (ascii : isAscii quote = true) :
    Runs (do
      let quote ← byteAt opening.offset
      let close ← (Search.quoteEnd quote opening.offset (opening.offset + 1)).find
      let text ← slice (opening.skip 1).offset close
      jump (close + 1)
      return String.ofList (Quoted.decode text)) lexer
      (fun value later => ∃ close,
        Quoted.find quote opening.offset (opening.skip 1).offset rest = .ok close ∧
          value = String.ofList (Quoted.decode ((opening.skip 1).textUntil close)) ∧
          later.At lexer.source (close.skip 1))
      (fun error => Quoted.find quote opening.offset (opening.skip 1).offset rest = .error error ∧
        Cursor.IsPlace lexer.source error.offset) := by
  obtain ⟨offset, _⟩ := opening
  simp only at text
  subst text
  have first : (bytesOf lexer.source)[offset]? = some quote := by
    have byte := getElem?_bytesOf isIn 0
    rw [bytesOf_of_isAscii ascii] at byte
    exact byte
  have size := utf8Size_of_isAscii ascii
  have behind : Cursor.skip ⟨offset, quote :: rest⟩ 1 = ⟨offset + 1, rest⟩ := by
    rw [Cursor.skip_succ, size]
    rfl
  have bodyIn : Cursor.In ⟨offset + 1, rest⟩ lexer.source := behind ▸ isIn.skip 1
  simp only [behind, runs_bind]
  rw [runs_byteAt first, runs_quoteEnd bodyIn ascii]
  cases found : Quoted.find quote offset (offset + 1) rest with
  | error error =>
    rw [Quoted.find_eq_error found]
    exact ⟨rfl, isIn.isPlace⟩
  | ok close =>
    obtain ⟨front, back, rfl, rfl⟩ := Quoted.find_eq_ok found
    have closeIn := bodyIn.of_append rfl
    have after : Cursor.skip ⟨offset + 1 + byteLength front, quote :: back⟩ 1 =
        ⟨offset + 1 + byteLength front + 1, back⟩ := by
      rw [Cursor.skip_succ, size]
      rfl
    have afterIn : Cursor.In ⟨offset + 1 + byteLength front + 1, back⟩ lexer.source :=
      after ▸ closeIn.skip 1
    simp only
    rw [runs_slice bodyIn closeIn (Nat.le_add_right ..), runs_jump afterIn, runs_pure]
    refine ⟨_, rfl, rfl, ?_⟩
    rw [after]
    exact at_of_in afterIn

/-- Only a quote opens a literal. -/
theorem quoted_of_none {lexed : Lexed cursor} (read : cursor.next = .ok lexed)
    (unopened : lexed.token.kind.quote? = none) :
    Reader.quoted cursor = .error (.malformed lexed.token.start .expectedQuoted) := by
  rw [Reader.quoted]
  simp only [read]
  split
  · rfl
  · rename_i opened
    cases opened.symm.trans unopened

/-- What the reader of cursors makes of the search for the closing quote. -/
theorem quoted_eq {lexed : Lexed cursor} (read : cursor.next = .ok lexed) {quote : Char}
    (opens : lexed.token.kind.quote? = some quote) :
    match Quoted.find quote lexed.token.start lexed.after.offset lexed.after.rest with
    | .error error => Reader.quoted cursor = .error error
    | .ok close => ∃ reading, Reader.quoted cursor = .ok reading ∧
        reading.view = (String.ofList (Quoted.decode (lexed.after.textUntil close)),
          close.skip 1) := by
  cases found : Quoted.find quote lexed.token.start lexed.after.offset lexed.after.rest with
  | error error =>
    simp only
    rw [Reader.quoted]
    simp only [read]
    split
    · rename_i unopened
      cases unopened.symm.trans opens
    rename_i same
    cases same.symm.trans opens
    split
    · rename_i other
      cases found.symm.trans other
      rfl
    · rename_i other
      cases found.symm.trans other
  | ok close =>
    simp only
    rw [Reader.quoted]
    simp only [read]
    split
    · rename_i unopened
      cases unopened.symm.trans opens
    rename_i same
    cases same.symm.trans opens
    split
    · rename_i other
      cases found.symm.trans other
    · rename_i other
      cases found.symm.trans other
      exact ⟨_, rfl, rfl⟩

theorem mirrors_quoted :
    Mirrors source quoted cursor (Reader.quoted cursor) Reading.view := by
  rw [quoted]
  refine .peek (fun error failed => ?_) fun lexed read taken => ?_
  · rw [Reader.quoted]
    simp only [failed]
  cases opens : lexed.token.kind.quote? with
  | none =>
    rw [quoted_of_none read opens]
    exact .throw taken.start_isPlace
  | some quote =>
    have fixed : isVaried lexed.token.kind = false := by
      cases kind : lexed.token.kind <;> first | rfl | (rw [kind] at opens; cases opens)
    obtain ⟨spelling, listed, isIn, behind⟩ := spelled_of_taken taken fixed
    obtain ⟨rfl, ascii⟩ := quote_spelled _ listed quote opens
    have after : Cursor.skip ⟨lexed.token.start, quote :: lexed.after.rest⟩ 1 = lexed.after := by
      have skipped : Cursor.skip ⟨lexed.token.start, quote :: lexed.after.rest⟩ 1 =
          ⟨lexed.token.start + byteLength [quote], lexed.after.rest⟩ := rfl
      rw [skipped, ← behind]
    have outcome := quoted_eq read opens
    intro lexer stands
    obtain rfl := stands.source_eq
    have standsIn : Cursor.In ⟨lexed.token.start, quote :: lexed.after.rest⟩ lexer.source := isIn
    have runs := runs_literal standsIn rfl ascii
    rw [after, ← taken.stop_eq] at runs
    rw [Option.isSome_some, if_pos rfl]
    rw [← taken.stop_eq] at outcome
    refine runs.imp ?_ ?_
    · rintro value later ⟨close, found, rfl, there⟩
      rw [found] at outcome
      obtain ⟨reading, given, same⟩ := outcome
      exact ⟨reading, given, by rw [same], by rw [same]; exact there⟩
    · rintro error ⟨failed, place⟩
      rw [failed] at outcome
      exact ⟨outcome, place⟩

theorem mirrors_verbatim {opening : Nat} (place : Cursor.IsPlace source opening) :
    Mirrors source (verbatim opening) cursor (Reader.verbatim opening cursor) Reading.view := by
  rw [verbatim, Reader.verbatim]
  refine .here ?_
  intro lexer stands
  obtain rfl := stands.source_eq
  rw [runs_bind, runs_verbatim stands.isIn]
  cases verbatim? cursor.rest with
  | none => exact ⟨rfl, place⟩
  | some found => exact ⟨_, rfl, rfl, at_of_in (stands.isIn.skip _)⟩

/-- What the reader of cursors makes of the search for the closing bracket. -/
theorem script_eq (opening : Nat) (body : Cursor) :
    match Extent.find opening (.initial body.offset none) body.offset body.rest with
    | .error error => Reader.script opening body = .error error
    | .ok close => ∃ reading, Reader.script opening body = .ok reading ∧
        reading.view = (⟨String.ofList (body.textUntil close), ⟨opening, (close.skip 1).offset⟩⟩,
          close.skip 1) := by
  rw [Reader.script]
  split
  · rename_i failed
    split
    · rename_i other
      cases failed.symm.trans other
      rfl
    · rename_i other
      cases failed.symm.trans other
  · rename_i found
    split
    · rename_i other
      cases found.symm.trans other
    · rename_i other
      cases found.symm.trans other
      exact ⟨_, rfl, rfl⟩

theorem mirrors_script {opening : Nat} {body : Cursor} (place : Cursor.IsPlace source opening)
    (bodyIn : body.In source) :
    Mirrors source (script opening body.offset) cursor (Reader.script opening body)
      Reading.view := by
  intro lexer stands
  obtain rfl := stands.source_eq
  have sound := Extent.State.Sound.initial bodyIn.isPlace none
  rw [script, runs_bind, runs_scriptEnd bodyIn sound (.refl _)]
  have outcome := script_eq opening body
  cases found : Extent.find opening (.initial body.offset none) body.offset body.rest with
  | error error =>
    rw [found] at outcome
    exact ⟨outcome, Extent.isPlace_of_find bodyIn place sound found⟩
  | ok close =>
    rw [found] at outcome
    obtain ⟨reading, given, same⟩ := outcome
    obtain ⟨front, rest, text, rfl⟩ := Extent.find_eq_ok found
    have closeIn := bodyIn.of_append text
    have afterIn := closeIn.skip 1
    have after : body.offset + byteLength front + 1 =
        (Cursor.skip ⟨body.offset + byteLength front, ']' :: rest⟩ 1).offset := rfl
    simp only [runs_bind]
    rw [runs_slice bodyIn closeIn (Nat.le_add_right ..), after, runs_jump afterIn, runs_pure]
    exact ⟨reading, given, by rw [same], by rw [same]; exact at_of_in afterIn⟩

end Indexed

end BranchText
