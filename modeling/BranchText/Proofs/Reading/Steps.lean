import BranchText.Document.Reader
import BranchText.Proofs.Reading.Parts

/-!
# Steps of the nested readers

What one call of a nested reader does with the next token, in terms of what the calls it makes
read. A reader is followed to its value by one step for each part of a printed text.
-/

namespace BranchText

namespace Reader

open Cursor

variable {cursor : Cursor} {kind : TokenKind} {meant : String} {left rest : List Char}

/-! ## Sequences -/

section Sequence

variable {enclosing : Option Nat} {depth : Nat} {passage : Passage} {legacy : Legacy}
  {good : List Node × Legacy → Prop}

/-- A literal token is put behind the text of the passage. -/
theorem reads_sequence_literal (given : cursor.Gives kind meant left)
    (literal : isLiteral kind = true)
    (later : ∀ after : Cursor, after.rest = left →
      Reads (sequence enclosing depth (passage.append meant) legacy after) good rest) :
    Reads (sequence enclosing depth passage legacy cursor) good rest := by
  obtain ⟨lexed, next, rfl, rfl, restEq⟩ := given
  obtain ⟨reading, read, value, readingRest⟩ := later lexed.after restEq
  have unmarked : ∀ mark, isLiteral mark = false → lexed.token.kind ≠ mark := by
    rintro mark notLiteral rfl
    rw [notLiteral] at literal
    cases literal
  have notEnd : lexed.token.kind ≠ .endOfText := unmarked _ rfl
  have progress := lexed.size_lt notEnd
  have readingLe := reading.size_lt
  refine ⟨⟨reading.value, reading.rest, by omega⟩, ?_, value, readingRest⟩
  unfold sequence
  simp only [next, dif_neg notEnd, bind, Except.bind]
  split
  case h_7 => simp only [read, pure, Except.pure]
  all_goals exact absurd ‹lexed.token.kind = _› (unmarked _ rfl)

/-- A closing parenthesis ends the sequence that the opening one began. -/
theorem reads_sequence_close {opening : Nat} (text : cursor.rest = ')' :: rest)
    (isGood : good (passage.close, legacy)) :
    Reads (sequence (some opening) 0 passage legacy cursor) good rest := by
  obtain ⟨lexed, next, kindEq, -, restEq⟩ :=
    gives_mark (show (')', TokenKind.rightParen) ∈ marks by decide) text
  have notEnd : lexed.token.kind ≠ .endOfText := by rw [kindEq]; decide
  have afterLe := lexed.size_le
  refine ⟨⟨(passage.close, legacy), lexed.after, by omega⟩, ?_, isGood, restEq⟩
  unfold sequence
  simp [next, kindEq, bind, Except.bind, pure, Except.pure]

/-- The end of the text ends a document. -/
theorem reads_sequence_end (text : cursor.rest = []) (isGood : good (passage.close, legacy)) :
    Reads (sequence none depth passage legacy cursor) good [] := by
  obtain ⟨lexed, next, kindEq, -, restEq⟩ := gives_end text
  have afterLe := lexed.size_le
  refine ⟨⟨(passage.close, legacy), lexed.after, by omega⟩, ?_, isGood, restEq⟩
  unfold sequence
  simp [next, kindEq, allClosed, bind, Except.bind, pure, Except.pure]

/-- A block is read and put behind the passage. -/
theorem reads_sequence_block {inside : List Char} {goodBlock : Option Node × Legacy → Prop}
    (text : cursor.rest = '{' :: inside)
    (inner : ∀ (opening : Nat) (after : Cursor), after.rest = inside →
      Reads (block opening after) goodBlock left)
    (later : ∀ (node : Option Node) (declared : Legacy), goodBlock (node, declared) →
      ∀ after : Cursor, after.rest = left →
        Reads (sequence enclosing depth (passage.addBlock node) (legacy ++ declared) after)
          good rest) :
    Reads (sequence enclosing depth passage legacy cursor) good rest := by
  obtain ⟨lexed, next, kindEq, -, restEq⟩ :=
    gives_mark (show ('{', TokenKind.leftBrace) ∈ marks by decide) text
  have notEnd : lexed.token.kind ≠ .endOfText := by rw [kindEq]; decide
  obtain ⟨block, readBlock, isBlock, blockRest⟩ := inner lexed.token.start lexed.after restEq
  obtain ⟨reading, read, value, readingRest⟩ := later _ _ isBlock block.rest blockRest
  have progress := lexed.size_lt notEnd
  have blockLt := block.size_lt
  have readingLt := reading.size_lt
  refine ⟨⟨reading.value, reading.rest, by omega⟩, ?_, value, readingRest⟩
  unfold sequence
  simp [next, kindEq, readBlock, read, bind, Except.bind, pure, Except.pure]

end Sequence

/-! ## Choices -/

/-- Nested nodes are read up to their closing parenthesis. -/
theorem reads_choice_nodes {inside : List Char} {good : List Node × Legacy → Prop}
    (text : cursor.rest = '(' :: inside)
    (inner : ∀ (opening : Nat) (after : Cursor), after.rest = inside →
      Reads (sequence (some opening) 0 .empty .empty after) good rest) :
    Reads (choice cursor) (fun read => ∃ nodes, good (nodes, read.2) ∧ read.1 = .nodes nodes)
      rest := by
  obtain ⟨lexed, next, kindEq, -, restEq⟩ :=
    gives_mark (show ('(', TokenKind.leftParen) ∈ marks by decide) text
  have notEnd : lexed.token.kind ≠ .endOfText := by rw [kindEq]; decide
  obtain ⟨reading, read, isGood, readingRest⟩ := inner lexed.token.start lexed.after restEq
  have progress := lexed.size_lt notEnd
  have readingLt := reading.size_lt
  refine ⟨⟨(.nodes reading.value.1, reading.value.2), reading.rest, by omega⟩, ?_,
    ⟨_, isGood, rfl⟩, readingRest⟩
  unfold choice
  simp [next, kindEq, read, bind, Except.bind, pure, Except.pure]

/-- A call is read up to the end of its name. -/
theorem reads_choice_call {name : String} {c : Char}
    (text : cursor.rest = ['c', 'a', 'l', 'l', ' '] ++ name.toList ++ c :: rest)
    (valid : IsIdentifier name) (ends : endsWord c = true) :
    Reads (choice cursor) (fun read => ∃ span, read = (.call ⟨name, span⟩, .empty))
      (c :: rest) := by
  have more : name.toList ≠ [] := by simpa using valid.1
  have solid : Starts (name.toList ++ c :: rest) (·.isTrivia = false) :=
    (starts_identifier more valid.2 ends).imp fun _ part => (of_isPart part).1
  obtain ⟨lexed, next, kindEq, -, restEq⟩ :=
    gives_call (show cursor.rest = ['c', 'a', 'l', 'l'] ++ ' ' :: (name.toList ++ c :: rest) by
      simpa using text)
  have notEnd : lexed.token.kind ≠ .endOfText := by rw [kindEq]; decide
  obtain ⟨trimmed, skip, -, trimmedRest⟩ := reads_skipBlanks (.inr restEq) solid
  obtain ⟨reading, read, value, readingRest⟩ := reads_identifier trimmedRest valid ends
  have progress := lexed.size_lt notEnd
  have trimmedLt := trimmed.size_lt
  have readingLt := reading.size_lt
  refine ⟨⟨(.call ⟨reading.value, ⟨lexed.token.start, reading.rest.offset⟩⟩, .empty),
    reading.rest, by omega⟩, ?_, ⟨_, by rw [value]⟩, readingRest⟩
  unfold choice
  simp [next, kindEq, followedByBlank_eq_true restEq, skip, read, bind, Except.bind, pure,
    Except.pure]

/-! ## Entries -/

/-- What stands between two entries, or behind the last one. -/
def isSeparator (c : Char) : Prop := c = ',' ∨ c = '}'

theorem starts_separator {c : Char} (separates : isSeparator c) (rest : List Char) :
    Starts (c :: rest) fun kind => kind.isTrivia = false ∧ kind ≠ .number := by
  rcases separates with rfl | rfl
  · exact .mark (show (',', TokenKind.comma) ∈ marks by decide) (by decide)
  · exact .mark (show ('}', TokenKind.rightBrace) ∈ marks by decide) (by decide)

/-- What stands behind an entry is the next token. -/
theorem next_of_separator {c : Char} (text : cursor.rest = c :: rest) (separates : isSeparator c) :
    ∃ (trimmed : Reading Unit (cursor.size + 1)) (separator : Lexed trimmed.rest),
      skipTrivia cursor = .ok trimmed ∧ trimmed.rest.next = .ok separator ∧
        trimmed.rest.rest = c :: rest ∧ separator.after.rest = rest ∧
        separator.token.kind = if c = ',' then .comma else .rightBrace := by
  obtain ⟨trimmed, skip, -, trimmedRest⟩ := reads_skipTrivia (.inl text)
    ((starts_separator separates rest).imp fun _ kind => kind.1)
  rcases separates with rfl | rfl
  · obtain ⟨separator, next, kindEq, -, restEq⟩ :=
      gives_mark (show (',', TokenKind.comma) ∈ marks by decide) trimmedRest
    exact ⟨trimmed, separator, skip, next, trimmedRest, restEq, kindEq⟩
  · obtain ⟨separator, next, kindEq, -, restEq⟩ :=
      gives_mark (show ('}', TokenKind.rightBrace) ∈ marks by decide) trimmedRest
    exact ⟨trimmed, separator, skip, next, trimmedRest, restEq, kindEq⟩

/-- A printed weight is read back. -/
theorem reads_weight {written : Option Decimal} {c : Char}
    (text : cursor.rest = Print.weight written ++ c :: rest) (separates : isSeparator c)
    (whole : ∀ decimal, written = some decimal → decimal.places = 0) :
    Reads (weight cursor) (· = written) (c :: rest) := by
  cases written with
  | none =>
    have starts := starts_separator separates rest
    obtain ⟨trimmed, skip, -, trimmedRest⟩ :=
      reads_skipTrivia (.inl text) (starts.imp fun _ kind => kind.1)
    obtain ⟨kind, meant, left, ⟨number, next, rfl, -, -⟩, -, noNumber⟩ :=
      starts trimmed.rest trimmedRest
    refine ⟨⟨none, trimmed.rest, trimmed.size_lt⟩, ?_, rfl, trimmedRest⟩
    simp [weight, skip, next, noNumber, bind, Except.bind, pure, Except.pure]
  | some decimal =>
    have ends : endsWord c = true := by rcases separates with rfl | rfl <;> decide
    have solid : Starts (Print.number decimal.digits ++ c :: rest) (·.isTrivia = false) :=
      (starts_number decimal.digits ends).imp fun _ kind => by rw [kind]; rfl
    obtain ⟨trimmed, skip, -, trimmedRest⟩ := reads_skipTrivia (.inr text) solid
    obtain ⟨number, next, kindEq, meant, restEq⟩ := gives_number trimmedRest ends
    have trimmedLt := trimmed.size_lt
    have numberLe := number.size_le
    refine ⟨⟨some (Decimal.ofChars number.token.text.toList), number.after, by omega⟩, ?_, ?_,
      restEq⟩
    · simp [weight, skip, next, kindEq, bind, Except.bind, pure, Except.pure]
    · rw [meant, String.toList_ofList, Print.ofChars_number, ← whole decimal rfl]

/-- An entry is read, and after it the fork ends or goes on. -/
theorem reads_entries (opening : Nat) (found : List Branch) (legacy : Legacy)
    {entry final : List Char} {written : Option Decimal} {c : Char}
    {goodChoice : Choice × Legacy → Prop} {good : List Branch × Legacy → Prop}
    (text : cursor.rest = entry ∨ cursor.rest = ' ' :: entry)
    (starts : Starts entry fun kind =>
      kind.isTrivia = false ∧ kind ≠ .rightBrace ∧ kind ≠ .endOfText)
    (whole : ∀ decimal, written = some decimal → decimal.places = 0) (separates : isSeparator c)
    (chosen : ∀ after : Cursor, after.rest = entry →
      Reads (choice after) goodChoice (Print.weight written ++ c :: rest))
    (finish : ∀ value declared, goodChoice (value, declared) →
      (c = '}' ∧ final = rest ∧ good ((⟨value, written⟩ :: found).reverse, legacy ++ declared)) ∨
        (c = ',' ∧ ∀ after : Cursor, after.rest = rest →
          Reads (entries opening (⟨value, written⟩ :: found) (legacy ++ declared) after) good
            final)) :
    Reads (entries opening found legacy cursor) good final := by
  obtain ⟨start, skip, -, startRest⟩ := reads_skipTrivia text (starts.imp fun _ kind => kind.1)
  obtain ⟨kind, meant, left, ⟨first, next, rfl, -, -⟩, -, notBrace, notEnd⟩ :=
    starts start.rest startRest
  obtain ⟨reading, read, isChoice, readingRest⟩ := chosen start.rest startRest
  obtain ⟨weighted, readWeight, weightEq, weightRest⟩ := reads_weight readingRest separates whole
  obtain ⟨trimmed, separator, skipLast, nextLast, -, restEq, kindEq⟩ :=
    next_of_separator weightRest separates
  have startLt := start.size_lt
  have readingLt := reading.size_lt
  have weightedLt := weighted.size_lt
  have trimmedLt := trimmed.size_lt
  have separatorLe := separator.size_le
  rcases finish _ _ isChoice with ⟨rfl, rfl, isGood⟩ | ⟨rfl, goesOn⟩
  · refine ⟨⟨_, separator.after, by omega⟩, ?_, isGood, restEq⟩
    unfold entries
    simp [skip, next, notBrace, notEnd, read, readWeight, skipLast, nextLast, kindEq, weightEq, bind,
      Except.bind, pure, Except.pure]
  · obtain ⟨others, readOthers, isGood, othersRest⟩ := goesOn separator.after restEq
    have othersLt := others.size_lt
    refine ⟨⟨others.value, others.rest, by omega⟩, ?_, isGood, othersRest⟩
    rw [entries]
    simp [skip, next, notBrace, notEnd, read, readWeight, skipLast, nextLast, kindEq, weightEq,
      readOthers, bind, Except.bind, pure, Except.pure]

/-! ## References -/

section Mappings

variable {opening : Nat} {first : Bool} {found : List Mapping} {legacy : Legacy}
  {entry final : List Char} {c : Char} {goodChoice : Choice × Legacy → Prop}
  {good : List Mapping × Option Choice × Legacy → Prop}

/-- A mapping above all others is read, and after it the reference ends or goes on. -/
theorem reads_mappings_index {branch : Nat}
    (text : cursor.rest = Print.number branch ++ [' ', '-', '>', ' '] ++ entry ∨
      cursor.rest = ' ' :: (Print.number branch ++ [' ', '-', '>', ' '] ++ entry))
    (small : branch ≤ largestBranch) (above : ∀ other ∈ found, other.branch < branch)
    (starts : Starts entry (·.isTrivia = false)) (separates : isSeparator c)
    (chosen : ∀ after : Cursor, after.rest = entry → Reads (choice after) goodChoice (c :: rest))
    (finish : ∀ value declared, goodChoice (value, declared) →
      (c = '}' ∧ final = '}' :: rest ∧
          good (found ++ [⟨branch, value⟩], none, legacy ++ declared)) ∨
        (c = ',' ∧ ∀ after : Cursor, after.rest = rest →
          Reads (mappings opening false (found ++ [⟨branch, value⟩]) none (legacy ++ declared)
            after) good final)) :
    Reads (mappings opening first found none legacy cursor) good final := by
  have numeric : Starts (Print.number branch ++ [' ', '-', '>', ' '] ++ entry) (· = .number) := by
    simpa using starts_number branch (show endsWord ' ' = true by decide)
  obtain ⟨start, skip, -, startRest⟩ :=
    reads_skipTrivia text (numeric.imp fun _ kind => by rw [kind]; rfl)
  obtain ⟨kind, meant, left, ⟨lexed, next, kindEq, -, -⟩, rfl⟩ := numeric start.rest startRest
  have indicesText : start.rest.rest = Print.number branch ++ [' ', '-', '>'] ++ ' ' :: entry := by
    simpa using startRest
  obtain ⟨indices, readIndices, ⟨offset, indicesEq⟩, indicesRest⟩ :=
    reads_indexList indicesText small
  obtain ⟨trimmed, skipSpace, -, trimmedRest⟩ := reads_skipTrivia (.inr indicesRest) starts
  obtain ⟨reading, read, isChoice, readingRest⟩ := chosen trimmed.rest trimmedRest
  obtain ⟨spaced, separator, skipLast, nextLast, spacedRest, restEq, separatorKind⟩ :=
    next_of_separator readingRest separates
  have added : addMappings reading.value.1 [(branch, offset)] found
      = .ok (found ++ [⟨branch, reading.value.1⟩]) := addMappings_above above
  have startLt := start.size_lt
  have indicesLt := indices.size_lt
  have trimmedLt := trimmed.size_lt
  have readingLt := reading.size_lt
  have spacedLt := spaced.size_lt
  have separatorLe := separator.size_le
  rcases finish _ _ isChoice with ⟨rfl, rfl, isGood⟩ | ⟨rfl, goesOn⟩
  · refine ⟨⟨_, spaced.rest, by omega⟩, ?_, isGood, spacedRest⟩
    unfold mappings
    simp [skip, next, kindEq, readIndices, indicesEq, skipSpace, read, added, skipLast, nextLast,
      separatorKind, bind, Except.bind, pure, Except.pure]
  · obtain ⟨others, readOthers, isGood, othersRest⟩ := goesOn separator.after restEq
    have othersLt := others.size_lt
    refine ⟨⟨others.value, others.rest, by omega⟩, ?_, isGood, othersRest⟩
    rw [mappings]
    simp [skip, next, kindEq, readIndices, indicesEq, skipSpace, read, added, skipLast, nextLast,
      separatorKind, readOthers, bind, Except.bind, pure, Except.pure]

/-- A fallback is read, and the reference ends. -/
theorem reads_mappings_fallback (text : cursor.rest = entry ∨ cursor.rest = ' ' :: entry)
    (starts : Starts entry fun kind =>
      kind.isTrivia = false ∧ kind ≠ .rightBrace ∧ kind ≠ .endOfText ∧ kind ≠ .number)
    (chosen : ∀ after : Cursor, after.rest = entry → Reads (choice after) goodChoice ('}' :: rest))
    (finish : ∀ value declared, goodChoice (value, declared) →
      good (found, some value, legacy ++ declared)) :
    Reads (mappings opening first found none legacy cursor) good ('}' :: rest) := by
  obtain ⟨start, skip, -, startRest⟩ := reads_skipTrivia text (starts.imp fun _ kind => kind.1)
  obtain ⟨kind, meant, left, ⟨lexed, next, rfl, -, -⟩, -, notBrace, notEnd, notNumber⟩ :=
    starts start.rest startRest
  obtain ⟨reading, read, isChoice, readingRest⟩ := chosen start.rest startRest
  obtain ⟨spaced, separator, skipLast, nextLast, spacedRest, -, separatorKind⟩ :=
    next_of_separator readingRest (.inr rfl)
  have startLt := start.size_lt
  have readingLt := reading.size_lt
  have spacedLt := spaced.size_lt
  refine ⟨⟨_, spaced.rest, by omega⟩, ?_, finish _ _ isChoice, spacedRest⟩
  unfold mappings
  simp [skip, next, notBrace, notEnd, notNumber, read, skipLast, nextLast, separatorKind, bind,
    Except.bind, pure, Except.pure]

end Mappings

section Reference

variable {opening : Nat} {name : Option String} {silent reruns : Bool} {target : String}

/-- A reference without mappings is a copy. -/
theorem reads_reference_copy (text : cursor.rest = target.toList ++ '}' :: rest)
    (valid : IsIdentifier target) :
    Reads (reference opening name silent reruns cursor)
      (fun read => ∃ span, read = (⟨target, name, silent, [], none, reruns, span⟩, .empty))
      rest := by
  have more : target.toList ≠ [] := by simpa using valid.1
  have braceMark : ('}', TokenKind.rightBrace) ∈ marks := by decide
  obtain ⟨start, skip, -, startRest⟩ := reads_skipBlanks (.inl text)
    ((starts_identifier more valid.2 (by decide)).imp fun _ part => (of_isPart part).1)
  obtain ⟨word, read, wordEq, wordRest⟩ := reads_identifier startRest valid (by decide)
  obtain ⟨trimmed, skipSpace, -, trimmedRest⟩ :=
    reads_skipTrivia (.inl wordRest) (.mark braceMark (by decide))
  obtain ⟨brace, next, kindEq, -, -⟩ := gives_mark braceMark trimmedRest
  obtain ⟨close, readClose, -, closeRest⟩ := reads_closingBrace opening trimmedRest
  have startLt := start.size_lt
  have wordLt := word.size_lt
  have trimmedLt := trimmed.size_lt
  have closeLt := close.size_lt
  refine ⟨⟨_, close.rest, by omega⟩, ?_, ⟨⟨opening, close.rest.offset⟩, rfl⟩, closeRest⟩
  unfold reference
  simp [skip, read, wordEq, skipSpace, next, kindEq, readClose, bind, Except.bind, pure,
    Except.pure]

/-- A reference with mappings is read with them. -/
theorem reads_reference_mapped {inside : List Char}
    {good : List Mapping × Option Choice × Legacy → Prop}
    (text : cursor.rest = target.toList ++ ':' :: inside) (valid : IsIdentifier target)
    (mapped : ∀ after : Cursor, after.rest = inside →
      Reads (mappings opening true [] none .empty after) good ('}' :: rest)) :
    Reads (reference opening name silent reruns cursor)
      (fun read => ∃ found fallback span, good (found, fallback, read.2) ∧
        read.1 = ⟨target, name, silent, found, fallback, reruns, span⟩)
      rest := by
  have more : target.toList ≠ [] := by simpa using valid.1
  have colonMark : (':', TokenKind.colon) ∈ marks := by decide
  obtain ⟨start, skip, -, startRest⟩ := reads_skipBlanks (.inl text)
    ((starts_identifier more valid.2 (by decide)).imp fun _ part => (of_isPart part).1)
  obtain ⟨word, read, wordEq, wordRest⟩ := reads_identifier startRest valid (by decide)
  obtain ⟨trimmed, skipSpace, -, trimmedRest⟩ :=
    reads_skipTrivia (.inl wordRest) (.mark colonMark (by decide))
  obtain ⟨colon, next, kindEq, -, colonRest⟩ := gives_mark colonMark trimmedRest
  obtain ⟨entries, readEntries, isGood, entriesRest⟩ := mapped colon.after colonRest
  obtain ⟨close, readClose, -, closeRest⟩ := reads_closingBrace opening entriesRest
  have startLt := start.size_lt
  have wordLt := word.size_lt
  have trimmedLt := trimmed.size_lt
  have colonLe := colon.size_le
  have entriesLt := entries.size_lt
  have closeLt := close.size_lt
  refine ⟨⟨(⟨target, name, silent, entries.value.1, entries.value.2.1, reruns,
    ⟨opening, close.rest.offset⟩⟩, entries.value.2.2), close.rest, by omega⟩, ?_,
    ⟨_, _, _, isGood, rfl⟩, closeRest⟩
  unfold reference
  simp [skip, read, wordEq, skipSpace, next, kindEq, readEntries, readClose, bind, Except.bind,
    pure, Except.pure]

end Reference

/-! ## Blocks -/

section Block

variable {identifier : Option String} {silent isSet : Bool} {body : List Char}

/-- The texts that follow the name of a block: a first entry, or a reference. -/
def OpensBody (body : List Char) : Prop :=
  ∃ inside, body = '(' :: inside ∨ body = '@' :: inside ∨
    body = ['c', 'a', 'l', 'l'] ++ ' ' :: inside ∨
    body = ['e', 'v', 'a', 'l'] ++ ' ' :: '@' :: inside

/-- Kinds that a body can start with. -/
def startsBody (kind : TokenKind) : Bool := [.leftParen, .at, .call, .eval].contains kind

theorem OpensBody.starts (opens : OpensBody body) : Starts body (startsBody · = true) := by
  obtain ⟨inside, rfl | rfl | rfl | rfl⟩ := opens
  · exact .mark (show ('(', TokenKind.leftParen) ∈ marks by decide) (by decide)
  · exact .mark (show ('@', TokenKind.at) ∈ marks by decide) (by decide)
  · exact fun _ text => ⟨_, _, _, gives_call text, by decide⟩
  · exact fun _ text => ⟨_, _, _, gives_eval text, by decide⟩

theorem of_startsBody (starts : startsBody kind = true) :
    FollowsFlags kind ∧ kind ≠ .mode ∧ kind ≠ .use := by
  unfold FollowsFlags
  cases kind <;> first | decide | cases starts

/-- A block without a name is seen to have none. -/
theorem OpensBody.reads_label (opening : Nat) (opens : OpensBody cursor.rest) :
    Reads (label opening cursor) (· = none) cursor.rest := by
  obtain ⟨inside, text | text | text | text⟩ := opens
  · refine reads_label_none opening ?_
    rw [text]
    exact .mark (show ('(', TokenKind.leftParen) ∈ marks by decide) (by decide)
  · refine reads_label_none opening ?_
    rw [text]
    exact .mark (show ('@', TokenKind.at) ∈ marks by decide) (by decide)
  · exact reads_label_call opening text
  · exact reads_label_eval opening text

/-- The name of a block is read up to its body, and never taken for a mode. -/
theorem reads_name (opening : Nat) (text : cursor.rest = Print.label identifier ++ body)
    (valid : ∀ name, identifier = some name → IsIdentifier name) (opens : OpensBody body) :
    ∃ lexed : Lexed cursor, cursor.next = .ok lexed ∧ FollowsFlags lexed.token.kind ∧
      (followedByBlank lexed.after = false ∨
        (lexed.token.kind ≠ .mode ∧ lexed.token.kind ≠ .use)) ∧
      ∃ named, label opening cursor = .ok named ∧ named.value = identifier ∧
        (named.rest.rest = body ∨ named.rest.rest = ' ' :: body) := by
  cases identifier with
  | none =>
    have here : cursor.rest = body := text
    obtain ⟨kind, meant, left, ⟨lexed, next, rfl, -, -⟩, starts⟩ := opens.starts cursor here
    obtain ⟨follows, notMode, notUse⟩ := of_startsBody starts
    have opensHere : OpensBody cursor.rest := here ▸ opens
    obtain ⟨named, read, value, namedRest⟩ := opensHere.reads_label opening
    exact ⟨lexed, next, follows, .inr ⟨notMode, notUse⟩, named, read, value,
      .inl (namedRest.trans here)⟩
  | some name =>
    have nameText : cursor.rest = name.toList ++ ':' :: ' ' :: body := by
      simpa [Print.label] using text
    have isName := valid name rfl
    have more : name.toList ≠ [] := by simpa using isName.1
    obtain ⟨lexed, taken, left, next, part, meant, split, -, restEq⟩ :=
      next_of_identifier more nameText isName.2 (by simp [endsWord])
    have starts : Starts (left ++ ':' :: ' ' :: body) _ := starts_rest fun d member =>
      isName.2 d (split ▸ List.mem_append_right taken member)
    obtain ⟨solid, -, noHash, noPipe⟩ := of_isPart (isPart_of_isIdentifierToken part)
    obtain ⟨named, read, value, namedRest⟩ := reads_label_some opening nameText isName
    refine ⟨lexed, next, ⟨solid, noHash, noPipe⟩, .inl ?_, named, read, value, .inr namedRest⟩
    refine followedByBlank_eq_false ?_
    rw [restEq]
    exact starts.imp fun _ kind => kind.1

/-- What a block starts with is read up to its body. -/
theorem block_front (opening : Nat)
    (text : cursor.rest = Print.flags silent isSet ++ (Print.label identifier ++ body))
    (valid : ∀ name, identifier = some name → IsIdentifier name) (opens : OpensBody body) :
    ∃ (start : Reading Unit (cursor.size + 1)) (flagged : Reading Flags (start.rest.size + 1))
        (lexed : Lexed flagged.rest)
        (named : Reading (Option String) (flagged.rest.size + 1))
        (trimmed : Reading Unit (named.rest.size + 1)),
      skipTrivia cursor = .ok start ∧ flags ⟨false, false⟩ start.rest = .ok flagged ∧
        flagged.value = ⟨silent, isSet⟩ ∧ flagged.rest.next = .ok lexed ∧
        (followedByBlank lexed.after = false ∨
          (lexed.token.kind ≠ .mode ∧ lexed.token.kind ≠ .use)) ∧
        label opening flagged.rest = .ok named ∧ named.value = identifier ∧
        skipTrivia named.rest = .ok trimmed ∧ trimmed.rest.rest = body := by
  have follows : Starts (Print.label identifier ++ body) FollowsFlags := by
    intro other here
    obtain ⟨lexed, next, isFollowing, -⟩ := reads_name opening here valid opens
    exact ⟨_, _, _, ⟨lexed, next, rfl, rfl, rfl⟩, isFollowing⟩
  have solidBody : Starts body (·.isTrivia = false) :=
    opens.starts.imp fun _ starts => (of_startsBody starts).1.1
  have solid : Starts (Print.flags silent isSet ++ (Print.label identifier ++ body))
      (·.isTrivia = false) := by
    cases silent <;> cases isSet
    · exact follows.imp fun _ kind => kind.1
    · exact .mark (show ('|', TokenKind.pipe) ∈ marks by decide) (by decide)
    · exact .mark (show ('#', TokenKind.hash) ∈ marks by decide) (by decide)
    · exact .mark (show ('#', TokenKind.hash) ∈ marks by decide) (by decide)
  obtain ⟨start, skip, -, startRest⟩ := reads_skipTrivia (.inl text) solid
  obtain ⟨flagged, readFlags, flagsEq, flaggedRest⟩ := reads_flags silent isSet startRest follows
  obtain ⟨lexed, next, -, noMode, named, readName, nameEq, namedRest⟩ :=
    reads_name opening flaggedRest valid opens
  obtain ⟨trimmed, skipSpace, -, trimmedRest⟩ := reads_skipTrivia namedRest solidBody
  exact ⟨start, flagged, lexed, named, trimmed, skip, readFlags, flagsEq, next, noMode, readName,
    nameEq, skipSpace, trimmedRest⟩

/-- A block with entries is a fork. -/
theorem reads_block_fork (opening : Nat) {good : List Branch × Legacy → Prop}
    (text : cursor.rest = Print.flags silent isSet ++ (Print.label identifier ++ body))
    (valid : ∀ name, identifier = some name → IsIdentifier name)
    (opens : (∃ inside, body = '(' :: inside) ∨
      ∃ inside, body = ['c', 'a', 'l', 'l'] ++ ' ' :: inside)
    (inner : ∀ after : Cursor, after.rest = body →
      Reads (entries opening [] .empty after) good rest)
    (light : ∀ branches declared, good (branches, declared) → ∀ span, ∃ deck,
      Deck.ofWritten isSet (Fork.written ⟨identifier, silent, isSet, branches, span⟩)
        = (.ok deck : Except Float (Deck Float))) :
    Reads (block opening cursor) (fun read => ∃ branches span, good (branches, read.2) ∧
      read.1 = some (.fork ⟨identifier, silent, isSet, branches, span⟩)) rest := by
  have opensBody : OpensBody body := by
    rcases opens with ⟨inside, rfl⟩ | ⟨inside, rfl⟩
    · exact ⟨inside, .inl rfl⟩
    · exact ⟨inside, .inr (.inr (.inl rfl))⟩
  obtain ⟨start, flagged, lexed, named, trimmed, skip, readFlags, flagsEq, next, noMode, readName,
    nameEq, skipSpace, trimmedRest⟩ := block_front opening text valid opensBody
  obtain ⟨first, nextFirst, notEval, notAt⟩ : ∃ first : Lexed trimmed.rest,
      trimmed.rest.next = .ok first ∧ first.token.kind ≠ .eval ∧ first.token.kind ≠ .at := by
    rcases opens with ⟨inside, rfl⟩ | ⟨inside, rfl⟩
    · obtain ⟨first, nextFirst, kindEq, -⟩ :=
        gives_mark (show ('(', TokenKind.leftParen) ∈ marks by decide) trimmedRest
      exact ⟨first, nextFirst, by simp [kindEq], by simp [kindEq]⟩
    · obtain ⟨first, nextFirst, kindEq, -⟩ := gives_call trimmedRest
      exact ⟨first, nextFirst, by simp [kindEq], by simp [kindEq]⟩
  obtain ⟨reading, read, isGood, readingRest⟩ := inner trimmed.rest trimmedRest
  obtain ⟨deck, isLight⟩ := light _ _ isGood ⟨opening, reading.rest.offset⟩
  have startLt := start.size_lt
  have flaggedLt := flagged.size_lt
  have namedLt := named.size_lt
  have trimmedLt := trimmed.size_lt
  have readingLt := reading.size_lt
  refine ⟨⟨(some (.fork ⟨identifier, silent, isSet, reading.value.1,
    ⟨opening, reading.rest.offset⟩⟩), reading.value.2), reading.rest, by omega⟩, ?_,
    ⟨_, _, isGood, rfl⟩, readingRest⟩
  unfold block
  rcases noMode with noBlank | ⟨notMode, notUse⟩
  · simp [skip, readFlags, flagsEq, next, noBlank, readName, nameEq, skipSpace, nextFirst, notEval,
      notAt, read, forkNode, isLight, bind, Except.bind, pure, Except.pure]
  · simp [skip, readFlags, flagsEq, next, notMode, notUse, readName, nameEq, skipSpace, nextFirst,
      notEval, notAt, read, forkNode, isLight, bind, Except.bind, pure, Except.pure]

/-- A block with an at sign is a reference. -/
theorem reads_block_reference (opening : Nat) {reruns : Bool} {inside : List Char}
    {good : Reference × Legacy → Prop}
    (text : cursor.rest = Print.flags silent false ++ (Print.label identifier ++
      ((if reruns then ['e', 'v', 'a', 'l', ' '] else []) ++ '@' :: inside)))
    (valid : ∀ name, identifier = some name → IsIdentifier name)
    (inner : ∀ after : Cursor, after.rest = inside →
      Reads (reference opening identifier silent reruns after) good rest) :
    Reads (block opening cursor) (fun read => ∃ reference, good (reference, read.2) ∧
      read.1 = some (.reference reference)) rest := by
  have sign : ('@', TokenKind.at) ∈ marks := by decide
  cases reruns with
  | false =>
    have front : cursor.rest
        = Print.flags silent false ++ (Print.label identifier ++ '@' :: inside) := text
    have opens : OpensBody ('@' :: inside) := ⟨inside, .inr (.inl rfl)⟩
    obtain ⟨start, flagged, lexed, named, trimmed, skip, readFlags, flagsEq, next, noMode,
      readName, nameEq, skipSpace, trimmedRest⟩ :=
      block_front opening front valid opens
    obtain ⟨first, nextFirst, kindEq, -, firstRest⟩ := gives_mark sign trimmedRest
    obtain ⟨reading, read, isGood, readingRest⟩ := inner first.after firstRest
    have startLt := start.size_lt
    have flaggedLt := flagged.size_lt
    have namedLt := named.size_lt
    have trimmedLt := trimmed.size_lt
    have firstLe := first.size_le
    have readingLt := reading.size_lt
    refine ⟨⟨(some (.reference reading.value.1), reading.value.2), reading.rest, by omega⟩, ?_,
      ⟨_, isGood, rfl⟩, readingRest⟩
    unfold block
    rcases noMode with noBlank | ⟨notMode, notUse⟩
    · simp [skip, readFlags, flagsEq, next, noBlank, readName, nameEq, skipSpace, nextFirst, kindEq,
        read, bind, Except.bind, pure, Except.pure]
    · simp [skip, readFlags, flagsEq, next, notMode, notUse, readName, nameEq, skipSpace, nextFirst,
        kindEq, read, bind, Except.bind, pure, Except.pure]
  | true =>
    have front : cursor.rest = Print.flags silent false ++
        (Print.label identifier ++ (['e', 'v', 'a', 'l'] ++ ' ' :: '@' :: inside)) := text
    have opens : OpensBody (['e', 'v', 'a', 'l'] ++ ' ' :: '@' :: inside) :=
      ⟨inside, .inr (.inr (.inr rfl))⟩
    obtain ⟨start, flagged, lexed, named, trimmed, skip, readFlags, flagsEq, next, noMode,
      readName, nameEq, skipSpace, trimmedRest⟩ :=
      block_front opening front valid opens
    obtain ⟨first, nextFirst, kindEq, -, firstRest⟩ := gives_eval trimmedRest
    have follows : referenceFollows first.after = .ok true :=
      referenceFollows_eq (.inr firstRest) (.mark sign (by decide))
    obtain ⟨spaced, skipAgain, -, spacedRest⟩ :=
      reads_skipTrivia (.inr firstRest) (.mark sign (by decide))
    obtain ⟨at', nextAt, atKind, -, atRest⟩ := gives_mark sign spacedRest
    obtain ⟨reading, read, isGood, readingRest⟩ := inner at'.after atRest
    have startLt := start.size_lt
    have flaggedLt := flagged.size_lt
    have namedLt := named.size_lt
    have trimmedLt := trimmed.size_lt
    have firstLe := first.size_le
    have spacedLt := spaced.size_lt
    have atLe := at'.size_le
    have readingLt := reading.size_lt
    refine ⟨⟨(some (.reference reading.value.1), reading.value.2), reading.rest, by omega⟩, ?_,
      ⟨_, isGood, rfl⟩, readingRest⟩
    unfold block
    rcases noMode with noBlank | ⟨notMode, notUse⟩
    · simp [skip, readFlags, flagsEq, next, noBlank, readName, nameEq, skipSpace, nextFirst, kindEq,
        follows, skipAgain, nextAt, atKind, read, bind, Except.bind, pure, Except.pure]
    · simp [skip, readFlags, flagsEq, next, notMode, notUse, readName, nameEq, skipSpace, nextFirst,
        kindEq, follows, skipAgain, nextAt, atKind, read, bind, Except.bind, pure, Except.pure]

end Block

end Reader

end BranchText
