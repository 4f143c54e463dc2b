import BranchText.Proofs.Reading.Words

/-!
# Parts of blocks

What the readers of the parts that do not nest make of a printed block: blanks, flags, the name in
front, index lists and the closing brace. `Starts` says what kind of token a text starts with,
wherever in a source it stands.
-/

namespace BranchText

/-- The text starts with a token of a good kind. -/
def Starts (text : List Char) (good : TokenKind → Prop) : Prop :=
  ∀ cursor : Cursor, cursor.rest = text →
    ∃ kind meant left, cursor.Gives kind meant left ∧ good kind

namespace Starts

variable {text : List Char} {good better : TokenKind → Prop}

theorem imp (starts : Starts text good) (weaker : ∀ kind, good kind → better kind) :
    Starts text better := by
  intro cursor textEq
  obtain ⟨kind, meant, left, given, isGood⟩ := starts cursor textEq
  exact ⟨kind, meant, left, given, weaker kind isGood⟩

theorem mark {c : Char} {kind : TokenKind} {rest : List Char} (listed : (c, kind) ∈ Cursor.marks)
    (isGood : good kind) : Starts (c :: rest) good :=
  fun _ textEq => ⟨kind, _, _, Cursor.gives_mark listed textEq, isGood⟩

/-- A text that starts with something solid does not start with a blank. -/
theorem head?_solid (starts : Starts text (·.isTrivia = false)) :
    ∀ c, text.head? = some c → Lexeme.isBlank c = false := by
  intro c head
  by_cases blank : Lexeme.isBlank c = true
  · obtain ⟨first, rest, rfl⟩ : ∃ first rest, text = first :: rest := by
      cases text with
      | nil => cases head
      | cons first rest => exact ⟨first, rest, rfl⟩
    obtain rfl : first = c := by simpa using head
    have run : lexeme (first :: rest) = Lexeme.ofRun first rest := by
      simp only [Lexeme.isBlank, Bool.or_eq_true, decide_eq_true_eq] at blank
      rcases blank with rfl | rfl <;> rfl
    rw [Lexeme.ofRun, if_pos blank] at run
    obtain ⟨kind, meant, left, ⟨lexed, next, kindEq, -, -⟩, solid⟩ := starts ⟨0, first :: rest⟩ rfl
    obtain ⟨other, next', isBlank, -, -⟩ :=
      Cursor.gives_of_lexeme (show lexeme (Cursor.mk 0 (first :: rest)).rest = _ from run)
        (by decide) (by decide)
    rw [next, Except.ok.injEq] at next'
    rw [← kindEq, next', isBlank] at solid
    cases solid
  · simpa using blank

end Starts

namespace Reader

open Cursor

/-- Nothing is skipped before a token that is kept. -/
theorem reads_skipWhile_keep {skipped : TokenKind → Bool} (atEnd : skipped .endOfText = false)
    {cursor : Cursor} {kind : TokenKind} {meant : String} {left : List Char}
    (given : cursor.Gives kind meant left) (keeps : skipped kind = false) :
    Reads (skipWhile skipped atEnd cursor) (fun _ => True) cursor.rest := by
  obtain ⟨lexed, next, kindEq, -, -⟩ := given
  refine ⟨⟨(), cursor, Nat.lt_succ_self _⟩, ?_, trivial, rfl⟩
  unfold skipWhile
  rw [next]
  simp [kindEq, keeps]

/-- A skipped token goes first. -/
theorem reads_skipWhile_drop {skipped : TokenKind → Bool} (atEnd : skipped .endOfText = false)
    {cursor : Cursor} {kind : TokenKind} {meant : String} {left rest : List Char}
    (given : cursor.Gives kind meant left) (skips : skipped kind = true)
    (later : ∀ after : Cursor, after.rest = left →
      Reads (skipWhile skipped atEnd after) (fun _ => True) rest) :
    Reads (skipWhile skipped atEnd cursor) (fun _ => True) rest := by
  obtain ⟨lexed, next, kindEq, -, restEq⟩ := given
  obtain ⟨reading, tail, -, tailRest⟩ := later lexed.after restEq
  have progress := lexed.size_lt fun atEnd' => by
    rw [← kindEq, atEnd', atEnd] at skips
    cases skips
  have bound := reading.size_lt
  refine ⟨⟨(), reading.rest, by omega⟩, ?_, trivial, tailRest⟩
  rw [skipWhile, next]
  simp [kindEq, skips, tail]

/-- At most one blank is skipped before something solid. -/
theorem reads_skipWhile {skipped : TokenKind → Bool} (atEnd : skipped .endOfText = false)
    (skips : skipped .whitespace = true) (narrow : ∀ kind, skipped kind = true → kind.isTrivia = true)
    {cursor : Cursor} {rest : List Char} (text : cursor.rest = rest ∨ cursor.rest = ' ' :: rest)
    (solid : Starts rest (·.isTrivia = false)) :
    Reads (skipWhile skipped atEnd cursor) (fun _ => True) rest := by
  have direct : ∀ after : Cursor, after.rest = rest →
      Reads (skipWhile skipped atEnd after) (fun _ => True) rest := by
    intro after here
    obtain ⟨kind, meant, left, given, isSolid⟩ := solid after here
    have keeps : skipped kind = false := by
      by_cases skipsKind : skipped kind = true
      · rw [narrow kind skipsKind] at isSolid
        cases isSolid
      · simpa using skipsKind
    exact here ▸ reads_skipWhile_keep atEnd given keeps
  rcases text with here | blank
  · exact direct cursor here
  · exact reads_skipWhile_drop atEnd (gives_blank blank solid.head?_solid) skips direct

theorem reads_skipTrivia {cursor : Cursor} {rest : List Char}
    (text : cursor.rest = rest ∨ cursor.rest = ' ' :: rest)
    (solid : Starts rest (·.isTrivia = false)) :
    Reads (skipTrivia cursor) (fun _ => True) rest :=
  reads_skipWhile rfl rfl (fun _ trivia => trivia) text solid

theorem reads_skipBlanks {cursor : Cursor} {rest : List Char}
    (text : cursor.rest = rest ∨ cursor.rest = ' ' :: rest)
    (solid : Starts rest (·.isTrivia = false)) :
    Reads (skipBlanks cursor) (fun _ => True) rest :=
  reads_skipWhile rfl rfl (fun kind blank => by rw [eq_of_beq blank]; rfl) text solid

/-- The closing brace of a block is read. -/
theorem reads_closingBrace (opening : Nat) {cursor : Cursor} {rest : List Char}
    (text : cursor.rest = '}' :: rest) :
    Reads (closingBrace opening cursor) (fun _ => True) rest := by
  have mark : ('}', TokenKind.rightBrace) ∈ marks := by decide
  obtain ⟨trimmed, skip, -, trimmedRest⟩ := reads_skipTrivia (.inl text) (.mark mark (by decide))
  obtain ⟨lexed, next, kindEq, -, restEq⟩ := gives_mark mark trimmedRest
  refine ⟨⟨(), lexed.after, ?_⟩, ?_, trivial, restEq⟩
  · have trimmedLe := trimmed.size_lt
    have lexedLe := lexed.size_le
    omega
  · simp only [closingBrace, skip, next, kindEq, bind, Except.bind, pure, Except.pure]

/-! ## Flags -/

/-- The kinds of tokens that a block can go on with behind its flags. -/
def FollowsFlags (kind : TokenKind) : Prop :=
  kind.isTrivia = false ∧ kind ≠ .hash ∧ kind ≠ .pipe

/-- Without a flag the flags end. -/
theorem reads_flags_none (found : Flags) {cursor : Cursor}
    (follows : Starts cursor.rest FollowsFlags) :
    Reads (flags found cursor) (· = found) cursor.rest := by
  obtain ⟨kind, meant, left, ⟨lexed, next, kindEq, -, -⟩, -, noHash, noPipe⟩ := follows cursor rfl
  refine ⟨⟨found, cursor, Nat.lt_succ_self _⟩, ?_, rfl, rfl⟩
  unfold flags
  rw [next]
  simp only
  split
  · rfl
  · rename_i marked
    simp [kindEq, noHash, noPipe] at marked

/-- A flag is noted, and then the others are read. -/
theorem reads_flags_mark {found noted : Flags} {cursor : Cursor} {c : Char} {kind : TokenKind}
    {flagged rest : List Char} (mark : (c, kind) ∈ marks) (text : cursor.rest = c :: flagged)
    (meaning : (if kind = .hash then some { found with silent := true }
      else if kind = .pipe then some { found with isSet := true } else none) = some noted)
    (solid : Starts flagged (·.isTrivia = false)) {final : Flags}
    (later : ∀ after : Cursor, after.rest = flagged →
      Reads (flags noted after) (· = final) rest) :
    Reads (flags found cursor) (· = final) rest := by
  obtain ⟨lexed, next, kindEq, -, restEq⟩ := gives_mark mark text
  obtain ⟨trimmed, skip, -, trimmedRest⟩ := reads_skipTrivia (.inl restEq) solid
  obtain ⟨reading, tail, value, readingRest⟩ := later trimmed.rest trimmedRest
  have progress := lexed.size_lt fun atEnd => by
    rw [← kindEq, atEnd] at meaning
    cases meaning
  have trimmedLe := trimmed.size_lt
  have readingLe := reading.size_lt
  refine ⟨⟨reading.value, reading.rest, by omega⟩, ?_, value, readingRest⟩
  rw [← kindEq] at meaning
  rw [flags, next]
  simp only
  split
  · rename_i unmarked
    rw [meaning] at unmarked
    cases unmarked
  · rename_i other marked
    rw [meaning, Option.some.injEq] at marked
    subst marked
    simp [skip, tail]

/-- The printed flags of a block are read back. -/
theorem reads_flags (silent isSet : Bool) {cursor : Cursor} {rest : List Char}
    (text : cursor.rest = Print.flags silent isSet ++ rest) (follows : Starts rest FollowsFlags) :
    Reads (flags ⟨false, false⟩ cursor) (· = ⟨silent, isSet⟩) rest := by
  have solid : Starts rest (·.isTrivia = false) := follows.imp fun _ kind => kind.1
  have hash : ('#', TokenKind.hash) ∈ marks := by decide
  have pipe : ('|', TokenKind.pipe) ∈ marks := by decide
  have none : ∀ found (after : Cursor), after.rest = rest →
      Reads (flags found after) (· = found) rest := by
    rintro found after rfl
    exact reads_flags_none found follows
  cases silent <;> cases isSet
  · exact none _ cursor text
  · exact reads_flags_mark pipe text rfl solid (none _)
  · exact reads_flags_mark hash text rfl solid (none _)
  · exact reads_flags_mark hash text rfl (.mark pipe (by decide))
      fun after here => reads_flags_mark pipe here rfl solid (none _)

/-! ## Labels -/

/-- What starts with something solid is not a blank. -/
theorem followedByBlank_eq_false {cursor : Cursor}
    (solid : Starts cursor.rest (·.isTrivia = false)) : followedByBlank cursor = false := by
  by_cases blank : followedByBlank cursor = true
  · obtain ⟨kind, meant, left, ⟨lexed, next, kindEq, -, -⟩, isSolid⟩ := solid cursor rfl
    have same : lexed.token = cursor.token := by
      unfold followedByBlank at blank
      rw [Cursor.next] at next
      split at next
      · rw [← Except.ok.inj next]
      · split at next
        · rename_i isLine
          rw [isLine] at blank
          cases blank
        · rename_i isComment
          rw [isComment] at blank
          cases blank
        · rw [← Except.ok.inj next]
    rw [followedByBlank, ← same, kindEq, isSolid] at blank
    cases blank
  · simpa using blank

/-- A blank is one. -/
theorem followedByBlank_eq_true {cursor : Cursor} {rest : List Char}
    (text : cursor.rest = ' ' :: rest) : followedByBlank cursor = true := by
  have run : lexeme (' ' :: rest) = Lexeme.ofRun ' ' rest := rfl
  rw [followedByBlank, Cursor.token, text, run, Lexeme.ofRun, if_pos (by decide)]
  rfl

/-- An identifier starts with a part of one. -/
theorem starts_identifier {name rest : List Char} {c : Char} (some : name ≠ [])
    (chars : ∀ d ∈ name, isIdentifierChar d = true) (ends : endsWord c = true) :
    Starts (name ++ c :: rest) (isPart · = true) := by
  intro cursor text
  obtain ⟨lexed, taken, left, next, part, -⟩ :=
    next_of_identifier some text chars (by simpa using ends)
  exact ⟨_, _, _, ⟨lexed, next, rfl, rfl, rfl⟩, isPart_of_isIdentifierToken part⟩

/-- Parts of identifiers are solid and no marks. -/
theorem of_isPart {kind : TokenKind} (part : isPart kind = true) :
    kind.isTrivia = false ∧ kind ≠ .at ∧ kind ≠ .hash ∧ kind ≠ .pipe := by
  cases kind <;> first | decide | cases part

/-- The rest of an identifier and its colon start with something solid, and no at sign. -/
theorem starts_rest {name rest : List Char} (chars : ∀ d ∈ name, isIdentifierChar d = true) :
    Starts (name ++ ':' :: rest) fun kind => kind.isTrivia = false ∧ kind ≠ .at := by
  by_cases some : name = []
  · subst some
    exact .mark (show (':', TokenKind.colon) ∈ marks by decide) (by decide)
  · exact (starts_identifier some chars (by decide)).imp fun _ part =>
      ⟨(of_isPart part).1, (of_isPart part).2.1⟩

/-- Whether a reference follows, told by the token behind the blanks. -/
theorem referenceFollows_eq {cursor : Cursor} {rest : List Char} {follows : Bool}
    (text : cursor.rest = rest ∨ cursor.rest = ' ' :: rest)
    (starts : Starts rest fun kind => kind.isTrivia = false ∧ decide (kind = .at) = follows) :
    referenceFollows cursor = .ok follows := by
  obtain ⟨trimmed, skip, -, trimmedRest⟩ := reads_skipTrivia text (starts.imp fun _ kind => kind.1)
  obtain ⟨kind, meant, left, ⟨lexed, next, kindEq, -, -⟩, -, isAt⟩ := starts trimmed.rest trimmedRest
  simp [referenceFollows, skip, next, kindEq, isAt, bind, Except.bind, pure, Except.pure]

/-- A block that does not start like an identifier has no name. -/
theorem reads_label_none (opening : Nat) {cursor : Cursor}
    (starts : Starts cursor.rest (isPart · = false)) :
    Reads (label opening cursor) (· = none) cursor.rest := by
  obtain ⟨kind, meant, left, ⟨lexed, next, rfl, -, -⟩, noPart⟩ := starts cursor rfl
  have other : isIdentifierToken lexed.token = false := by
    by_cases part : isIdentifierToken lexed.token = true
    · rw [isPart_of_isIdentifierToken part] at noPart
      cases noPart
    · simpa using part
  refine ⟨⟨none, cursor, Nat.lt_succ_self _⟩, ?_, rfl, rfl⟩
  simp [label, next, other, bind, Except.bind, pure, Except.pure]

/-- A call is no name. -/
theorem reads_label_call (opening : Nat) {cursor : Cursor} {rest : List Char}
    (text : cursor.rest = ['c', 'a', 'l', 'l'] ++ ' ' :: rest) :
    Reads (label opening cursor) (· = none) cursor.rest := by
  obtain ⟨lexed, next, kindEq, -, restEq⟩ := gives_call text
  have part : isIdentifierToken lexed.token = true := by
    simp [isIdentifierToken, kindEq, TokenKind.isKeyword]
  refine ⟨⟨none, cursor, Nat.lt_succ_self _⟩, ?_, rfl, rfl⟩
  simp [label, next, part, kindEq, followedByBlank_eq_true restEq, bind, Except.bind, pure,
    Except.pure]

/-- The repeated execution of a target is no name. -/
theorem reads_label_eval (opening : Nat) {cursor : Cursor} {rest : List Char}
    (text : cursor.rest = ['e', 'v', 'a', 'l'] ++ ' ' :: '@' :: rest) :
    Reads (label opening cursor) (· = none) cursor.rest := by
  obtain ⟨lexed, next, kindEq, -, restEq⟩ := gives_eval text
  have part : isIdentifierToken lexed.token = true := by
    simp [isIdentifierToken, kindEq, TokenKind.isKeyword]
  have follows : referenceFollows lexed.after = .ok true :=
    referenceFollows_eq (.inr restEq)
      (.mark (show ('@', TokenKind.at) ∈ marks by decide) (by decide))
  refine ⟨⟨none, cursor, Nat.lt_succ_self _⟩, ?_, rfl, rfl⟩
  simp [label, next, part, kindEq, follows, bind, Except.bind, pure, Except.pure]

/-- A printed name is read back, with its colon. -/
theorem reads_label_some (opening : Nat) {cursor : Cursor} {name : String} {rest : List Char}
    (text : cursor.rest = name.toList ++ ':' :: rest) (valid : IsIdentifier name) :
    Reads (label opening cursor) (· = some name) rest := by
  have colonMark : (':', TokenKind.colon) ∈ marks := by decide
  have more : name.toList ≠ [] := by simpa using valid.1
  obtain ⟨lexed, taken, left, next, part, meant, split, -, restEq⟩ :=
    next_of_identifier more text valid.2 (by simp [endsWord])
  have starts : Starts lexed.after.rest fun kind => kind.isTrivia = false ∧ kind ≠ .at :=
    restEq ▸ starts_rest fun d member =>
      valid.2 d (split ▸ List.mem_append_right taken member)
  have noBlank := followedByBlank_eq_false (starts.imp fun _ kind => kind.1)
  have noReference : referenceFollows lexed.after = .ok false :=
    referenceFollows_eq (.inl rfl) (starts.imp fun _ kind => ⟨kind.1, by simp [kind.2]⟩)
  obtain ⟨reading, read, value, readingRest⟩ := reads_identifier text valid (by decide)
  obtain ⟨trimmed, skip, -, trimmedRest⟩ :=
    reads_skipBlanks (.inl readingRest) (.mark colonMark (by decide))
  obtain ⟨colon, colonNext, colonKind, -, colonRest⟩ := gives_mark colonMark trimmedRest
  have readingLe := reading.size_lt
  have trimmedLe := trimmed.size_lt
  have colonLe := colon.size_le
  refine ⟨⟨some name, colon.after, by omega⟩, ?_, rfl, colonRest⟩
  simp [label, next, part, noBlank, noReference, read, skip, colonNext, colonKind, value, bind,
    Except.bind, pure, Except.pure]

/-! ## Mappings -/

/-- The token that starts a number. -/
theorem starts_number (value : Nat) {c : Char} {rest : List Char} (ends : endsWord c = true) :
    Starts (Print.number value ++ c :: rest) (· = .number) :=
  fun _ text => ⟨_, _, _, gives_number text ends, rfl⟩

/-- A printed index and its arrow are read back. -/
theorem reads_indexList {cursor : Cursor} {branch : Nat} {rest : List Char}
    (text : cursor.rest = Print.number branch ++ [' ', '-', '>'] ++ rest)
    (small : branch ≤ largestBranch) :
    Reads (indexList cursor) (fun indices => ∃ offset, indices = [(branch, offset)]) rest := by
  have textEq : cursor.rest = Print.number branch ++ ' ' :: '-' :: '>' :: rest := by
    simpa using text
  obtain ⟨number, next, kindEq, meant, numberRest⟩ := gives_number textEq (by decide)
  have arrow : Starts ('-' :: '>' :: rest) (·.isTrivia = false) :=
    fun _ here => ⟨_, _, _, gives_arrow here, by decide⟩
  obtain ⟨trimmed, skip, -, trimmedRest⟩ := reads_skipTrivia (.inr numberRest) arrow
  obtain ⟨lexed, arrowNext, arrowKind, -, arrowRest⟩ := gives_arrow trimmedRest
  have index : branchIndex number.token = .ok branch := by
    simp [branchIndex, meant, Print.branchIndex?_number small]
  have numberLe := number.size_le
  have trimmedLe := trimmed.size_lt
  have lexedLe := lexed.size_le
  refine ⟨⟨[(branch, number.token.start)], lexed.after, by omega⟩, ?_, ⟨_, rfl⟩, arrowRest⟩
  unfold indexList
  simp [next, kindEq, index, skip, arrowNext, arrowKind, bind, Except.bind, pure, Except.pure]

/-- A mapping above all others comes last. -/
theorem insertMapping_above {mapping : Mapping} {found : List Mapping}
    (above : ∀ other ∈ found, other.branch < mapping.branch) :
    insertMapping mapping found = found ++ [mapping] := by
  induction found with
  | nil => rfl
  | cons other rest ih =>
    rw [List.forall_mem_cons] at above
    rw [insertMapping, if_neg (by omega), ih above.2]
    rfl

theorem addMappings_above {choice : Choice} {branch offset : Nat} {found : List Mapping}
    (above : ∀ other ∈ found, other.branch < branch) :
    addMappings choice [(branch, offset)] found = .ok (found ++ [⟨branch, choice⟩]) := by
  have fresh : found.any (·.branch = branch) = false := by
    rw [List.any_eq_false]
    intro other member
    have below := above other member
    simp only [decide_eq_true_eq]
    omega
  have last : insertMapping ⟨branch, choice⟩ found = found ++ [⟨branch, choice⟩] :=
    insertMapping_above above
  simp [addMappings, fresh, last]

end Reader

end BranchText
