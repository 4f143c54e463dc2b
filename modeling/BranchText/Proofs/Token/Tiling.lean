import BranchText.Proofs.Compared.Fronts
import Mathlib.Logic.Function.Iterate

/-!
# Tokens and comments tile the source

What the token stream passes in a source are tokens, line comments and block comments, one after
another. `Tile` is such a stretch, `Tile.Fits` says what stands in the source where it is, and
`Tile.Cover` that stretches follow one another without a gap. A stream that has delivered any number
of tokens has covered the source up to its index. It fails only in front of a block comment that is
not closed, and stays there.
-/

namespace BranchText

/-- A stretch of a source that the token stream passes. -/
inductive Tile where
  | token (token : Token)
  | lineComment (start stop : Nat)
  | blockComment (start stop : Nat)
  deriving Repr, DecidableEq

/-- A line comment ends in front of its line break, or with the source. -/
inductive EndsLine (body : List Char) : List Char → Prop
  | atEnd : EndsLine body []
  | atLineFeed (rest : List Char) (single : body.getLast? ≠ some '\r') :
      EndsLine body ('\n' :: rest)
  | atPair (rest : List Char) : EndsLine body ('\r' :: '\n' :: rest)

namespace Tile

/-- The byte at which the stretch starts. -/
def start : Tile → Nat
  | .token taken => taken.start
  | .lineComment start _ | .blockComment start _ => start

/-- The byte behind the stretch. -/
def stop : Tile → Nat
  | .token taken => taken.stop
  | .lineComment _ stop | .blockComment _ stop => stop

/-- The tokens that are delivered for the stretch. A block comment gives a blank at its end. -/
def delivered : Tile → List Token
  | .token taken => [taken]
  | .lineComment .. => []
  | .blockComment _ stop => [⟨.whitespace, stop, stop, " "⟩]

/-- The byte is one of the stretch. -/
def Holds (tile : Tile) (byte : Nat) : Prop := tile.start ≤ byte ∧ byte < tile.stop

/-- The source has the stretch: a lexeme that is no mark of a comment, a line comment up to its line
break, or a block comment up to the first mark that closes it. -/
inductive Fits (source : List Char) : Tile → Prop
  | token {cursor : Cursor} (isIn : cursor.In source) (line : cursor.token.kind ≠ .lineComment)
      (comment : cursor.token.kind ≠ .blockCommentStart) : Fits source (.token cursor.token)
  | lineComment {front body back : List Char} (split : source = front ++ '/' :: '/' :: body ++ back)
      (unbroken : '\n' ∉ body) (ends : EndsLine body back) :
      Fits source
        (.lineComment (byteLength front) (byteLength (front ++ '/' :: '/' :: body)))
  | blockComment {front body back : List Char}
      (split : source = front ++ '/' :: '*' :: body ++ '*' :: '/' :: back)
      (first : ¬ ['*', '/'] <:+: body ++ ['*']) :
      Fits source
        (.blockComment (byteLength front) (byteLength (front ++ '/' :: '*' :: body ++ ['*', '/'])))

/-- What is delivered for a stretch is no mark of a comment. -/
theorem Fits.noMark {source : List Char} {tile : Tile} (fits : tile.Fits source) {given : Token}
    (isGiven : given ∈ tile.delivered) :
    given.kind ≠ .lineComment ∧ given.kind ≠ .blockCommentStart := by
  cases fits with
  | token isIn line comment =>
    obtain rfl := List.mem_singleton.1 isGiven
    exact ⟨line, comment⟩
  | lineComment => cases isGiven
  | blockComment =>
    obtain rfl := List.mem_singleton.1 isGiven
    exact ⟨nofun, nofun⟩

/-- The stretches follow one another from one byte to another. -/
inductive Cover : Nat → List Tile → Nat → Prop
  | nil {byte : Nat} : Cover byte [] byte
  | cons {tile : Tile} {rest : List Tile} {last : Nat} (forward : tile.start ≤ tile.stop)
      (further : Cover tile.stop rest last) : Cover tile.start (tile :: rest) last

namespace Cover

variable {first middle last : Nat} {front back tiles : List Tile}

theorem append (covers : Cover first front middle) (further : Cover middle back last) :
    Cover first (front ++ back) last := by
  induction covers with
  | nil => exact further
  | cons forward _ ih => exact .cons forward (ih further)

theorem le (covers : Cover first tiles last) : first ≤ last := by
  induction covers with
  | nil => exact Nat.le_refl _
  | cons forward _ ih => exact Nat.le_trans forward ih

theorem start_ge (covers : Cover first tiles last) {tile : Tile} (member : tile ∈ tiles) :
    first ≤ tile.start := by
  induction covers with
  | nil => cases member
  | cons forward _ ih =>
    rcases List.mem_cons.1 member with rfl | later
    · exact Nat.le_refl _
    · exact Nat.le_trans forward (ih later)

/-- Every byte on the way is in exactly one of the stretches. -/
theorem existsUnique_holds (covers : Cover first tiles last) {byte : Nat} (above : first ≤ byte)
    (below : byte < last) : ∃! place : Nat,
      ∃ tile : Tile, tiles[place]? = some tile ∧ tile.Holds byte := by
  induction covers with
  | nil => exact absurd below (Nat.not_lt.2 above)
  | @cons tile rest last forward further ih =>
    by_cases inside : byte < tile.stop
    · refine ⟨0, ⟨tile, rfl, above, inside⟩, ?_⟩
      rintro (- | place) ⟨other, here, holds⟩
      · rfl
      · exact absurd inside
          (Nat.not_lt.2 (Nat.le_trans (further.start_ge (List.mem_of_getElem? here)) holds.1))
    · obtain ⟨place, found, only⟩ := ih (Nat.le_of_not_lt inside) below
      refine ⟨place + 1, found, ?_⟩
      rintro (- | other) ⟨tile', here, holds⟩
      · cases here
        exact absurd holds.2 inside
      · rw [only other ⟨tile', here, holds⟩]

end Cover

end Tile

/-! ## Comments -/

section Comments

variable {text : List Char}

/-- What is skipped of a line ends in front of its line break, and has none. -/
theorem endsLine_lengthToLineBreak (text : List Char) :
    '\n' ∉ text.take (lengthToLineBreak text) ∧
      EndsLine (text.take (lengthToLineBreak text)) (text.drop (lengthToLineBreak text)) := by
  fun_induction lengthToLineBreak text with
  | case1 => exact ⟨List.not_mem_nil, .atEnd⟩
  | case2 rest => exact ⟨List.not_mem_nil, .atLineFeed rest (Option.some_ne_none _).symm⟩
  | case3 rest => exact ⟨List.not_mem_nil, .atPair rest⟩
  | case4 c rest single pair ih =>
    obtain ⟨unbroken, ends⟩ := ih
    rw [Nat.add_comm, List.take_succ_cons, List.drop_succ_cons]
    refine ⟨fun member => ?_, ?_⟩
    · exact (List.mem_cons.1 member).elim (fun same => single same.symm) unbroken
    · generalize length : lengthToLineBreak rest = count at ends
      generalize left : rest.drop count = back at ends
      cases ends with
      | atEnd => exact .atEnd
      | atPair more => exact .atPair more
      | atLineFeed more last =>
        refine .atLineFeed more fun isReturn => ?_
        cases passed : rest.take count with
        | nil =>
          rw [passed] at isReturn
          have whole : rest = '\n' :: more := by
            rw [← left, ← List.nil_append (rest.drop count), ← passed, List.take_append_drop]
          exact pair _ (Option.some.inj isReturn) whole
        | cons d later =>
          rw [passed, List.getLast?_cons_cons] at isReturn
          exact last (by rw [passed, isReturn])

/-- A block comment ends with the first mark that closes it. -/
theorem eq_of_lengthOfBlockComment? {length : Nat}
    (closed : lengthOfBlockComment? text = some length) :
    ∃ body back, text = body ++ '*' :: '/' :: back ∧ length = body.length + 2 ∧
      ¬ ['*', '/'] <:+: body ++ ['*'] := by
  fun_induction lengthOfBlockComment? text generalizing length with
  | case1 => cases closed
  | case2 back =>
    cases closed
    exact ⟨[], back, rfl, rfl, fun inside => absurd inside.length_le (by decide)⟩
  | case3 c rest goesOn ih =>
    obtain ⟨more, closes, rfl⟩ := Option.map_eq_some_iff.1 closed
    obtain ⟨body, back, rfl, rfl, first⟩ := ih closes
    refine ⟨c :: body, back, rfl, by rw [List.length_cons, ← Nat.add_assoc, Nat.add_comm 1], fun inside => ?_⟩
    rw [List.cons_append, List.infix_cons_iff] at inside
    refine inside.elim (fun starts => ?_) first
    obtain ⟨rfl, slash⟩ := List.cons_prefix_cons.1 starts
    cases body with
    | nil => exact absurd ( List.cons_prefix_cons.1 slash).1 (by decide)
    | cons d later =>
      obtain ⟨rfl, -⟩ := List.cons_prefix_cons.1 slash
      exact goesOn _ rfl rfl

/-- A block comment that does not end has no mark that would close it. -/
theorem not_infix_of_lengthOfBlockComment? (unclosed : lengthOfBlockComment? text = none) :
    ¬ ['*', '/'] <:+: text := by
  fun_induction lengthOfBlockComment? text with
  | case1 => exact fun inside => absurd inside.length_le (by decide)
  | case2 => cases unclosed
  | case3 c rest goesOn ih =>
    rw [List.infix_cons_iff]
    rintro (starts | inside)
    · obtain ⟨rfl, later, rfl⟩ := List.cons_prefix_cons.1 starts
      exact goesOn _ rfl rfl
    · exact ih (Option.map_eq_none_iff.1 unclosed) inside

end Comments

/-! ## The end of the source -/

/-- Only at the end of a text is its end read. -/
theorem Lexeme.eq_nil_of_kind {text : List Char} (kind : (lexeme text).kind = .endOfText) :
    text = [] := by
  cases text with
  | nil => rfl
  | cons first rest =>
    exfalso
    unfold lexeme at kind
    dsimp only at kind
    split at kind
    · unfold ofEscape at kind
      split at kind
      · cases kind
      · cases kind
      · split at kind <;> cases kind
      · cases kind
    · split at kind
      · rename_i spelling kind' found
        have kinds : ∀ entry ∈ spellings, entry.2 ≠ .endOfText := by decide
        exact kinds _ (List.mem_of_find?_eq_some found) kind
      · unfold ofRun at kind
        split at kind
        · cases kind
        · split at kind <;> cases kind

namespace Cursor

variable {source : List Char} {cursor later : Cursor}

/-- Behind the end of the source nothing is left. -/
theorem rest_of_endOfText {lexed : Lexed cursor} (read : cursor.next = .ok lexed)
    (kind : lexed.token.kind = .endOfText) : lexed.after.rest = [] := by
  fun_induction Cursor.next cursor with
  | case1 cursor none =>
    cases read
    exact none
  | case2 => cases read
  | case3 =>
    rename_i given ih
    cases read
    exact ih given kind
  | case4 => cases read
  | case5 =>
    cases read
    cases kind
  | case6 cursor more =>
    cases read
    exact absurd (Lexeme.eq_nil_of_kind kind) more

/-- Of two places the one with less behind it is further on. -/
theorem In.offset_lt (isIn : cursor.In source) (isLater : later.In source)
    (less : later.size < cursor.size) : cursor.offset < later.offset := by
  have behind : byteLength later.rest < byteLength cursor.rest := by
    obtain ⟨front, split, -⟩ := isIn
    obtain ⟨passed, same, -⟩ := isLater
    have isSuffix : later.rest <:+ cursor.rest :=
      List.suffix_of_suffix_length_le ⟨passed, same.symm⟩ ⟨front, split.symm⟩ (Nat.le_of_lt less)
    obtain ⟨between, rest⟩ := isSuffix
    obtain ⟨c, more, rfl⟩ := List.exists_cons_of_ne_nil (show between ≠ [] by
      rintro rfl
      rw [size, size, ← rest] at less
      exact absurd less (Nat.lt_irrefl _))
    have positive := c.utf8Size_pos
    rw [← rest, byteLength_append, byteLength_cons]
    omega
  have := isIn.stop_eq
  have := isLater.stop_eq
  omega

/-- A line break is a token. -/
theorem next_of_endsLine {body : List Char} (ends : EndsLine body cursor.rest) :
    ∃ lexed : Lexed cursor, cursor.next = .ok lexed := by
  generalize left : cursor.rest = back at ends
  have newline : back ≠ [] → (lexeme back).kind = .newline := fun more => by
    cases ends with
    | atEnd => exact absurd rfl more
    | atLineFeed => rfl
    | atPair => rfl
  by_cases more : back = []
  · obtain ⟨lexed, read, -⟩ := takes_end (left.trans more)
    exact ⟨lexed, read⟩
  · have kind : cursor.token.kind = .newline := by
      rw [token, left, newline more]
    obtain ⟨lexed, read, -⟩ := takes_lexeme (left ▸ more) (by rw [kind]; decide)
      (by rw [kind]; decide)
    exact ⟨lexed, read⟩

section Marks

variable (isIn : cursor.In source)

/-- The mark of a comment is two characters. -/
theorem afterLexeme_of_mark {mark rest : List Char} (two : mark.length = 2)
    (length : (lexeme cursor.rest).length = 2) (split : cursor.rest = mark ++ rest) :
    cursor.afterLexeme = ⟨cursor.offset + byteLength mark, rest⟩ := by
  rw [afterLexeme, length, ← two, skip_of_append split]

include isIn

/-- A line comment is passed up to its line break. -/
theorem fits_lineComment (kind : cursor.token.kind = .lineComment) :
    Tile.Fits source (.lineComment cursor.offset
      (cursor.afterLexeme.skip (lengthToLineBreak cursor.afterLexeme.rest)).offset) := by
  obtain ⟨mark, rest, split⟩ := Lexeme.eq_of_mark (.inl rfl) kind
  obtain ⟨unbroken, ends⟩ := endsLine_lengthToLineBreak rest
  rw [afterLexeme_of_mark rfl (by rw [mark]) split]
  obtain ⟨front, whole, measured⟩ := isIn
  generalize lengthToLineBreak rest = count at unbroken ends
  have line : source = front ++ '/' :: '/' :: rest.take count ++ rest.drop count := by
    rw [whole, split, ← List.take_append_drop count rest]
    simp
  have fits := Tile.Fits.lineComment line unbroken ends
  rw [byteLength_append, measured] at fits
  simpa [skip, Nat.add_assoc] using fits

/-- A block comment is passed up to the first mark that closes it. -/
theorem fits_blockComment (kind : cursor.token.kind = .blockCommentStart) {length : Nat}
    (closed : lengthOfBlockComment? cursor.afterLexeme.rest = some length) :
    Tile.Fits source (.blockComment cursor.offset (cursor.afterLexeme.skip length).offset) := by
  obtain ⟨mark, rest, split⟩ := Lexeme.eq_of_mark (.inr rfl) kind
  rw [afterLexeme_of_mark rfl (by rw [mark]) split] at closed ⊢
  obtain ⟨body, back, rfl, rfl, first⟩ := eq_of_lengthOfBlockComment? closed
  obtain ⟨front, whole, measured⟩ := isIn
  have comment : source = front ++ '/' :: '*' :: body ++ '*' :: '/' :: back := by
    rw [whole, split]
    simp
  have fits := Tile.Fits.blockComment comment first
  rw [byteLength_append, byteLength_append, measured] at fits
  have taken : (body ++ '*' :: '/' :: back).take (body.length + 2) = body ++ ['*', '/'] := by
    rw [List.take_length_add_append]
    rfl
  simpa [skip, taken, Nat.add_assoc] using fits

end Marks

/-- No token is read only in front of a block comment that is not closed. -/
theorem unclosed_of_next {error : ReadError} (failed : cursor.next = .error error) :
    error = .malformed cursor.offset .unclosedComment ∧
      ∃ body, cursor.rest = '/' :: '*' :: body ∧ ¬ ['*', '/'] <:+: body := by
  have more : cursor.rest ≠ [] := fun none => by
    obtain ⟨lexed, read, -⟩ := takes_end none
    cases read.symm.trans failed
  by_cases line : cursor.token.kind = .lineComment
  · have ends := (endsLine_lengthToLineBreak cursor.afterLexeme.rest).2
    obtain ⟨lexed, read⟩ := next_of_endsLine
      (show EndsLine _ (cursor.afterLexeme.skip (lengthToLineBreak _)).rest from ends)
    obtain ⟨found, given, -⟩ := Takes.line more line ⟨lexed, read, rfl, rfl⟩
    cases given.symm.trans failed
  by_cases comment : cursor.token.kind = .blockCommentStart
  · cases closed : lengthOfBlockComment? cursor.afterLexeme.rest with
    | some length =>
      obtain ⟨lexed, read, -⟩ := takes_comment more comment closed
      cases read.symm.trans failed
    | none =>
      refine ⟨Except.error.inj (failed.symm.trans (next_unclosed more comment closed)), ?_⟩
      obtain ⟨mark, rest, split⟩ := Lexeme.eq_of_mark (.inr rfl) comment
      rw [afterLexeme_of_mark rfl (by rw [mark]) split] at closed
      exact ⟨rest, split, not_infix_of_lengthOfBlockComment? closed⟩
  · obtain ⟨lexed, read, -⟩ := takes_lexeme more line comment
    cases read.symm.trans failed

/-- What is passed up to the place behind the next token. -/
theorem exists_tiles (isIn : cursor.In source) {lexed : Lexed cursor}
    (read : cursor.next = .ok lexed) :
    ∃ tiles, Tile.Cover cursor.offset tiles lexed.after.offset ∧
      (∀ tile ∈ tiles, tile.Fits source) ∧ tiles.flatMap Tile.delivered = [lexed.token] := by
  have single {tile : Tile} (forward : tile.start ≤ tile.stop) (fits : tile.Fits source) :
      Tile.Cover tile.start [tile] tile.stop ∧ ∀ other ∈ [tile], other.Fits source :=
    ⟨.cons forward .nil, fun _ listed => List.mem_singleton.1 listed ▸ fits⟩
  fun_induction Cursor.next cursor with
  | case1 cursor none =>
    cases read
    have atEnd : cursor.token.kind = .endOfText := by simp [token, none, lexeme]
    have behind : cursor.token.stop = cursor.offset := by simp [token, skip, none]
    obtain ⟨covers, fits⟩ := @single (.token cursor.token) (Nat.le_add_right ..)
      (.token isIn (by rw [atEnd]; decide) (by rw [atEnd]; decide))
    have covers : Tile.Cover cursor.offset [.token cursor.token] cursor.token.stop := covers
    rw [behind] at covers
    exact ⟨_, covers, fits, rfl⟩
  | case2 => cases read
  | case3 cursor more _ line resumed _ tail given ih =>
    cases read
    have isResumed : resumed.In source := isIn.afterLexeme.skip _
    obtain ⟨tiles, covers, fit, delivered⟩ := ih isResumed given
    have forward : cursor.offset ≤ resumed.offset := Nat.le_trans (Nat.le_add_right ..)
      (Nat.le_add_right ..)
    exact ⟨_, @Tile.Cover.cons (.lineComment cursor.offset resumed.offset) _ _ forward covers,
      List.forall_mem_cons.2 ⟨fits_lineComment isIn line, fit⟩, delivered⟩
  | case4 => cases read
  | case5 cursor more _ comment length closed after _ =>
    cases read
    obtain ⟨covers, fits⟩ := @single (.blockComment cursor.offset after.offset)
      (Nat.le_trans (Nat.le_add_right ..) (Nat.le_add_right ..))
      (fits_blockComment isIn comment closed)
    exact ⟨_, covers, fits, rfl⟩
  | case6 cursor more _ line comment =>
    cases read
    obtain ⟨covers, fits⟩ := @single (.token cursor.token) (Nat.le_add_right ..)
      (.token isIn line comment)
    exact ⟨_, covers, fits, rfl⟩

end Cursor

/-! ## Streams -/

namespace Lexer

/-- Taking tokens from a stream, as often as one likes, gives these and leads to that stream. -/
inductive Delivers (lexer : Lexer) : List Token → Lexer → Prop
  | none : lexer.Delivers [] lexer
  | next {tokens : List Token} {token : Token} {later last : Lexer}
      (before : lexer.Delivers tokens later) (taken : later.next = (.ok token, last)) :
      lexer.Delivers (tokens ++ [token]) last

/-- The stream stands at the cursor and has not looked ahead. -/
structure Stands (source : List Char) (cursor : Cursor) (lexer : Lexer) : Prop where
  isIn : cursor.In source
  eq : lexer = ⟨source, cursor.offset, Option.none⟩

variable {source : List Char} {cursor : Cursor} {lexer last : Lexer} {token : Token}

namespace Stands

theorem start (source : List Char) : Stands source (Cursor.start source) (Lexer.start source) :=
  ⟨Cursor.start_in source, rfl⟩

variable (stands : Stands source cursor lexer)
include stands

/-- Taking a token is reading it at the cursor. -/
theorem next_ok {lexed : Lexed cursor} (read : cursor.next = .ok lexed) :
    ∃ later, lexer.next = (.ok lexed.token, later) ∧ Stands source lexed.after later := by
  have taken := Indexed.taken_of_next stands.isIn read
  obtain ⟨isIn, rfl⟩ := stands
  refine ⟨⟨source, lexed.after.offset, Option.none⟩, ?_, taken.after_in, rfl⟩
  rw [Lexer.next, Lexer.read, isIn.at?]
  simp only [read, taken.stop_eq]

/-- A stream that fails stays where it is. -/
theorem next_error {error : ReadError} (failed : cursor.next = .error error) :
    lexer.next = (.error error, lexer) := by
  obtain ⟨isIn, rfl⟩ := stands
  rw [Lexer.next, Lexer.read, isIn.at?]
  simp only [failed]

/-- What was taken was read at the cursor. -/
theorem exists_lexed (taken : lexer.next = (.ok token, last)) :
    ∃ lexed : Lexed cursor, cursor.next = .ok lexed ∧ lexed.token = token ∧
      Stands source lexed.after last := by
  cases read : cursor.next with
  | error error =>
    rw [stands.next_error read] at taken
    cases taken
  | ok lexed =>
    obtain ⟨later, given, there⟩ := stands.next_ok read
    rw [given] at taken
    cases taken
    exact ⟨lexed, rfl, rfl, there⟩

end Stands

/-- The tokens and the index of a stream are those of stretches that cover the source so far. -/
theorem Delivers.exists_tiles {tokens : List Token}
    (delivers : (start source).Delivers tokens lexer) :
    ∃ cursor, Stands source cursor lexer ∧ ∃ tiles, Tile.Cover 0 tiles cursor.offset ∧
      (∀ tile ∈ tiles, tile.Fits source) ∧ tiles.flatMap Tile.delivered = tokens := by
  induction delivers with
  | none => exact ⟨_, .start source, [], .nil, nofun, rfl⟩
  | next _ taken ih =>
    obtain ⟨cursor, stands, tiles, covers, fit, rfl⟩ := ih
    obtain ⟨lexed, read, rfl, there⟩ := stands.exists_lexed taken
    obtain ⟨more, further, fits, delivered⟩ := Cursor.exists_tiles stands.isIn read
    refine ⟨lexed.after, there, tiles ++ more, covers.append further, ?_, ?_⟩
    · exact fun tile listed => (List.mem_append.1 listed).elim (fit tile) (fits tile)
    · rw [List.flatMap_append, delivered]

/-- A stream can be taken from until its end or an error. -/
theorem exists_delivers {tokens : List Token} (stands : Stands source cursor lexer)
    (delivers : (Lexer.start source).Delivers tokens lexer) :
    ∃ tokens last, (Lexer.start source).Delivers tokens last ∧
      ((∃ token ∈ tokens.getLast?, token.kind = .endOfText) ∧ last.index = byteLength source ∨
        ∃ error, last.next = (.error error, last)) := by
  induction size : cursor.size using Nat.strongRecOn generalizing tokens cursor lexer with
  | ind _ ih =>
    subst size
    cases read : cursor.next with
    | error error => exact ⟨_, _, delivers, .inr ⟨error, stands.next_error read⟩⟩
    | ok lexed =>
      obtain ⟨later, taken, there⟩ := stands.next_ok read
      by_cases atEnd : lexed.token.kind = .endOfText
      · have index : later.index = byteLength source := by
          rw [← there.isIn.stop_eq, Cursor.rest_of_endOfText read atEnd, there.eq]
          rfl
        exact ⟨_, later, .next delivers taken, .inl ⟨⟨lexed.token, by simp, atEnd⟩, index⟩⟩
      · exact ih _ (lexed.size_lt atEnd) there (.next delivers taken) rfl

/-- A stream over a source is taken from as often as one likes. What was delivered are no marks of
comments, and stretches with these tokens cover the source up to the index, so that every byte
before it is in exactly one of them. Every token but the end moves the index on. Only a block
comment that is not closed fails, at the index, and every further attempt fails alike. In the end
the stream gives its last token or fails. -/
theorem delivers_tile (source : List Char) :
    (∀ tokens lexer, (start source).Delivers tokens lexer →
      (∀ token ∈ tokens, token.kind ≠ .lineComment ∧ token.kind ≠ .blockCommentStart) ∧
      (∃ tiles, Tile.Cover 0 tiles lexer.index ∧ (∀ tile ∈ tiles, tile.Fits source) ∧
        tiles.flatMap Tile.delivered = tokens ∧
        ∀ byte < lexer.index, ∃! place : Nat, ∃ tile : Tile,
          tiles[place]? = some tile ∧ tile.Holds byte) ∧
      (∀ token last, lexer.next = (.ok token, last) → token.kind ≠ .endOfText →
        lexer.index < last.index) ∧
      ∀ error last, lexer.next = (.error error, last) →
        (∃ front body, source = front ++ '/' :: '*' :: body ∧ byteLength front = lexer.index ∧
          ¬ ['*', '/'] <:+: body ∧ error = .malformed (byteLength front) .unclosedComment) ∧
        ∀ count, ((·.next.2)^[count] last).next = (.error error, lexer)) ∧
    ∃ tokens lexer, (start source).Delivers tokens lexer ∧
      ((∃ token ∈ tokens.getLast?, token.kind = .endOfText) ∧ lexer.index = byteLength source ∨
        ∃ error, lexer.next = (.error error, lexer)) := by
  refine ⟨fun tokens lexer delivers => ?_, exists_delivers (.start source) .none⟩
  obtain ⟨cursor, stands, tiles, covers, fit, delivered⟩ := delivers.exists_tiles
  have index : lexer.index = cursor.offset := by rw [stands.eq]
  refine ⟨fun token listed => ?_, ⟨tiles, index ▸ covers, fit, delivered, fun byte below =>
    covers.existsUnique_holds (Nat.zero_le _) (index ▸ below)⟩, fun token last taken more => ?_,
    fun error last failed => ?_⟩
  · rw [← delivered] at listed
    obtain ⟨tile, isTile, given⟩ := List.mem_flatMap.1 listed
    exact (fit tile isTile).noMark given
  · obtain ⟨lexed, read, rfl, there⟩ := stands.exists_lexed taken
    rw [stands.eq, there.eq]
    exact stands.isIn.offset_lt there.isIn (lexed.size_lt more)
  · cases read : cursor.next with
    | ok lexed =>
      obtain ⟨later, taken, -⟩ := stands.next_ok read
      rw [taken] at failed
      cases failed
    | error =>
      have again := stands.next_error read
      rw [again] at failed
      cases failed
      obtain ⟨rfl, body, split, unclosed⟩ := Cursor.unclosed_of_next read
      obtain ⟨front, whole, measured⟩ := stands.isIn
      refine ⟨⟨front, body, split ▸ whole, measured.trans index.symm, unclosed,
        by rw [measured]⟩, fun count => ?_⟩
      have stays : lexer.next.2 = lexer := by rw [again]
      have same := @Function.iterate_fixed _ (fun later : Lexer => later.next.2) _ stays count
      rw [same, again]

end Lexer

end BranchText
