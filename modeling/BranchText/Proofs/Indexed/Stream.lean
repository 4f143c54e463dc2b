import BranchText.Proofs.Indexed.Tokens

/-!
# The token stream by byte index

At the byte index of a place the next token is that of the cursor there: a run is sliced at the end
that was measured in bytes, and the byte searches for the end of a comment find the places that the
cursor skips to.
-/

namespace BranchText

namespace Cursor

variable {source : List Char} {cursor : Cursor}

/-- Skipping the characters of a run leads behind it. -/
theorem skip_of_append {run rest : List Char} (text : cursor.rest = run ++ rest) :
    cursor.skip run.length = ⟨cursor.offset + byteLength run, rest⟩ := by
  simp [skip, text]

theorem skip_succ (offset : Nat) (c : Char) (rest : List Char) (count : Nat) :
    skip ⟨offset, c :: rest⟩ (count + 1) = skip ⟨offset + c.utf8Size, rest⟩ count := by
  simp [skip, Nat.add_assoc]

/-- The text up to the end of a run is the run. -/
theorem textUntil_skip (count : Nat) :
    cursor.textUntil (cursor.skip count) = cursor.rest.take count := by
  rw [textUntil, size_skip]
  by_cases within : count ≤ cursor.size
  · rw [Nat.sub_sub_self within]
  · have beyond : cursor.size ≤ count := Nat.le_of_not_le within
    rw [Nat.sub_eq_zero_of_le beyond, Nat.sub_zero, List.take_of_length_le beyond]
    exact List.take_length

theorem In.afterLexeme (isIn : cursor.In source) : cursor.afterLexeme.In source := isIn.skip _

/-- The end of the text is a token that takes nothing. -/
theorem afterLexeme_of_nil (none : cursor.rest = []) : cursor.afterLexeme = cursor := by
  obtain ⟨offset, rest⟩ := cursor
  subst none
  rfl

theorem In.of_append {run rest : List Char} (isIn : cursor.In source)
    (text : cursor.rest = run ++ rest) : Cursor.In ⟨cursor.offset + byteLength run, rest⟩ source :=
  skip_of_append text ▸ isIn.skip run.length

end Cursor

namespace Indexed

variable {α : Type} {source : List Char} {cursor : Cursor} {lexer : Lexer}
  {failing : ReadError → Prop}

/-- The token at a place is the one that the cursor reads there. -/
theorem runs_scan {good : Token → Lexer → Prop} (isIn : cursor.In lexer.source) :
    Runs (scan cursor.offset) lexer good failing ↔ good cursor.token lexer := by
  unfold scan
  rw [runs_bind, runs_place isIn]
  split
  · rename_i starts
    obtain ⟨run, rest, text, ascii, read, length, measured⟩ := run_of_startsRun starts
    have back : cursor.skip run.length = ⟨cursor.offset + run.length, rest⟩ := by
      rw [Cursor.skip_of_append text, byteLength_of_isAscii ascii]
    have stop : (cursor.skip run.length).offset = cursor.offset + run.length := by rw [back]
    have sliced : cursor.textUntil (cursor.skip run.length) = run := by
      rw [Cursor.textUntil_skip, text, List.take_left]
    have token : cursor.token =
        ⟨cursor.token.kind, cursor.offset, cursor.offset + run.length, String.ofList run⟩ := by
      rw [← stop, ← length, ← read]
      rfl
    rw [runs_bind, runs_source, isIn.drop_bytesOf, measured, ← stop, runs_bind,
      runs_slice isIn (isIn.skip _) (by rw [stop]; exact Nat.le_add_right ..), sliced, runs_pure,
      stop, ← token]
  · rw [runs_pure]

/-! ## The ends of comments -/

/-- The bytes of a text from a place on, by their distance. -/
theorem getElem?_bytesOf (isIn : cursor.In source) (distance : Nat) :
    (bytesOf source)[cursor.offset + distance]? = (bytesOf cursor.rest)[distance]? := by
  rw [← isIn.drop_bytesOf, List.getElem?_drop]

/-- The first of the bytes behind an index, and the others. -/
theorem getElem?_of_drop {bytes rest : List Char} {offset : Nat} {byte : Char}
    (text : bytes.drop offset = byte :: rest) :
    bytes[offset]? = some byte ∧ bytes.drop (offset + 1) = rest := by
  constructor
  · rw [← List.head?_drop, text]
    rfl
  · rw [← List.drop_drop, text]
    rfl

/-- Behind the first byte of a character there are no bytes of it that are ASCII characters. -/
theorem behind_first_byte {offset : Nat} {c : Char} {rest : List Char}
    (isIn : Cursor.In ⟨offset, c :: rest⟩ source) :
    ∃ more, (∀ byte ∈ more, isAscii byte = false) ∧
      (bytesOf source).drop (offset + 1) = more ++ bytesOf rest ∧
      offset + 1 + more.length = offset + c.utf8Size ∧ (isAscii c = true → more = []) := by
  have text : (bytesOf source).drop offset = bytesOf [c] ++ bytesOf rest :=
    isIn.drop_bytesOf.trans (bytesOf_cons c rest)
  have length : (bytesOf [c]).length = c.utf8Size := length_bytesOf [c]
  cases ascii : isAscii c with
  | true =>
    rw [bytesOf_of_isAscii ascii] at text
    refine ⟨[], by simp, (getElem?_of_drop text).2, ?_, fun _ => rfl⟩
    rw [utf8Size_of_isAscii ascii]
    rfl
  | false =>
    obtain ⟨byte, more, split, -⟩ := bytesOf_cons_of_not_isAscii ascii []
    rw [split] at text length
    refine ⟨more, fun other member =>
      not_isAscii_of_mem ascii (split ▸ List.mem_cons_of_mem _ member),
      (getElem?_of_drop text).2, ?_, fun narrow => by cases narrow⟩
    rw [List.length_cons] at length
    omega

theorem not_mem_bytesOf {c : Char} (ascii : isAscii c = true) {text : List Char}
    (missing : c ∉ text) : c ∉ bytesOf text := by
  induction text with
  | nil => exact missing
  | cons first rest ih =>
    rw [List.mem_cons, not_or] at missing
    cases plain : isAscii first with
    | true =>
      rw [bytesOf_of_isAscii plain, List.mem_cons, not_or]
      exact ⟨missing.1, ih missing.2⟩
    | false =>
      rw [bytesOf_cons, List.mem_append, not_or]
      refine ⟨fun member => ?_, ih missing.2⟩
      rw [not_isAscii_of_mem plain member] at ascii
      cases ascii

/-- The last byte of a text is an ASCII character if and only if the text ends with it. -/
theorem getLast?_bytesOf (front : List Char) {c byte : Char} (ascii : isAscii byte = true) :
    (bytesOf (front ++ [c])).getLast? = some byte ↔ c = byte := by
  rw [bytesOf_append]
  cases plain : isAscii c with
  | true =>
    rw [bytesOf_of_isAscii plain]
    simp [bytesOf]
  | false =>
    obtain ⟨first, more, split, -⟩ := bytesOf_cons_of_not_isAscii plain []
    constructor
    · intro last
      have member : byte ∈ bytesOf [c] := by
        rw [split, List.getLast?_append, List.getLast?_cons, Option.some_or, ← List.getLast?_cons]
          at last
        exact split ▸ List.mem_of_getLast? last
      rw [not_isAscii_of_mem plain member] at ascii
      cases ascii
    · rintro rfl
      rw [plain] at ascii
      cases ascii

theorem idxOf?_of_append {c : Char} {front : List Char} (missing : c ∉ front) (back : List Char) :
    (front ++ c :: back).idxOf? c = some front.length := by
  induction front with
  | nil => simp [List.idxOf?_cons]
  | cons first rest ih =>
    rw [List.mem_cons, not_or] at missing
    rw [List.cons_append, List.idxOf?_cons, if_neg (by simpa using Ne.symm missing.1),
      ih missing.2]
    rfl

theorem lengthToLineBreak_of_not_mem {text : List Char} (missing : '\n' ∉ text) :
    lengthToLineBreak text = text.length := by
  induction text with
  | nil => rfl
  | cons c rest ih =>
    rw [List.mem_cons, not_or] at missing
    have follows : rest.head? ≠ some '\n' := fun head =>
      missing.2 (List.mem_of_mem_head? head)
    rw [lengthToLineBreak_cons (Ne.symm missing.1) fun _ => follows, ih missing.2, List.length_cons,
      Nat.add_comm]

/-- A line ends before its line feed, or before the carriage return in front of it. -/
theorem lengthToLineBreak_of_append {front : List Char} (missing : '\n' ∉ front)
    (back : List Char) :
    lengthToLineBreak (front ++ '\n' :: back) =
      if front.getLast? = some '\r' then front.length - 1 else front.length := by
  induction front with
  | nil => rfl
  | cons c rest ih =>
    rw [List.mem_cons, not_or] at missing
    have step : c = '\r' ∧ rest = [] ∨
        lengthToLineBreak (c :: (rest ++ '\n' :: back)) =
          1 + lengthToLineBreak (rest ++ '\n' :: back) ∧ ¬ (c = '\r' ∧ rest = []) := by
      by_cases carriage : c = '\r' ∧ rest = []
      · exact .inl carriage
      · refine .inr ⟨lengthToLineBreak_cons (Ne.symm missing.1) fun same follows => ?_, carriage⟩
        cases rest with
        | nil => exact carriage ⟨same, rfl⟩
        | cons first later =>
          obtain rfl := Option.some.inj follows
          exact missing.2 (List.mem_cons_self ..)
    rcases step with ⟨rfl, rfl⟩ | ⟨further, plain⟩
    · rfl
    · rw [List.cons_append, further, ih missing.2]
      cases rest with
      | nil =>
        have other : c ≠ '\r' := fun same => plain ⟨same, rfl⟩
        simp [other]
      | cons first later =>
        simp only [List.getLast?_cons_cons, List.length_cons]
        split <;> omega

/-- The byte search for the end of a line finds the place that the cursor skips to. -/
theorem runs_lineEnd {good : Nat → Lexer → Prop} (isIn : cursor.In lexer.source) :
    Runs (lineEnd cursor.offset) lexer good failing ↔
      good (cursor.skip (lengthToLineBreak cursor.rest)).offset lexer := by
  unfold lineEnd
  rw [runs_bind, runs_discard, runs_place isIn, runs_bind, runs_source]
  simp only [isIn.drop_bytesOf]
  by_cases broken : '\n' ∈ cursor.rest
  · obtain ⟨front, back, text, missing⟩ := List.eq_append_cons_of_mem broken
    have bytes : bytesOf cursor.rest = bytesOf front ++ '\n' :: bytesOf back := by
      rw [text, bytesOf_append, bytesOf_of_isAscii (by decide)]
    have found : (bytesOf cursor.rest).idxOf? '\n' = some (byteLength front) := by
      rw [bytes, idxOf?_of_append (not_mem_bytesOf (by decide) missing), length_bytesOf]
    have skipped : ∀ count, count ≤ front.length →
        (cursor.skip count).offset = cursor.offset + byteLength (front.take count) := by
      intro count within
      rw [Cursor.skip, text, List.take_append_of_le_length within]
    rw [found, text, lengthToLineBreak_of_append missing]
    simp only [runs_bind]
    obtain rfl | ⟨line, c, rfl⟩ := List.eq_nil_or_concat front
    · -- Whatever stands before the comment's text, the line does not end before it.
      have within : cursor.offset - 1 < (bytesOf lexer.source).length := by
        have stop := isIn.stop_eq
        rw [text, List.nil_append, byteLength_cons] at stop
        have positive := '\n'.utf8Size_pos
        rw [length_bytesOf]
        omega
      rw [byteLength_nil, Nat.add_zero, runs_byteAt (List.getElem?_eq_getElem within), runs_pure,
        skipped _ (by simp)]
      simp only [List.getLast?_nil, List.length_nil]
      split <;> simp
    · rw [List.concat_eq_append] at *
      have measured : byteLength (line ++ [c]) = byteLength line + c.utf8Size := by
        rw [byteLength_append, byteLength_cons, byteLength_nil, Nat.add_zero]
      have positive := c.utf8Size_pos
      have within : byteLength (line ++ [c]) - 1 < (bytesOf (line ++ [c])).length := by
        rw [length_bytesOf]
        omega
      -- The byte before the line feed is the last one of the line.
      obtain ⟨byte, last⟩ : ∃ byte, (bytesOf (line ++ [c])).getLast? = some byte :=
        ⟨_, List.getLast?_eq_getElem?.trans
          (List.getElem?_eq_getElem (by rw [length_bytesOf] at within ⊢; exact within))⟩
      have before : (bytesOf lexer.source)[cursor.offset + byteLength (line ++ [c]) - 1]? =
          some byte := by
        rw [Nat.add_sub_assoc (by omega), getElem?_bytesOf isIn, bytes,
          List.getElem?_append_left within, ← length_bytesOf, ← List.getLast?_eq_getElem?, last]
      rw [runs_byteAt before, runs_pure, List.getLast?_concat]
      by_cases carriage : c = '\r'
      · subst carriage
        have same : byte = '\r' := by
          rw [(getLast?_bytesOf line (by decide)).2 rfl] at last
          exact (Option.some.inj last).symm
        have one : '\r'.utf8Size = 1 := by decide
        rw [if_pos rfl, if_pos same, skipped _ (by simp), List.length_append, List.length_singleton,
          Nat.add_sub_cancel, List.take_left, measured, one, ← Nat.add_assoc, Nat.add_sub_cancel,
          Nat.max_eq_right (Nat.le_add_right ..)]
      · have other : byte ≠ '\r' := by
          rintro rfl
          exact carriage ((getLast?_bytesOf line (by decide)).1 last)
        rw [if_neg other, if_neg (by simpa using carriage), skipped _ (Nat.le_refl _),
          List.take_length, Nat.max_eq_right (Nat.le_add_right ..)]
  · have none : (bytesOf cursor.rest).idxOf? '\n' = none :=
      List.idxOf?_eq_none_iff.2 (not_mem_bytesOf (by decide) broken)
    rw [none, runs_pure, lengthToLineBreak_of_not_mem broken, length_bytesOf, ← isIn.stop_eq,
      Cursor.skip, List.take_length]

theorem lengthOfBlockComment?_cons {c : Char} {rest : List Char}
    (goesOn : c = '*' → rest.head? ≠ some '/') :
    lengthOfBlockComment? (c :: rest) = (lengthOfBlockComment? rest).map (1 + ·) := by
  conv => lhs; unfold lengthOfBlockComment?
  split
  · rename_i empty
    cases empty
  · rename_i split
    cases split
    exact absurd rfl (goesOn rfl)
  · rename_i split
    cases split
    rfl

/-- Bytes that are no asterisks are part of a comment. -/
theorem lengthOfBlockComment?_append {front : List Char} (missing : '*' ∉ front)
    (rest : List Char) :
    lengthOfBlockComment? (front ++ rest) =
      (lengthOfBlockComment? rest).map (front.length + ·) := by
  induction front with
  | nil => simp
  | cons c more ih =>
    rw [List.mem_cons, not_or] at missing
    rw [List.cons_append, lengthOfBlockComment?_cons fun same => absurd same.symm missing.1,
      ih missing.2, Option.map_map]
    congr 1
    funext length
    rw [Function.comp_apply, List.length_cons, Nat.add_right_comm, Nat.add_comm 1]

/-- In bytes a block comment ends where it does in characters. -/
theorem lengthOfBlockComment?_bytesOf (text : List Char) :
    lengthOfBlockComment? (bytesOf text) =
      (lengthOfBlockComment? text).map fun count => byteLength (text.take count) := by
  have further : ∀ (c : Char) (rest : List Char) (found : Option Nat),
      (found.map fun count => byteLength (rest.take count)).map (c.utf8Size + ·) =
        (found.map (1 + ·)).map fun count => byteLength ((c :: rest).take count) := by
    intro c rest found
    cases found with
    | none => rfl
    | some count => simp [Nat.add_comm 1 count]
  induction text with
  | nil => rfl
  | cons c rest ih =>
    by_cases closing : c = '*' ∧ rest.head? = some '/'
    · obtain ⟨rfl, slash⟩ := closing
      obtain ⟨later, rfl⟩ : ∃ later, rest = '/' :: later := by
        cases rest with
        | nil => cases slash
        | cons first later =>
          cases slash
          exact ⟨later, rfl⟩
      rw [bytesOf_of_isAscii (by decide), bytesOf_of_isAscii (by decide)]
      rfl
    · have goesOn : c = '*' → rest.head? ≠ some '/' := fun star slash => closing ⟨star, slash⟩
      rw [lengthOfBlockComment?_cons goesOn, ← further, ← ih]
      cases plain : isAscii c with
      | true =>
        rw [bytesOf_of_isAscii plain, utf8Size_of_isAscii plain, lengthOfBlockComment?_cons]
        exact fun star slash => goesOn star ((head?_bytesOf (by decide) rest).1 slash)
      | false =>
        have missing : '*' ∉ bytesOf [c] := fun member => by
          have := not_isAscii_of_mem plain member
          cases this
        have size : (bytesOf [c]).length = c.utf8Size := length_bytesOf [c]
        rw [bytesOf_cons, lengthOfBlockComment?_append missing, size]

/-- The byte search for the end of a block comment finds the place that the cursor skips to. -/
theorem runs_commentEnd {good : Nat → Lexer → Prop} (isIn : cursor.In lexer.source)
    (opening : Nat) :
    Runs (commentEnd opening cursor.offset) lexer good failing ↔
      match lengthOfBlockComment? cursor.rest with
      | none => failing (.malformed opening .unclosedComment)
      | some count => good (cursor.skip count).offset lexer := by
  unfold commentEnd
  rw [runs_bind, runs_discard, runs_place isIn, runs_bind, runs_source]
  simp only [isIn.drop_bytesOf, lengthOfBlockComment?_bytesOf]
  cases lengthOfBlockComment? cursor.rest <;> rfl

/-! ## Tokens -/

/-- A token and the place after it: a lexeme of the source, or the blank that a comment reads as. -/
inductive Taken (source : List Char) : Token → Cursor → Prop where
  | lexeme {place : Cursor} (isIn : place.In source) : Taken source place.token place.afterLexeme
  | comment {after : Cursor} (isIn : after.In source) :
      Taken source ⟨.whitespace, after.offset, after.offset, " "⟩ after

namespace Taken

variable {token : Token} {after : Cursor} (taken : Taken source token after)
include taken

theorem after_in : after.In source := by
  cases taken with
  | lexeme isIn => exact isIn.skip _
  | comment isIn => exact isIn

theorem stop_eq : token.stop = after.offset := by
  cases taken <;> rfl

theorem start_isPlace : Cursor.IsPlace source token.start := by
  cases taken with
  | lexeme isIn => exact isIn.isPlace
  | comment isIn => exact isIn.isPlace

end Taken

/-- What the cursor reads next is a token of the source. -/
theorem taken_of_next (isIn : cursor.In source) {lexed : Lexed cursor}
    (read : cursor.next = .ok lexed) : Taken source lexed.token lexed.after := by
  fun_induction Cursor.next cursor with
  | case1 cursor more =>
    cases read
    have taken := Taken.lexeme isIn
    rw [Cursor.afterLexeme_of_nil more] at taken
    exact taken
  | case2 => cases read
  | case3 cursor more progress line resumed shorter lexed' found ih =>
    cases read
    exact ih (isIn.afterLexeme.skip _) found
  | case4 => cases read
  | case5 cursor more progress line length found after shorter =>
    cases read
    exact .comment (isIn.afterLexeme.skip _)
  | case6 =>
    cases read
    exact .lexeme isIn

/-- Reading from a place on gives the next token of the cursor, or fails as the cursor does. -/
theorem runs_token (isIn : cursor.In lexer.source) :
    Runs (Search.token cursor.offset).find lexer
      (fun token later => later = lexer ∧ ∃ lexed, cursor.next = .ok lexed ∧ lexed.token = token)
      (fun error => cursor.next = .error error ∧ Cursor.IsPlace lexer.source error.offset) := by
  have afterLine : ∀ {cursor : Cursor}, cursor.In lexer.source → cursor.token.kind = .lineComment →
      ∀ good failing,
        Runs (Search.token (cursor.afterLexeme.skip
          (lengthToLineBreak cursor.afterLexeme.rest)).offset).find lexer good failing →
        Runs (Search.token cursor.offset).find lexer good failing := by
    intro cursor isIn line good failing runs
    rw [Search.find, runs_bind, runs_scan isIn]
    simp only [line]
    have start : cursor.token.stop = cursor.afterLexeme.offset := rfl
    rw [start, runs_bind, runs_lineEnd isIn.afterLexeme]
    exact runs
  fun_induction Cursor.next cursor with
  | case1 cursor more =>
    have atEnd : cursor.token.kind = .endOfText := by simp [Cursor.token, more, lexeme]
    rw [Search.find, runs_bind, runs_scan isIn]
    simp only [atEnd, runs_pure]
    exact ⟨trivial, _, rfl, rfl⟩
  | case2 cursor more progress line resumed shorter error found ih =>
    refine afterLine isIn line _ _ ((ih (isIn.afterLexeme.skip _)).imp ?_ ?_)
    · rintro token later ⟨-, lexed, read, -⟩
      rw [found] at read
      cases read
    · rintro other ⟨read, place⟩
      rw [found] at read
      cases read
      exact ⟨rfl, place⟩
  | case3 cursor more progress line resumed shorter lexed' found ih =>
    refine afterLine isIn line _ _ ((ih (isIn.afterLexeme.skip _)).imp ?_ ?_)
    · rintro token later ⟨same, lexed, read, rfl⟩
      rw [found] at read
      cases read
      exact ⟨same, _, rfl, rfl⟩
    · rintro other ⟨read, -⟩
      rw [found] at read
      cases read
  | case4 cursor more progress comment found =>
    rw [Search.find, runs_bind, runs_scan isIn]
    have start : cursor.token.stop = cursor.afterLexeme.offset := rfl
    simp only [comment, runs_bind]
    rw [start, runs_commentEnd isIn.afterLexeme]
    simp only [found]
    exact ⟨rfl, isIn.isPlace⟩
  | case5 cursor more progress comment length found after shorter =>
    rw [Search.find, runs_bind, runs_scan isIn]
    have start : cursor.token.stop = cursor.afterLexeme.offset := rfl
    simp only [comment, runs_bind]
    rw [start, runs_commentEnd isIn.afterLexeme]
    simp only [found, runs_pure]
    exact ⟨trivial, _, rfl, rfl⟩
  | case6 cursor more progress line comment =>
    rw [Search.find, runs_bind, runs_scan isIn]
    split
    · exact absurd ‹_› line
    · exact absurd ‹_› comment
    · exact ⟨rfl, _, rfl, rfl⟩

end Indexed

end BranchText
