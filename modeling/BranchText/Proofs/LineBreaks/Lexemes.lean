import BranchText.Proofs.LineBreaks.Searches
import Mathlib.Data.List.Find

/-!
# Tokens with either line break

A lexeme that is read at a place is read at its twin too, with the same text unless it is a line
break, and comments end at twins. So the tokens of a source and those of the source with carriage
returns are alike one by one.
-/

namespace BranchText

/-! ## Comments -/

/-- A block comment ends at twins. -/
theorem lengthOfBlockComment?_withReturns (text : List Char) :
    lengthOfBlockComment? (withReturns text) = (lengthOfBlockComment? text).map fun length =>
      (withReturns (text.take length)).length := by
  fun_induction lengthOfBlockComment? text with
  | case1 => rfl
  | case2 => rfl
  | case3 c rest closes ih =>
    have step : lengthOfBlockComment? (withReturns (c :: rest)) =
        (lengthOfBlockComment? (withReturns rest)).map ((withReturns [c]).length + ·) := by
      by_cases lineFeed : c = '\n'
      · subst lineFeed
        rw [withReturns_lineFeed, lengthOfBlockComment?, lengthOfBlockComment?, Option.map_map]
        · congr 1
          funext length
          simp only [Function.comp, withReturns_lineFeed, withReturns_nil, List.length_cons,
            List.length_nil]
          omega
        · simp
        · simp
      · rw [withReturns_cons lineFeed, lengthOfBlockComment?, withReturns_cons lineFeed]
        · rfl
        · intro later isStar starts
          obtain ⟨more, rfl, -⟩ := eq_cons_of_withReturns (by decide) starts
          exact closes more isStar rfl
    rw [step, ih, Option.map_map, Option.map_map]
    congr 1
    funext length
    simp only [Function.comp, Nat.add_comm 1, List.take_succ_cons]
    rw [withReturns_cons_eq c (rest.take length), List.length_append]

/-- Up to a line break there is nothing to respell. -/
theorem lengthToLineBreak_withReturns {text : List Char} (plain : '\r' ∉ text) :
    lengthToLineBreak (withReturns text) = lengthToLineBreak text ∧
      '\n' ∉ text.take (lengthToLineBreak text) := by
  induction text with
  | nil => exact ⟨rfl, List.not_mem_nil⟩
  | cons c rest ih =>
    obtain ⟨notReturn, later⟩ := List.ne_and_not_mem_of_not_mem_cons plain
    by_cases lineFeed : c = '\n'
    · subst lineFeed
      exact ⟨rfl, List.not_mem_nil⟩
    · obtain ⟨same, line⟩ := ih later
      have step : ∀ more, lengthToLineBreak (c :: more) = 1 + lengthToLineBreak more :=
        fun more => lengthToLineBreak_cons lineFeed fun carriage => absurd carriage.symm notReturn
      rw [withReturns_cons lineFeed, step, step, same]
      refine ⟨rfl, ?_⟩
      rw [Nat.add_comm 1, List.take_succ_cons, List.mem_cons, not_or]
      exact ⟨fun same => lineFeed same.symm, line⟩

/-! ## Lexemes -/

namespace Lexeme

/-- Characters of a kind that no line break is of. -/
theorem takeWhile_withReturns (kind : Char → Bool) (lineFeed : kind '\n' = false)
    (carriage : kind '\r' = false) (text : List Char) :
    (withReturns text).takeWhile kind = text.takeWhile kind ∧
      (withReturns text).dropWhile kind = withReturns (text.dropWhile kind) := by
  induction text with
  | nil => exact ⟨rfl, rfl⟩
  | cons c rest ih =>
    by_cases isBreak : c = '\n'
    · subst isBreak
      simp [lineFeed, carriage]
    · rw [withReturns_cons isBreak, List.takeWhile_cons, List.takeWhile_cons, List.dropWhile_cons,
        List.dropWhile_cons, ih.1, ih.2]
      split
      · exact ⟨rfl, rfl⟩
      · exact ⟨rfl, (withReturns_cons isBreak rest).symm⟩

theorem numberChars_withReturns (text : List Char) :
    numberChars (withReturns text) = numberChars text := by
  have digits := takeWhile_withReturns Decimal.isDigit rfl rfl
  simp only [numberChars, (digits _).1, (digits _).2]
  cases text.dropWhile Decimal.isDigit with
  | nil => rfl
  | cons c rest =>
    by_cases lineFeed : c = '\n'
    · subst lineFeed
      rfl
    by_cases point : c = '.'
    · subst point
      simp only [withReturns_cons lineFeed, (digits rest).1]
    · rw [withReturns_cons lineFeed]
      split
      · rename_i same
        exact absurd (List.cons.inj same).1 point
      · split
        · rename_i same
          exact absurd (List.cons.inj same).1 point
        · rfl

/-- Fixed spellings other than line breaks have no line break in them. -/
theorem fixed?_withReturns {first : Char} {rest : List Char} (lineFeed : first ≠ '\n')
    (carriage : first ≠ '\r') : fixed? (withReturns (first :: rest)) = fixed? (first :: rest) := by
  have prefixes : ∀ spelling text : List Char, '\n' ∉ spelling → '\r' ∉ spelling →
      spelling.isPrefixOf (withReturns text) = spelling.isPrefixOf text := by
    intro spelling text noFeed noReturn
    induction spelling generalizing text with
    | nil => rfl
    | cons c more ih =>
      obtain ⟨notFeed, noFeed⟩ := List.ne_and_not_mem_of_not_mem_cons noFeed
      obtain ⟨notReturn, noReturn⟩ := List.ne_and_not_mem_of_not_mem_cons noReturn
      cases text with
      | nil => rfl
      | cons d text =>
        by_cases isBreak : d = '\n'
        · subst isBreak
          simp [List.isPrefixOf, beq_false_of_ne notFeed.symm, beq_false_of_ne notReturn.symm]
        · rw [withReturns_cons isBreak]
          simp [List.isPrefixOf, ih text noFeed noReturn]
  have each : ∀ entry ∈ spellings, (entry.1 = ['\r', '\n'] ∨ entry.1 = ['\n']) ∨
      ('\n' ∉ entry.1 ∧ '\r' ∉ entry.1) := by decide
  have same : ∀ entry ∈ spellings, entry.1.isPrefixOf (withReturns (first :: rest)) =
      entry.1.isPrefixOf (first :: rest) := by
    intro entry listed
    rcases each entry listed with (spelled | spelled) | ⟨noFeed, noReturn⟩
    · rw [spelled, withReturns_cons lineFeed]
      simp [List.isPrefixOf, beq_false_of_ne carriage.symm]
    · rw [spelled, withReturns_cons lineFeed]
      simp [List.isPrefixOf, beq_false_of_ne lineFeed.symm]
    · exact prefixes _ _ noFeed noReturn
  rw [fixed?, fixed?]
  exact List.find?_congr same

/-- What a lexeme is in a text with carriage returns: it has the same kind, takes the same
characters but for the carriage returns, and stands for the same, unless it is a line break. -/
structure Returned (found other : Lexeme) (text : List Char) : Prop where
  kind : other.kind = found.kind
  content : Respelled found.text.toList other.text.toList
  same : found.kind ≠ .newline → other.text = found.text
  length : other.length = (withReturns (text.take found.length)).length

/-- A lexeme that takes characters without a line break. -/
theorem Returned.of_line {kind : TokenKind} {content : String} {length : Nat} {text : List Char}
    (line : '\n' ∉ text.take length) (within : length ≤ text.length) :
    Returned ⟨kind, content, length⟩ ⟨kind, content, length⟩ text where
  kind := rfl
  content := .refl _
  same _ := rfl
  length := by
    rw [withReturns_of_not_mem line, List.length_take, Nat.min_eq_left within]

/-- A lexeme that no backslash starts has no line break in it, unless it is one. -/
theorem line_of_isRun {kind : TokenKind} {run rest : List Char} {first : Char}
    (runs : IsRun kind run) (taken : run <+: first :: rest) (lineFeed : first ≠ '\n')
    (carriage : first ≠ '\r') : '\n' ∉ run := by
  obtain ⟨later, split⟩ := taken
  cases runs with
  | fixed listed =>
    have each : ∀ entry ∈ spellings, (entry.1 = ['\r', '\n'] ∨ entry.1 = ['\n']) ∨
        '\n' ∉ entry.1 := by decide
    rcases each _ listed with (spelled | spelled) | line
    · rw [show run = _ from spelled] at split
      exact absurd (List.cons.inj split).1.symm carriage
    · rw [show run = _ from spelled] at split
      exact absurd (List.cons.inj split).1.symm lineFeed
    · exact line
  | blanks blank =>
    intro member
    cases blank _ member
  | number digit digits =>
    intro member
    rcases List.mem_cons.1 member with rfl | member
    · cases digit
    · rcases digits _ member with digit | same
      · cases digit
      · cases same
  | single =>
    intro member
    rw [← List.mem_singleton.1 member] at split
    exact lineFeed (List.cons.inj split).1.symm

/-- So is what follows a backslash. -/
theorem ofEscape_withReturns {rest : List Char} (plain : '\r' ∉ rest) :
    Returned (ofEscape rest) (ofEscape (withReturns rest)) ('\\' :: rest) := by
  cases rest with
  | nil => exact .of_line (by decide) (by decide)
  | cons c later =>
    obtain ⟨notReturn, -⟩ := List.ne_and_not_mem_of_not_mem_cons plain
    by_cases lineFeed : c = '\n'
    · subst lineFeed
      exact ⟨rfl, .refl _, fun _ => rfl, rfl⟩
    · have meant : ∀ more : List Char, ofEscape (c :: more) =
          (escaped? c).elim ⟨.text, "\\", 1⟩ fun other => ⟨.text, String.singleton other, 2⟩ := by
        intro more
        rw [ofEscape.eq_def]
        split
        · rename_i same
          exact absurd (List.cons.inj same).1.symm notReturn
        · rename_i same
          exact absurd (List.cons.inj same).1 lineFeed
        · rename_i same
          obtain ⟨rfl, -⟩ := List.cons.inj same
          cases escaped? c <;> rfl
        · rename_i same
          cases same
      rw [withReturns_cons lineFeed, meant, meant]
      cases escaped? c with
      | some other =>
        exact .of_line (by simpa using fun same => lineFeed same.symm) (by simp)
      | none => exact .of_line (by simp) (by simp)

theorem lexeme_withReturns {text : List Char} (plain : '\r' ∉ text) :
    Returned (lexeme text) (lexeme (withReturns text)) text := by
  match text with
  | [] => exact .of_line List.not_mem_nil (Nat.le_refl _)
  | first :: rest =>
    obtain ⟨notReturn, later⟩ := List.ne_and_not_mem_of_not_mem_cons plain
    by_cases lineFeed : first = '\n'
    · subst lineFeed
      have found : lexeme ('\n' :: rest) = ⟨.newline, String.ofList ['\n'], 1⟩ := rfl
      have other : lexeme (withReturns ('\n' :: rest)) =
          ⟨.newline, String.ofList ['\r', '\n'], 2⟩ := rfl
      rw [found, other]
      refine ⟨rfl, ?_, fun notBreak => absurd rfl notBreak, rfl⟩
      rw [String.toList_ofList, String.toList_ofList]
      exact .lineBreak .nil
    by_cases escape : first = '\\'
    · subst escape
      exact ofEscape_withReturns later
    have same : lexeme (withReturns (first :: rest)) = lexeme (first :: rest) := by
      have fixed : fixed? (withReturns (first :: rest)) = fixed? (first :: rest) :=
        fixed?_withReturns lineFeed notReturn.symm
      have numbers := numberChars_withReturns (first :: rest)
      rw [withReturns_cons lineFeed] at fixed numbers ⊢
      simp only [lexeme, if_neg escape, fixed, ofRun, numbers,
        (takeWhile_withReturns isBlank rfl rfl rest).1]
    obtain ⟨kind, run, read, runs, taken⟩ := lexeme_eq_run escape rest
    rw [same, read]
    refine .of_line ?_ taken.length_le
    rw [← List.prefix_iff_eq_take.1 taken]
    exact line_of_isRun runs taken lineFeed notReturn.symm

end Lexeme

/-! ## Tokens -/

/-- What is read next at twins: tokens of the same kind that stand for the same, unless they are
line breaks, with twins behind them. A token of a kind with fixed spellings stands there spelled
so. -/
structure Lexed.Twin (source : List Char) {cursor other : Cursor} (lexed : Lexed cursor)
    (found : Lexed other) : Prop where
  kind : found.token.kind = lexed.token.kind
  content : Respelled lexed.token.text.toList found.token.text.toList
  same : lexed.token.kind ≠ .newline → found.token.text = lexed.token.text
  after : Twins source lexed.after found.after
  spelled : Indexed.isVaried lexed.token.kind = false → ∃ front spelling,
    (spelling, lexed.token.kind) ∈ Lexeme.spellings ∧
      source = front ++ spelling ++ lexed.after.rest ∧
      found.token.start = byteLength (withReturns front)

section Tokens

variable {source : List Char} {cursor other : Cursor}

theorem Twins.spelled (twins : Twins source cursor other)
    (fixed : Indexed.isVaried cursor.token.kind = false) :
    ∃ front spelling, (spelling, cursor.token.kind) ∈ Lexeme.spellings ∧
      source = front ++ spelling ++ cursor.afterLexeme.rest ∧
      other.token.start = byteLength (withReturns front) := by
  obtain ⟨front, split, rfl⟩ := twins
  obtain ⟨spelling, rest, listed, text, length⟩ := Indexed.lexeme_spelled fixed
  refine ⟨front, spelling, listed, ?_, rfl⟩
  rw [Cursor.afterLexeme, length, Cursor.skip_of_append text, List.append_assoc, ← text]
  exact split

variable (plain : '\r' ∉ source) (twins : Twins source cursor other)
include plain twins

theorem Twins.not_mem_rest : '\r' ∉ cursor.rest := by
  obtain ⟨front, split, -⟩ := twins
  exact fun member => plain (split ▸ List.mem_append_right front member)

/-- The lexemes at twins. -/
theorem Twins.returned : (lexeme cursor.rest).Returned (lexeme other.rest) cursor.rest :=
  twins.rest ▸ Lexeme.lexeme_withReturns (twins.not_mem_rest plain)

theorem Twins.afterLexeme : Twins source cursor.afterLexeme other.afterLexeme :=
  twins.skip (twins.returned plain).length

/-- A line comment ends at twins. -/
theorem Twins.toLineBreak : Twins source
    (cursor.skip (lengthToLineBreak cursor.rest)) (other.skip (lengthToLineBreak other.rest)) := by
  obtain ⟨same, line⟩ := lengthToLineBreak_withReturns (twins.not_mem_rest plain)
  refine twins.skip ?_
  rw [withReturns_of_not_mem line, twins.rest, same, List.length_take]
  exact (Nat.min_eq_left (lengthToLineBreak_le _)).symm

/-- The next tokens at twins, comments skipped. -/
theorem agree_next : Agree (CutShort source) (Lexed.Twin source) cursor.next other.next := by
  induction cursor using Indexed.cursor_induction generalizing other with
  | step cursor ih =>
    obtain ⟨kind, content, same, -⟩ := twins.returned plain
    have sameKind : other.token.kind = cursor.token.kind := kind
    have afterwards := twins.afterLexeme plain
    rw [Cursor.next, Cursor.next]
    by_cases atEnd : cursor.rest = []
    · rw [dif_pos atEnd, dif_pos (twins.rest ▸ withReturns_eq_nil.2 atEnd)]
      refine .values ⟨kind, content, same, twins, fun fixed => ?_⟩
      simp [Cursor.token, atEnd, lexeme, Indexed.isVaried] at fixed
    · rw [dif_neg atEnd, dif_neg (twins.rest ▸ mt withReturns_eq_nil.1 atEnd)]
      have shorter := Cursor.size_afterLexeme_lt atEnd
      split
      · rename_i line
        simp only [sameKind.trans line]
        have resumed := fun count =>
          Nat.lt_of_le_of_lt (Cursor.size_skip_le cursor.afterLexeme count) shorter
        refine (ih _ (resumed _) (afterwards.toLineBreak plain)).elim (fun lexed found twin => ?_)
          (fun _ _ => .errors) fun _ _ reason => .cut reason
        exact .values ⟨twin.kind, twin.content, twin.same, twin.after, twin.spelled⟩
      · rename_i comment
        have ends := lengthOfBlockComment?_withReturns cursor.afterLexeme.rest
        rw [← afterwards.rest] at ends
        simp only [sameKind.trans comment, ends]
        cases lengthOfBlockComment? cursor.afterLexeme.rest with
        | none => exact .errors
        | some length =>
          refine .values ⟨rfl, .refl _, fun _ => rfl, afterwards.skip rfl, fun fixed => ?_⟩
          cases fixed
      · rename_i line comment
        split
        · exact absurd (sameKind.symm.trans ‹_›) line
        · exact absurd (sameKind.symm.trans ‹_›) comment
        · exact .values ⟨kind, content, same, afterwards, twins.spelled⟩

end Tokens

namespace Lexed.Twin

variable {source : List Char} {cursor other : Cursor} {lexed : Lexed cursor} {found : Lexed other}
  (twin : Lexed.Twin source lexed found)
include twin

theorem isIdentifierToken :
    Reader.isIdentifierToken found.token = Reader.isIdentifierToken lexed.token := by
  unfold Reader.isIdentifierToken
  rw [twin.kind]
  cases kind : lexed.token.kind with
  | text => rw [twin.same (by rw [kind]; decide)]
  | _ => rfl

/-- A quote stands where it was read. -/
theorem quote {quote : Char} (opens : lexed.token.kind.quote? = some quote) :
    ∃ front, source = front ++ [quote] ++ lexed.after.rest ∧
      found.token.start = byteLength (withReturns front) := by
  have fixed : Indexed.isVaried lexed.token.kind = false := by
    cases kind : lexed.token.kind <;> first | rfl | (rw [kind] at opens; cases opens)
  obtain ⟨front, spelling, listed, split, start⟩ := twin.spelled fixed
  obtain ⟨rfl, -⟩ := Indexed.quote_spelled _ listed quote opens
  exact ⟨front, split, start⟩

/-- The closing quote is found at twins. -/
theorem agree_find {quote : Char} (opens : lexed.token.kind.quote? = some quote) :
    Agree (CutShort source) (Twins source)
      (Quoted.find quote lexed.token.start lexed.after.offset lexed.after.rest)
      (Quoted.find quote found.token.start found.after.offset found.after.rest) := by
  obtain ⟨front, split, start⟩ := twin.quote opens
  rw [twin.after.eq_of_split split, start]
  exact Quoted.agree_find (.of_quote opens) rfl split

/-- Behind the first of two brackets there are twins. -/
theorem bracket (kind : lexed.token.kind = .doubleLeftBracket) :
    Twins source ⟨lexed.token.start + 1, '[' :: lexed.after.rest⟩
      ⟨found.token.start + 1, '[' :: found.after.rest⟩ := by
  have brackets : ∀ entry ∈ Lexeme.spellings, entry.2 = .doubleLeftBracket →
      entry.1 = ['[', '['] := by decide
  obtain ⟨front, spelling, listed, split, start⟩ := twin.spelled (by rw [kind]; rfl)
  obtain rfl := brackets _ listed kind
  refine ⟨front ++ ['['], by simpa using split, ?_⟩
  rw [start, twin.after.rest, withReturns_append, byteLength_append,
    withReturns_cons (by decide) lexed.after.rest]
  rfl

theorem text_of_isIdentifierToken (part : Reader.isIdentifierToken lexed.token = true) :
    found.token.text = lexed.token.text := by
  refine twin.same fun kind => ?_
  simp [Reader.isIdentifierToken, kind, TokenKind.isKeyword] at part

end Lexed.Twin

end BranchText
