import BranchText.Proofs.Comments.Lexemes
import BranchText.Proofs.Compared.Grammar
import BranchText.Proofs.Cut.Alone
import BranchText.Proofs.Indexed.Grammar
import BranchText.Proofs.Reading.Parts
import BranchText.Proofs.Reading.Yields

/-!
# Written parts at their places

`Gets` is what a reader makes of a text, and the place it stops at. A place is told by the text in
front of it: behind a part stands what was in front of the part, and the part. So the offsets of
what is read are the lengths of what is written before it.
-/

namespace BranchText

/-- From one place to another a reader gives a value. -/
def Gets {α : Type} {limit : Cursor → Nat}
    (reader : ∀ cursor, Except ReadError (Reading α (limit cursor))) (start : Cursor) (value : α)
    (stop : Cursor) : Prop :=
  ∃ shorter, reader start = .ok ⟨value, stop, shorter⟩

/-- From one place to another a reader makes a value of what is computed, and it fails with what
that fails with. -/
def Answers {α β : Type} {limit : Cursor → Nat}
    (reader : ∀ cursor, Except ReadError (Reading α (limit cursor))) (start : Cursor)
    (computed : Except ReadError β) (value : β → α) (stop : Cursor) : Prop :=
  match computed with
  | .error error => reader start = .error error
  | .ok found => Gets reader start (value found) stop

namespace Cursor

/-- The place behind a text, in front of another. -/
def behind (front rest : List Char) : Cursor := ⟨byteLength front, rest⟩

variable {cursor : Cursor} {front passed rest : List Char}

/-- A place of a source is told by the text that is left. -/
theorem In.eq_behind (isIn : cursor.In (front ++ rest)) (text : cursor.rest = rest) :
    cursor = behind front rest := by
  have total := isIn.stop_eq
  obtain ⟨offset, left⟩ := cursor
  obtain rfl : left = rest := text
  rw [byteLength_append] at total
  obtain rfl : offset = byteLength front := Nat.add_right_cancel total
  rfl

theorem behind_in (front rest : List Char) : (behind front rest).In (front ++ rest) :=
  ⟨front, rfl, rfl⟩

/-! ## Tokens -/

section Tokens

variable {run : List Char} {kind : TokenKind} {meant : String}

/-- A lexeme that is no comment is the next token. -/
theorem takes_behind (some : run ≠ []) (read : lexeme (run ++ rest) = ⟨kind, meant, run.length⟩)
    (line : kind ≠ .lineComment) (comment : kind ≠ .blockCommentStart) (front : List Char) :
    (behind front (run ++ rest)).Takes ⟨kind, byteLength front, byteLength (front ++ run), meant⟩
      (behind (front ++ run) rest) := by
  have skipped : (behind front (run ++ rest)).skip run.length = behind (front ++ run) rest := by
    rw [behind, skip_of_append rfl, behind, byteLength_append]
  have isToken : (behind front (run ++ rest)).token =
      ⟨kind, byteLength front, byteLength (front ++ run), meant⟩ := by
    rw [token, show (behind front (run ++ rest)).rest = run ++ rest from rfl, read]
    dsimp only
    rw [skipped]
    rfl
  have isAfter : (behind front (run ++ rest)).afterLexeme = behind (front ++ run) rest := by
    rw [afterLexeme, show (behind front (run ++ rest)).rest = run ++ rest from rfl, read, skipped]
  have more : (behind front (run ++ rest)).rest ≠ [] := List.append_ne_nil_of_left_ne_nil some _
  have takes := takes_lexeme more
  rw [isToken, isAfter] at takes
  exact takes line comment

/-- A mark of the syntax is a token. -/
theorem takes_mark {c : Char} (mark : (c, kind) ∈ marks) (front rest : List Char) :
    (behind front (c :: rest)).Takes
      ⟨kind, byteLength front, byteLength (front ++ [c]), String.singleton c⟩
      (behind (front ++ [c]) rest) := by
  have solid : ∀ entry ∈ marks, entry.2 ≠ .lineComment ∧ entry.2 ≠ .blockCommentStart := by decide
  exact takes_behind (List.cons_ne_nil c []) (lexeme_mark mark rest) (solid _ mark).1
    (solid _ mark).2 front

theorem takes_arrow (front rest : List Char) :
    (behind front (['-', '>'] ++ rest)).Takes
      ⟨.arrow, byteLength front, byteLength (front ++ ['-', '>']), "->"⟩
      (behind (front ++ ['-', '>']) rest) :=
  takes_behind (by decide) rfl (by decide) (by decide) front

/-- A blank is a token with the blanks behind it. -/
theorem takes_blanks {c : Char} (blank : Lexeme.isBlank c = true) (front rest : List Char) :
    ∃ token, (behind front (c :: rest)).Takes token
      (behind (front ++ c :: rest.takeWhile Lexeme.isBlank) (rest.dropWhile Lexeme.isBlank)) ∧
      token.kind = .whitespace := by
  obtain ⟨token, takes, isBlank, -⟩ := takes_blank blank (byteLength front) rest
  refine ⟨token, ?_, isBlank⟩
  rw [behind, behind, byteLength_append]
  exact takes

theorem takes_digits {digits : List Char} (some : digits ≠ [])
    (all : ∀ c ∈ digits, Decimal.isDigit c = true)
    (stops : ∀ c, rest.head? = Option.some c → Decimal.isDigit c = false ∧ c ≠ '.')
    (front : List Char) :
    (behind front (digits ++ rest)).Takes
      ⟨.number, byteLength front, byteLength (front ++ digits), String.ofList digits⟩
      (behind (front ++ digits) rest) :=
  takes_behind some (Lexeme.lexeme_digits some all stops) (by decide) (by decide) front

end Tokens

end Cursor

namespace Reader

open Cursor

variable {front rest : List Char} {token : Token} {after : Cursor}

/-! ## Gaps -/

/-- Texts of blanks and line breaks. -/
def isGap : List Char → Bool
  | [] => true
  | '\n' :: rest => isGap rest
  | '\r' :: '\n' :: rest => isGap rest
  | c :: rest => Lexeme.isBlank c && isGap rest

section Skips

variable {skipped : TokenKind → Bool} {atEnd : skipped .endOfText = false} {cursor last : Cursor}

theorem gets_skipWhile_keep (takes : cursor.Takes token after)
    (solid : skipped token.kind = false) :
    Gets (skipWhile skipped atEnd) cursor () cursor := by
  obtain ⟨lexed, next, rfl, -⟩ := takes
  exact ⟨_, skipWhile_of_solid next atEnd solid⟩

/-- What is skipped in front of a text is skipped along with it. -/
theorem gets_skipWhile_iff (takes : cursor.Takes token after) (skips : skipped token.kind = true) :
    Gets (skipWhile skipped atEnd) cursor () last ↔
      Gets (skipWhile skipped atEnd) after () last := by
  obtain ⟨lexed, next, rfl, rfl⟩ := takes
  unfold Gets
  rw [skipWhile]
  simp only [next, dif_pos skips]
  cases skipWhile skipped atEnd lexed.after with
  | error error => constructor <;> rintro ⟨_, ⟨⟩⟩
  | ok reading =>
    obtain ⟨⟨⟩, place, shorter⟩ := reading
    have progress := lexed.size_le
    constructor
    · rintro ⟨_, ⟨⟩⟩
      exact ⟨shorter, rfl⟩
    · rintro ⟨_, ⟨⟩⟩
      exact ⟨by omega, rfl⟩

/-- A run of blanks is skipped from each of its characters on. -/
theorem gets_skipWhile_blank (skips : skipped .whitespace = true) {c : Char}
    (blank : Lexeme.isBlank c = true)
    (later : Gets (skipWhile skipped atEnd) (behind (front ++ [c]) rest) () last) :
    Gets (skipWhile skipped atEnd) (behind front (c :: rest)) () last := by
  obtain ⟨run, takes, isRun⟩ := takes_blanks blank front rest
  refine (gets_skipWhile_iff takes (by rw [isRun, skips])).2 ?_
  by_cases goesOn : ∃ d more, rest = d :: more ∧ Lexeme.isBlank d = true
  · -- the run goes on, so the same is behind it from the next character on
    obtain ⟨d, more, rfl, blankToo⟩ := goesOn
    obtain ⟨same, takesSame, isSame⟩ := takes_blanks blankToo (front ++ [c]) more
    rw [List.takeWhile_cons_of_pos blankToo, List.dropWhile_cons_of_pos blankToo]
    have later := (gets_skipWhile_iff takesSame (by rw [isSame, skips])).1 later
    rwa [List.append_assoc] at later
  · have ends : rest.takeWhile Lexeme.isBlank = [] ∧ rest.dropWhile Lexeme.isBlank = rest := by
      cases rest with
      | nil => exact ⟨rfl, rfl⟩
      | cons d more =>
        have solid : Lexeme.isBlank d = false :=
          Bool.eq_false_iff.2 fun blankToo => goesOn ⟨d, more, rfl, blankToo⟩
        simp [solid]
    rwa [ends.1, ends.2]

end Skips

/-- A gap is skipped up to a token that is none. -/
theorem gets_skipTrivia {gap : List Char} (isGap : isGap gap = true)
    (takes : (behind (front ++ gap) rest).Takes token after) (solid : token.kind.isTrivia = false) :
    Gets skipTrivia (behind front (gap ++ rest)) () (behind (front ++ gap) rest) := by
  fun_induction Reader.isGap gap generalizing front with
  | case1 =>
    rw [List.append_nil] at takes ⊢
    exact gets_skipWhile_keep takes solid
  | case2 gap ih =>
    rw [List.append_cons] at takes ⊢
    have line : (behind front (['\n'] ++ (gap ++ rest))).Takes _ _ :=
      takes_behind (by decide) rfl (by decide) (by decide) front
    exact (gets_skipWhile_iff line rfl).2 (ih isGap takes)
  | case3 gap ih =>
    rw [List.append_cons, List.append_cons _ '\n', List.append_assoc front] at takes ⊢
    have line : (behind front (['\r', '\n'] ++ (gap ++ rest))).Takes _ _ :=
      takes_behind (by decide) rfl (by decide) (by decide) front
    exact (gets_skipWhile_iff line rfl).2 (ih isGap takes)
  | case4 c gap single pair ih =>
    obtain ⟨blank, isGap⟩ := Bool.and_eq_true_iff.1 isGap
    rw [List.append_cons] at takes ⊢
    exact gets_skipWhile_blank rfl blank (ih isGap takes)

/-- Nothing is skipped in front of a token that is no gap. -/
theorem gets_skipTrivia_nil {cursor : Cursor} (takes : cursor.Takes token after)
    (solid : token.kind.isTrivia = false) : Gets skipTrivia cursor () cursor :=
  gets_skipWhile_keep takes solid

/-! ## Parts -/

/-- A reader that one by byte index mirrors stops where the text that it leaves starts. -/
theorem gets_of_reads {α : Type} {limit : Cursor → Nat}
    {reader : ∀ cursor, Except ReadError (Reading α (limit cursor))} {part : Indexed α}
    {passed : List Char} {good : α → Prop}
    (reads : Reads (reader (behind front (passed ++ rest))) good rest)
    (mirrors : Indexed.Mirrors (front ++ passed ++ rest) part (behind front (passed ++ rest))
      (reader (behind front (passed ++ rest))) Reading.view) :
    ∃ value, good value ∧
      Gets reader (behind front (passed ++ rest)) value (behind (front ++ passed) rest) := by
  obtain ⟨⟨value, place, shorter⟩, read, isGood, left⟩ := reads
  have startIn : (behind front (passed ++ rest)).In (front ++ passed ++ rest) := by
    rw [List.append_assoc]
    exact behind_in ..
  obtain rfl := (yields_in mirrors startIn _ read).eq_behind left
  exact ⟨value, isGood, shorter, read⟩

/-- No blank is skipped in front of an identifier. -/
theorem gets_skipBlanks {name : String} (valid : IsIdentifier name) (front rest : List Char) :
    Gets skipBlanks (behind front (name.toList ++ ':' :: rest)) ()
      (behind front (name.toList ++ ':' :: rest)) := by
  obtain ⟨kind, -, -, ⟨lexed, next, rfl, -⟩, part⟩ := @starts_identifier name.toList rest ':'
    (by simpa using valid.1) valid.2 (by decide) (behind front (name.toList ++ ':' :: rest)) rfl
  refine gets_skipWhile_keep ⟨lexed, next, rfl, rfl⟩ ?_
  rw [beq_eq_false_iff_ne]
  intro blank
  rw [blank] at part
  cases part

/-- A written identifier is read up to its colon. -/
theorem gets_identifier {name : String} (valid : IsIdentifier name) (front rest : List Char) :
    Gets identifier (behind front (name.toList ++ ':' :: rest)) name
      (behind (front ++ name.toList) (':' :: rest)) := by
  obtain ⟨_, rfl, gets⟩ := gets_of_reads
    (reads_identifier (show (behind front (name.toList ++ ':' :: rest)).rest = _ from rfl) valid
      (by decide)) Indexed.mirrors_identifier
  exact gets

/-- A written closing brace is read. -/
theorem gets_closingBrace (opening : Nat) (front rest : List Char) :
    Gets (closingBrace opening) (behind front ('}' :: rest)) () (behind (front ++ ['}']) rest) := by
  have takes := takes_mark (show ('}', TokenKind.rightBrace) ∈ marks by decide) front rest
  obtain ⟨shorter, skip⟩ := gets_skipTrivia_nil takes rfl
  obtain ⟨⟨token, after, sizeLe, sizeLt⟩, next, isToken, isAfter⟩ := takes
  subst isToken isAfter
  exact ⟨Nat.lt_succ_of_le sizeLe, by
    simp only [closingBrace, skip, next, bind, Except.bind, pure, Except.pure]⟩

/-- A choice in parentheses that can be read by itself is read at its place, for the same. -/
theorem exists_gets_choice {text : List Char}
    {alone : Reading (Choice × Legacy) (Cursor.start ('(' :: text)).size}
    (read : choice (Cursor.start ('(' :: text)) = .ok alone) (spent : alone.rest.rest = [])
    (more : rest ≠ []) (front : List Char) :
    ∃ chosen, Gets choice (behind front ('(' :: text ++ rest)) chosen
        (behind (front ++ '(' :: text) rest) ∧
      chosen.1.withoutSpans = alone.value.1.withoutSpans := by
  obtain ⟨found, given, same, left⟩ := choice_of_alone read more (byteLength front)
  rw [spent, List.nil_append] at left
  have reads : Reads (choice (behind front ('(' :: text ++ rest)))
      (fun chosen => Comparison.choiceView chosen = Comparison.choiceView alone.value) rest :=
    ⟨found, given, same, left⟩
  obtain ⟨chosen, alike, gets⟩ := gets_of_reads reads
    (Indexed.mirrors_choice (Indexed.mirrored _ _) (Nat.le_refl _))
  exact ⟨chosen, gets, (Prod.mk.inj alike).1⟩

end Reader

end BranchText
