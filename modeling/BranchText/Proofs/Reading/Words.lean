import BranchText.Proofs.Reading.Tokens

/-!
# Identifiers and numbers

A printed identifier gives tokens that are all parts of identifiers, words with a meaning of their
own included, and none after them is. A printed number is one token and reads as the number.
-/

namespace BranchText

namespace Cursor

/-- The characters that follow identifiers, calls and numbers in printed documents. -/
def endsWord (c : Char) : Bool := [':', ' ', ',', '}'].contains c

theorem eq_of_endsWord {c : Char} (ends : endsWord c = true) :
    c = ':' ∨ c = ' ' ∨ c = ',' ∨ c = '}' := by
  simpa [endsWord] using ends

/-- What follows an identifier is no part of one. -/
theorem gives_after_word {cursor : Cursor} {c : Char} {rest : List Char}
    (text : cursor.rest = c :: rest) (ends : endsWord c = true) :
    ∃ kind meant left, cursor.Gives kind meant left ∧
      [TokenKind.colon, .whitespace, .comma, .rightBrace].contains kind = true := by
  rcases eq_of_endsWord ends with rfl | rfl | rfl | rfl
  · exact ⟨_, _, _, gives_mark (show (':', TokenKind.colon) ∈ marks by decide) text, by decide⟩
  · have read : lexeme cursor.rest = Lexeme.ofRun ' ' rest := by
      rw [text]
      rfl
    rw [Lexeme.ofRun, if_pos (by decide)] at read
    exact ⟨_, _, _, gives_of_lexeme read (by decide) (by decide), by decide⟩
  · exact ⟨_, _, _, gives_mark (show (',', TokenKind.comma) ∈ marks by decide) text, by decide⟩
  · exact ⟨_, _, _, gives_mark (show ('}', TokenKind.rightBrace) ∈ marks by decide) text, by decide⟩

/-- A run of identifier characters is part of an identifier. -/
theorem isIdentifierToken_of_run {kind : TokenKind} {run : List Char} (runs : IsRun kind run)
    (chars : ∀ c ∈ run, Reader.isIdentifierChar c = true) (start stop : Nat) :
    Reader.isIdentifierToken ⟨kind, start, stop, String.ofList run⟩ = true := by
  cases runs with
  | fixed listed =>
    have all : (Lexeme.spellings.all fun entry =>
        !(entry.1.all Reader.isIdentifierChar) || entry.2.isKeyword) = true := by decide +kernel
    have every : run.all Reader.isIdentifierChar = true := List.all_eq_true.2 chars
    have keyword : kind.isKeyword = true := by
      simpa [every] using List.all_eq_true.1 all _ listed
    cases kind <;> first | rfl | cases keyword
  | @blanks first rest blank =>
    have isBlank := blank first (List.mem_cons_self ..)
    have isChar := chars first (List.mem_cons_self ..)
    simp only [Lexeme.isBlank, Bool.or_eq_true, decide_eq_true_eq] at isBlank
    rcases isBlank with rfl | rfl <;> exact absurd isChar (by decide +kernel)
  | number => rfl
  | single => simpa [Reader.isIdentifierToken] using chars

/-- The next token of a printed identifier. -/
theorem next_of_identifier {cursor : Cursor} {name back : List Char} (some : name ≠ [])
    (text : cursor.rest = name ++ back) (chars : ∀ c ∈ name, Reader.isIdentifierChar c = true)
    (ends : ∀ c, back.head? = Option.some c → endsWord c = true) :
    ∃ (lexed : Lexed cursor) (taken left : List Char), cursor.next = .ok lexed ∧
      Reader.isIdentifierToken lexed.token = true ∧ lexed.token.text = String.ofList taken ∧
      name = taken ++ left ∧ taken ≠ [] ∧ lexed.after.rest = left ++ back := by
  have noBackslash : ∀ c ∈ name, c ≠ '\\' := by
    rintro c member rfl
    exact absurd (chars _ member) (by decide +kernel)
  have part : ∀ kind run, IsRun kind run → run <+: name →
      ∀ start stop, Reader.isIdentifierToken ⟨kind, start, stop, String.ofList run⟩ = true :=
    fun kind run runs front => isIdentifierToken_of_run runs
      fun c member => chars c (front.subset member)
  have stops : ∀ kind run c, IsRun kind run → run.head? = name.head? →
      back.head? = Option.some c → c ∉ run.tail := by
    intro kind run c runs head follows member
    have goes := runs.continues_of_mem_tail c member
    rcases eq_of_endsWord (ends c follows) with rfl | rfl | rfl | rfl
    · exact absurd goes (by decide)
    · -- Only blanks go on with a blank, and an identifier starts with none.
      obtain ⟨first, rest, rfl⟩ := List.exists_cons_of_ne_nil some
      have isChar := chars first (List.mem_cons_self ..)
      cases runs with
      | fixed listed =>
        have none : ∀ entry ∈ Lexeme.spellings, ' ' ∉ entry.1.tail := by decide
        exact none _ listed member
      | blanks blank =>
        have isBlank := blank _ (List.mem_cons_self ..)
        simp only [List.head?_cons, Option.some.injEq] at head
        rw [head] at isBlank
        simp only [Lexeme.isBlank, Bool.or_eq_true, decide_eq_true_eq] at isBlank
        rcases isBlank with rfl | rfl <;> exact absurd isChar (by decide +kernel)
      | number _ digits =>
        rcases digits _ member with digit | point
        · exact absurd digit (by decide)
        · exact absurd point (by decide)
      | single => cases member
    · exact absurd goes (by decide)
    · exact absurd goes (by decide)
  obtain ⟨kind, run, left, runs, split, taken, lexed, next, kindEq, textEq, restEq⟩ :=
    gives_run some text noBackslash stops fun kind run runs front => by
      constructor <;> rintro rfl <;> exact absurd (part _ run runs front 0 0)
        (by simp [Reader.isIdentifierToken, TokenKind.isKeyword])
  have isPart := part kind run runs ⟨left, split.symm⟩ lexed.token.start lexed.token.stop
  refine ⟨lexed, run, left, next, ?_, textEq, split, taken, restEq⟩
  rw [← kindEq, ← textEq] at isPart
  exact isPart

end Cursor

/-- A reader succeeds with a good value and leaves a text. -/
def Reads {α : Type} {limit : Nat} (outcome : Except ReadError (Reading α limit))
    (good : α → Prop) (rest : List Char) : Prop :=
  ∃ reading, outcome = .ok reading ∧ good reading.value ∧ reading.rest.rest = rest

namespace Reader

open Cursor

/-- The kinds of the tokens that identifiers are made of. -/
def isPart (kind : TokenKind) : Bool :=
  [.number, .text, .call, .eval, .mode, .use, .match].contains kind

theorem isPart_of_isIdentifierToken {token : Token} (part : isIdentifierToken token = true) :
    isPart token.kind = true := by
  obtain ⟨kind, start, stop, text⟩ := token
  cases kind <;> first | rfl | cases part

/-- What follows an identifier does not continue it. -/
theorem not_isIdentifierToken_of_endsWord {cursor : Cursor} {c : Char} {rest : List Char}
    (text : cursor.rest = c :: rest) (ends : endsWord c = true) :
    ∃ lexed : Lexed cursor, cursor.next = .ok lexed ∧
      isIdentifierToken lexed.token = false := by
  obtain ⟨kind, meant, left, ⟨lexed, next, kindEq, -, -⟩, listed⟩ := gives_after_word text ends
  refine ⟨lexed, next, ?_⟩
  simp only [List.contains_eq_mem, List.mem_cons, List.not_mem_nil, or_false,
    decide_eq_true_eq] at listed
  rcases listed with rfl | rfl | rfl | rfl <;>
    simp [isIdentifierToken, kindEq, TokenKind.isKeyword]

/-- The tokens of a printed identifier are read as one name. -/
theorem reads_identifierTail (start : String) {cursor : Cursor} {name rest : List Char} {c : Char}
    (text : cursor.rest = name ++ c :: rest) (chars : ∀ d ∈ name, isIdentifierChar d = true)
    (ends : endsWord c = true) :
    Reads (identifierTail start cursor) (· = start ++ String.ofList name) (c :: rest) := by
  by_cases some : name = []
  · obtain ⟨lexed, next, other⟩ := not_isIdentifierToken_of_endsWord (by simpa [some] using text) ends
    refine ⟨⟨start, cursor, Nat.lt_succ_self _⟩, ?_, by simp [some], by simpa [some] using text⟩
    unfold identifierTail
    rw [next]
    simp [other]
  · obtain ⟨lexed, taken, left, next, part, meant, split, more, after⟩ :=
      next_of_identifier some text chars (by simpa using ends)
    have shorter : left.length < name.length := by
      have positive := List.length_pos_iff.2 more
      rw [split, List.length_append]
      omega
    obtain ⟨reading, tail, value, restEq⟩ := reads_identifierTail (start ++ lexed.token.text) after
      (fun d member => chars d (split ▸ List.mem_append_right taken member)) ends
    have positive := reading.size_lt
    have progress := lexed.size_lt (kind_ne_endOfText part)
    refine ⟨⟨reading.value, reading.rest, by omega⟩, ?_, ?_, restEq⟩
    · rw [identifierTail, next]
      simp [part, tail]
    · simp [value, meant, split, String.append_assoc]
termination_by name.length

/-- A printed identifier is read back. -/
theorem reads_identifier {cursor : Cursor} {name : String} {rest : List Char} {c : Char}
    (text : cursor.rest = name.toList ++ c :: rest) (valid : IsIdentifier name)
    (ends : endsWord c = true) : Reads (identifier cursor) (· = name) (c :: rest) := by
  obtain ⟨reading, tail, value, restEq⟩ := reads_identifierTail "" text valid.2 ends
  have value : reading.value = name := by simpa using value
  refine ⟨reading, ?_, value, restEq⟩
  have more : reading.value.isEmpty = false := by simpa [value] using valid.1
  simp [identifier, tail, more, bind, Except.bind, pure, Except.pure]

end Reader

/-! ## Numbers -/

namespace Print

theorem isDigit_of_mem_number {value : Nat} : ∀ c ∈ number value, Decimal.isDigit c = true := by
  intro c member
  have digit := Nat.isDigit_of_mem_toDigits (by decide) (by decide) member
  simp only [Char.isDigit, Bool.and_eq_true, decide_eq_true_eq] at digit
  simpa [Decimal.isDigit, Char.le_def] using digit

theorem number_ne_nil (value : Nat) : number value ≠ [] := Nat.toDigits_ne_nil

/-- Digits are read in base ten. -/
theorem appendDigits_eq {digits : List Char} (all : ∀ c ∈ digits, Decimal.isDigit c = true)
    (start : Nat) : Decimal.appendDigits start digits = Nat.ofDigitChars 10 digits start := by
  induction digits generalizing start with
  | nil => simp [Decimal.appendDigits]
  | cons c rest ih =>
    rw [List.forall_mem_cons] at all
    have bounds : '0' ≤ c ∧ c ≤ '9' := by simpa [Decimal.isDigit] using all.1
    have value : Decimal.digitValue c = c.toNat - '0'.toNat := if_pos bounds
    rw [Nat.ofDigitChars_cons, ← ih all.2, ← value]
    rfl

/-- The digits of a number stand for it. -/
theorem appendDigits_number (value : Nat) : Decimal.appendDigits 0 (number value) = value := by
  rw [appendDigits_eq isDigit_of_mem_number, number, Nat.ofDigitChars_ten_toDigits]

/-- A printed whole number is read as the number, without places. -/
theorem ofChars_number (value : Nat) : Decimal.ofChars (number value) = ⟨value, 0⟩ := by
  have whole : (number value ++ []).takeWhile Decimal.isDigit = number value ++ [] :=
    List.takeWhile_append_of_pos isDigit_of_mem_number
  have left : (number value ++ []).dropWhile Decimal.isDigit = [] :=
    List.dropWhile_append_of_pos isDigit_of_mem_number
  rw [List.append_nil] at whole left
  simp [Decimal.ofChars, whole, left, appendDigits_number]

/-- A printed branch index is read as the index. -/
theorem branchIndex?_number {value : Nat} (small : value ≤ Reader.largestBranch) :
    Reader.branchIndex? (String.ofList (number value)) = some value := by
  have digits : (number value).all Decimal.isDigit = true := by
    simpa using isDigit_of_mem_number
  simp [Reader.branchIndex?, digits, appendDigits_number, small]

end Print

/-- Digits in front of anything but a digit or a point are a number. -/
theorem Lexeme.lexeme_digits {digits rest : List Char} (some : digits ≠ [])
    (all : ∀ c ∈ digits, Decimal.isDigit c = true)
    (stops : ∀ c, rest.head? = Option.some c → Decimal.isDigit c = false ∧ c ≠ '.') :
    lexeme (digits ++ rest) = ⟨.number, String.ofList digits, digits.length⟩ := by
  obtain ⟨first, more, rfl⟩ := List.exists_cons_of_ne_nil some
  have chars : numberChars (first :: more ++ rest) = first :: more := by
    have whole : (first :: more ++ rest).takeWhile Decimal.isDigit = first :: more := by
      rw [List.takeWhile_append_of_pos all]
      cases rest with
      | nil => simp
      | cons c later => simp [(stops c rfl).1]
    have left : (first :: more ++ rest).dropWhile Decimal.isDigit = rest := by
      rw [List.dropWhile_append_of_pos all]
      cases rest with
      | nil => rfl
      | cons c later => simp [(stops c rfl).1]
    simp only [numberChars, whole, left]
    split
    · exact absurd rfl (stops '.' rfl).2
    · rfl
  rw [List.cons_append, lexeme_of_digit (all first (List.mem_cons_self ..)), ← List.cons_append,
    chars]

namespace Cursor

/-- A printed number is one token. -/
theorem gives_number {cursor : Cursor} {value : Nat} {rest : List Char} {c : Char}
    (text : cursor.rest = Print.number value ++ c :: rest) (ends : endsWord c = true) :
    cursor.Gives .number (String.ofList (Print.number value)) (c :: rest) := by
  have stops : ∀ d, (c :: rest).head? = some d → Decimal.isDigit d = false ∧ d ≠ '.' := by
    rintro d ⟨⟩
    rcases eq_of_endsWord ends with rfl | rfl | rfl | rfl <;> decide
  have read := Lexeme.lexeme_digits (Print.number_ne_nil value) Print.isDigit_of_mem_number stops
  rw [← text] at read
  simpa [text] using gives_of_lexeme read (by decide) (by decide)

end Cursor

end BranchText
