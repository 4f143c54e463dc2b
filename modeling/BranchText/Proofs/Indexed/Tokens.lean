import BranchText.Proofs.Indexed.Runs
import BranchText.Proofs.Reading.Runs

/-!
# Tokens by byte index

Blanks, numbers and comments are measured in bytes. What is measured ends at ASCII characters, which
no byte of another character is, so the ends are places; and the token at the byte index of a place
is the next token of the cursor there.
-/

namespace BranchText

/-! ## Runs in bytes -/

theorem bytesOf_cons_of_not_isAscii {c : Char} (wide : isAscii c = false) (rest : List Char) :
    ∃ byte more, bytesOf (c :: rest) = byte :: more ∧ isAscii byte = false := by
  have some : 0 < (bytesOf [c]).length := by
    rw [length_bytesOf, byteLength_cons]
    exact Nat.lt_of_lt_of_le c.utf8Size_pos (Nat.le_add_right ..)
  obtain ⟨byte, more, split⟩ := List.exists_cons_of_length_pos some
  refine ⟨byte, more ++ bytesOf rest, ?_, not_isAscii_of_mem wide (split ▸ List.mem_cons_self ..)⟩
  rw [bytesOf_cons, split]
  rfl

/-- A text starts with an ASCII character if and only if its bytes do. -/
theorem head?_bytesOf {c : Char} (ascii : isAscii c = true) (text : List Char) :
    (bytesOf text).head? = some c ↔ text.head? = some c := by
  cases text with
  | nil => rfl
  | cons first rest =>
    cases plain : isAscii first with
    | true =>
      rw [bytesOf_of_isAscii plain]
      rfl
    | false =>
      obtain ⟨byte, more, split, wide⟩ := bytesOf_cons_of_not_isAscii plain rest
      rw [split]
      constructor
      · rintro ⟨⟩
        rw [wide] at ascii
        cases ascii
      · rintro ⟨⟩
        rw [plain] at ascii
        cases ascii

theorem bytesOf_append_of_isAscii {run : List Char} (ascii : ∀ c ∈ run, isAscii c = true)
    (rest : List Char) : bytesOf (run ++ rest) = run ++ bytesOf rest := by
  induction run with
  | nil => rfl
  | cons c run ih =>
    rw [List.cons_append, bytesOf_of_isAscii (ascii c (List.mem_cons_self ..)),
      ih fun other member => ascii other (List.mem_cons_of_mem _ member)]
    rfl

theorem byteLength_of_isAscii {run : List Char} (ascii : ∀ c ∈ run, isAscii c = true) :
    byteLength run = run.length := by
  have bytes := bytesOf_append_of_isAscii ascii []
  rw [List.append_nil] at bytes
  rw [← length_bytesOf, bytes, bytesOf, List.flatMap_nil, List.map_nil, List.append_nil]

section Whiles

variable {kind : Char → Bool} (ascii : ∀ c, kind c = true → isAscii c = true)
include ascii

/-- Characters of an ASCII kind are taken from the bytes of a text as from the text. -/
theorem takeWhile_bytesOf (text : List Char) :
    (bytesOf text).takeWhile kind = text.takeWhile kind := by
  induction text with
  | nil => rfl
  | cons c rest ih =>
    cases isKind : kind c with
    | true =>
      rw [bytesOf_of_isAscii (ascii c isKind), List.takeWhile_cons, List.takeWhile_cons, isKind, ih]
    | false =>
      rw [List.takeWhile_cons_of_neg (by rw [isKind]; exact Bool.false_ne_true)]
      cases here : isAscii c with
      | true =>
        rw [bytesOf_of_isAscii here, List.takeWhile_cons_of_neg (by rw [isKind]; simp)]
      | false =>
        obtain ⟨byte, more, split, wide⟩ := bytesOf_cons_of_not_isAscii here rest
        rw [split, List.takeWhile_cons_of_neg]
        exact fun isKind => Bool.false_ne_true (wide.symm.trans (ascii byte isKind))

theorem dropWhile_bytesOf (text : List Char) :
    (bytesOf text).dropWhile kind = bytesOf (text.dropWhile kind) := by
  have taken : ∀ c ∈ text.takeWhile kind, isAscii c = true := fun c member =>
    ascii c (List.all_eq_true.1 List.all_takeWhile c member)
  have split : bytesOf text = text.takeWhile kind ++ bytesOf (text.dropWhile kind) := by
    rw [← bytesOf_append_of_isAscii taken, List.takeWhile_append_dropWhile]
  have whole := List.takeWhile_append_dropWhile (p := kind) (l := bytesOf text)
  rw [takeWhile_bytesOf ascii, split] at whole
  rw [split]
  exact List.append_cancel_left whole

end Whiles

namespace Lexeme

theorem isAscii_of_isBlank (c : Char) (blank : isBlank c = true) : isAscii c = true := by
  simp only [isBlank, Bool.or_eq_true, decide_eq_true_eq] at blank
  rcases blank with rfl | rfl <;> decide

theorem isAscii_of_isDigit (c : Char) (digit : Decimal.isDigit c = true) : isAscii c = true := by
  simp only [Decimal.isDigit, Bool.and_eq_true, decide_eq_true_eq] at digit
  have last : c.toNat ≤ '9'.toNat := digit.2
  exact decide_eq_true (Nat.lt_of_le_of_lt last (by decide))

theorem numberChars_bytesOf (text : List Char) : numberChars (bytesOf text) = numberChars text := by
  unfold numberChars
  rw [takeWhile_bytesOf isAscii_of_isDigit, dropWhile_bytesOf isAscii_of_isDigit]
  cases text.dropWhile Decimal.isDigit with
  | nil => rfl
  | cons c fraction =>
    by_cases point : c = '.'
    · subst point
      rw [bytesOf_of_isAscii (by decide)]
      simp only [takeWhile_bytesOf isAscii_of_isDigit]
    · have starts : ∃ byte more, bytesOf (c :: fraction) = byte :: more ∧ byte ≠ '.' := by
        cases here : isAscii c with
        | true => exact ⟨c, _, bytesOf_of_isAscii here _, point⟩
        | false =>
          obtain ⟨byte, more, split, wide⟩ := bytesOf_cons_of_not_isAscii here fraction
          refine ⟨byte, more, split, ?_⟩
          rintro rfl
          cases wide
      obtain ⟨byte, more, split, other⟩ := starts
      rw [split]
      simp only
      split
      · rename_i same
        cases same
        exact absurd rfl other
      · split
        · rename_i same
          cases same
          exact absurd rfl point
        · rfl

end Lexeme

namespace Indexed

/-- A text that starts with blanks or a number starts with a run of ASCII characters, which is its
lexeme and has the same length in bytes. -/
theorem run_of_startsRun {text : List Char} (starts : startsRun text = true) :
    ∃ run rest, text = run ++ rest ∧ (∀ c ∈ run, isAscii c = true) ∧
      (lexeme text).text = String.ofList run ∧ (lexeme text).length = run.length ∧
      runLength (bytesOf text) = run.length := by
  obtain - | ⟨first, rest⟩ := text
  · cases starts
  simp only [startsRun, Bool.and_eq_true, bne_iff_ne, ne_eq, Option.isNone_iff_eq_none,
    Bool.or_eq_true] at starts
  obtain ⟨⟨plain, unlisted⟩, ofKind⟩ := starts
  have ascii : isAscii first = true := ofKind.elim (Lexeme.isAscii_of_isBlank first)
    (Lexeme.isAscii_of_isDigit first)
  have found : lexeme (first :: rest) = Lexeme.ofRun first rest := by
    simp only [lexeme, if_neg plain, unlisted]
  have measured : runLength (bytesOf (first :: rest)) =
      (Lexeme.ofRun first (bytesOf rest)).length := by
    rw [bytesOf_of_isAscii ascii, runLength]
  rw [found, measured]
  unfold Lexeme.ofRun
  by_cases blank : Lexeme.isBlank first = true
  · simp only [if_pos blank, takeWhile_bytesOf Lexeme.isAscii_of_isBlank]
    refine ⟨_, rest.dropWhile Lexeme.isBlank, ?_, ?_, rfl, rfl, rfl⟩
    · rw [List.cons_append, List.takeWhile_append_dropWhile]
    · intro c member
      rcases List.mem_cons.1 member with rfl | member
      · exact ascii
      · exact Lexeme.isAscii_of_isBlank c (List.all_eq_true.1 List.all_takeWhile c member)
  · have digit := ofKind.resolve_left blank
    obtain ⟨more, taken, ⟨later, split⟩, digits⟩ := Lexeme.numberChars_run digit rest
    have bytes : Lexeme.numberChars (first :: bytesOf rest) = first :: more := by
      rw [← taken, ← Lexeme.numberChars_bytesOf (first :: rest), bytesOf_of_isAscii ascii]
    simp only [if_neg blank, if_pos digit, taken, bytes]
    refine ⟨first :: more, later, ?_, ?_, rfl, rfl, rfl⟩
    · rw [List.cons_append, split]
    · intro c member
      rcases List.mem_cons.1 member with rfl | member
      · exact ascii
      · rcases digits c member with digit | rfl
        · exact Lexeme.isAscii_of_isDigit c digit
        · decide

end Indexed

end BranchText
