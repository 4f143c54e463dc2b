import BranchText.Document.Pieces

/-!
# Runs

A lexeme that no backslash starts stands for the characters it takes: a fixed spelling, blanks, a
number or one character. `lexeme_eq_run` says so, and `IsRun.prefix_of_append` cuts a lexeme off
where a text is followed by a character that no such lexeme continues over.
-/

namespace BranchText

/-- The characters that a lexeme without a backslash takes, by its kind. -/
inductive IsRun : TokenKind → List Char → Prop where
  | fixed {spelling : List Char} {kind : TokenKind} (listed : (spelling, kind) ∈ Lexeme.spellings) :
      IsRun kind spelling
  | blanks {first : Char} {rest : List Char}
      (blank : ∀ c ∈ first :: rest, Lexeme.isBlank c = true) : IsRun .whitespace (first :: rest)
  | number {first : Char} {rest : List Char} (digit : Decimal.isDigit first = true)
      (digits : ∀ c ∈ rest, Decimal.isDigit c = true ∨ c = '.') : IsRun .number (first :: rest)
  | single {c : Char} (unlisted : Lexeme.fixed? [c] = none) (solid : Lexeme.isBlank c = false)
      (notDigit : Decimal.isDigit c = false) : IsRun .text [c]

namespace Lexeme

/-- A number takes characters from the front of the text, digits and a point. -/
theorem numberChars_run {first : Char} (digit : Decimal.isDigit first = true) (rest : List Char) :
    ∃ more, numberChars (first :: rest) = first :: more ∧ more <+: rest ∧
      ∀ c ∈ more, Decimal.isDigit c = true ∨ c = '.' := by
  have whole : (first :: rest).takeWhile Decimal.isDigit
      = first :: rest.takeWhile Decimal.isDigit := by
    simp [digit]
  have left : (first :: rest).dropWhile Decimal.isDigit = rest.dropWhile Decimal.isDigit := by
    simp [digit]
  have digits : ∀ c ∈ rest.takeWhile Decimal.isDigit, Decimal.isDigit c = true :=
    fun c member => List.all_eq_true.1 List.all_takeWhile c member
  unfold numberChars
  simp only [whole, left]
  split
  · rename_i fraction point
    split
    · exact ⟨_, rfl, List.takeWhile_prefix _, fun c member => .inl (digits c member)⟩
    · refine ⟨_, rfl, ?_, ?_⟩
      · obtain ⟨later, split⟩ := List.takeWhile_prefix Decimal.isDigit (l := fraction)
        refine ⟨later, ?_⟩
        calc rest.takeWhile Decimal.isDigit ++ '.' :: fraction.takeWhile Decimal.isDigit ++ later
            = rest.takeWhile Decimal.isDigit ++ '.' :: fraction := by simp [split]
          _ = rest := by rw [← point, List.takeWhile_append_dropWhile]
      · intro c member
        rcases List.mem_append.1 member with inWhole | inFraction
        · exact .inl (digits c inWhole)
        · rcases List.mem_cons.1 inFraction with rfl | inPlaces
          · exact .inr rfl
          · exact .inl (List.all_eq_true.1 List.all_takeWhile c inPlaces)
  · exact ⟨_, rfl, List.takeWhile_prefix _, fun c member => .inl (digits c member)⟩

/-- A spelling of one character is found in any text that starts with the character. -/
theorem fixed?_singleton {first : Char} {rest : List Char}
    (unlisted : fixed? (first :: rest) = none) : fixed? [first] = none := by
  rw [fixed?, List.find?_eq_none] at unlisted ⊢
  intro entry listed starts
  refine unlisted entry listed ?_
  obtain ⟨later, split⟩ := List.isPrefixOf_iff_prefix.1 starts
  refine List.isPrefixOf_iff_prefix.2 ⟨later ++ rest, ?_⟩
  rw [← List.append_assoc, split]
  rfl

/-- A digit starts a number. -/
theorem lexeme_of_digit {first : Char} (digit : Decimal.isDigit first = true) (rest : List Char) :
    lexeme (first :: rest) = ⟨.number, String.ofList (numberChars (first :: rest)),
      (numberChars (first :: rest)).length⟩ := by
  have unlisted : fixed? (first :: rest) = none := by
    rw [fixed?, List.find?_eq_none]
    intro entry listed starts
    have none : (spellings.all fun entry => !(entry.1.head?.any Decimal.isDigit)) = true := by
      decide
    have positive := length_spelling_pos entry listed
    obtain ⟨head, tail, spelled⟩ := List.exists_cons_of_length_pos positive
    obtain ⟨later, split⟩ := List.isPrefixOf_iff_prefix.1 starts
    rw [spelled, List.cons_append] at split
    have same := (List.cons.inj split).1
    have noDigit : Decimal.isDigit head = false := by
      simpa [spelled] using List.all_eq_true.1 none entry listed
    exact absurd digit (by simp [← same, noDigit])
  have notBackslash : first ≠ '\\' := by
    rintro rfl
    exact absurd digit (by decide)
  have notBlank : isBlank first = false := by
    by_cases blank : isBlank first = true
    · simp only [isBlank, Bool.or_eq_true, decide_eq_true_eq] at blank
      rcases blank with rfl | rfl <;> exact absurd digit (by decide)
    · simpa using blank
  simp only [lexeme, if_neg notBackslash, unlisted, ofRun, notBlank, digit, Bool.false_eq_true,
    if_false, if_true]

/-- A lexeme that no backslash starts is the run of characters it takes. -/
theorem lexeme_eq_run {first : Char} (plain : first ≠ '\\') (rest : List Char) :
    ∃ kind run, lexeme (first :: rest) = ⟨kind, String.ofList run, run.length⟩ ∧
      IsRun kind run ∧ run <+: first :: rest := by
  simp only [lexeme, if_neg plain]
  cases found : fixed? (first :: rest) with
  | some entry =>
    obtain ⟨spelling, kind⟩ := entry
    refine ⟨kind, spelling, rfl, .fixed (List.mem_of_find?_eq_some found), ?_⟩
    rw [fixed?] at found
    have starts := List.find?_some found
    exact List.isPrefixOf_iff_prefix.1 starts
  | none =>
    simp only [ofRun]
    by_cases blank : isBlank first = true
    · refine ⟨_, _, by rw [if_pos blank], .blanks ?_, ?_⟩
      · intro c member
        rcases List.mem_cons.1 member with rfl | member
        · exact blank
        · exact List.all_eq_true.1 List.all_takeWhile c member
      · exact List.cons_prefix_cons.2 ⟨rfl, List.takeWhile_prefix _⟩
    · rw [if_neg blank]
      by_cases digit : Decimal.isDigit first = true
      · obtain ⟨more, taken, front, digits⟩ := numberChars_run digit rest
        exact ⟨_, _, by rw [if_pos digit, taken], .number digit digits,
          List.cons_prefix_cons.2 ⟨rfl, front⟩⟩
      · rw [if_neg digit]
        exact ⟨_, [first], rfl,
          .single (fixed?_singleton found) (by simpa using blank) (by simpa using digit),
          ⟨rest, rfl⟩⟩

end Lexeme

namespace IsRun

variable {kind : TokenKind} {run : List Char}

/-- The characters that some run goes on with behind its first character. -/
def continues (c : Char) : Bool :=
  Decimal.isDigit c || Lexeme.isBlank c
    || ['.', '\n', '[', ']', '>', '/', '*'].contains c || ('a' ≤ c && c ≤ 'z')

theorem continues_of_mem_tail (runs : IsRun kind run) : ∀ c ∈ run.tail, continues c = true := by
  cases runs with
  | fixed listed =>
    have all : (Lexeme.spellings.all fun entry => entry.1.tail.all continues) = true := by decide
    exact List.all_eq_true.1 (List.all_eq_true.1 all _ listed)
  | blanks blank =>
    intro c member
    simp [continues, blank c (List.mem_cons_of_mem _ member)]
  | number _ digits =>
    intro c member
    rcases digits c member with digit | rfl
    · simp [continues, digit]
    · decide
  | single => simp

/-- A run ends with the text it starts in if the text is followed by a character that no run goes
on with. -/
theorem prefix_of_append {front back : List Char} (runs : IsRun kind run) (some : front ≠ [])
    (taken : run <+: front ++ back) (stops : ∀ c, back.head? = Option.some c → c ∉ run.tail) :
    run <+: front := by
  rcases List.prefix_or_prefix_of_prefix taken (List.prefix_append front back) with short | long
  · exact short
  · obtain ⟨more, rfl⟩ := long
    obtain ⟨first, rest, rfl⟩ := List.exists_cons_of_ne_nil some
    cases more with
    | nil => simp
    | cons c later =>
      obtain ⟨left, rfl⟩ := (List.prefix_append_right_inj _).1 taken
      exact absurd (show c ∈ (first :: rest ++ c :: later).tail by simp) (stops c rfl)

end IsRun

end BranchText
