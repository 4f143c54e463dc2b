import BranchText.Proofs.Compared.Fronts
import BranchText.Proofs.Compared.Laws
import BranchText.Proofs.Reading.Tokens

/-!
# Tokens in front of a comment

A text is followed by a comment, by a blank, by a comment that nothing closes, or by something else.
Its tokens are the same with a comment behind it as with a blank, unless the last of them would take
the start of the comment along: a slash, an asterisk and a backslash do.
-/

namespace BranchText

/-! ## Where a lexeme stops -/

namespace Lexeme

variable {front : List Char}

/-- Whether a lexeme goes over the end of a text shows in the character behind it. -/
theorem isRun_over {first c : Char} {more rest : List Char} (plain : first ≠ '\\')
    (long : (first :: more).length < (lexeme (first :: more ++ c :: rest)).length) :
    ∃ kind run, IsRun kind run ∧ run <+: first :: more ++ c :: rest ∧
      (first :: more).length < run.length ∧ c ∈ run.tail := by
  obtain ⟨kind, run, read, runs, taken⟩ := lexeme_eq_run plain (more ++ c :: rest)
  rw [← List.cons_append] at read taken
  rw [read] at long
  refine ⟨kind, run, runs, taken, long, ?_⟩
  by_contra missing
  have short := runs.prefix_of_append (List.cons_ne_nil first more) taken fun d head => by
    cases head
    exact missing
  exact absurd short.length_le (Nat.not_le.2 long)

theorem length_ofEscape_le {c : Char} (plain : c ≠ '\n') (more rest : List Char) :
    more ≠ [] → (ofEscape (more ++ c :: rest)).length ≤ more.length + 1 := by
  intro some
  obtain ⟨first, later, rfl⟩ := List.exists_cons_of_ne_nil some
  rw [List.cons_append, ofEscape_cons]
  split
  · rename_i pair
    cases later with
    | nil => exact absurd (Option.some.inj pair.2) plain
    | cons d later => simp
  · split
    · simp
    · split <;> simp

/-- Only three characters take a slash behind them along. -/
theorem over_slash (some : front ≠ []) {rest : List Char}
    (long : front.length < (lexeme (front ++ '/' :: rest)).length) :
    front = ['/'] ∨ front = ['*'] ∨ front = ['\\'] := by
  obtain ⟨first, more, rfl⟩ := List.exists_cons_of_ne_nil some
  by_cases escape : first = '\\'
  · subst escape
    by_cases none : more = []
    · rw [none]
      exact .inr (.inr rfl)
    · exact absurd (length_ofEscape_le (by decide) more rest none) (Nat.not_le.2 long)
  obtain ⟨kind, run, runs, taken, longer, inside⟩ := isRun_over escape long
  cases runs with
  | fixed listed =>
    have all : ∀ entry ∈ spellings, '/' ∈ entry.1.tail →
        entry.1 = ['/', '/'] ∨ entry.1 = ['*', '/'] := by decide
    rcases all _ listed inside with rfl | rfl
    all_goals
      obtain rfl : more = [] := by
        cases more with
        | nil => rfl
        | cons c more =>
          simp only [List.length_cons, List.length_nil] at longer
          omega
      have same := (List.cons_prefix_cons.1 taken).1
      simp [← same]
  | blanks blank => exact absurd (blank _ (List.mem_of_mem_tail inside)) (by decide)
  | number _ digits => exact absurd (digits _ inside) (by decide)
  | single => cases inside

/-- Only blanks take a blank behind them along. -/
theorem over_blank {rest : List Char}
    (long : front.length < (lexeme (front ++ ' ' :: rest)).length) :
    ∀ c ∈ front, isBlank c = true := by
  cases front with
  | nil => nofun
  | cons first more =>
    by_cases escape : first = '\\'
    · subst escape
      by_cases none : more = []
      · subst none
        exact absurd long (Nat.lt_irrefl 1)
      · exact absurd (length_ofEscape_le (by decide) more rest none) (Nat.not_le.2 long)
    obtain ⟨kind, run, runs, taken, longer, inside⟩ := isRun_over escape long
    cases runs with
    | fixed listed =>
      have none : ∀ entry ∈ spellings, ' ' ∉ entry.1.tail := by decide
      exact absurd inside (none _ listed)
    | blanks blank =>
      have starts := List.prefix_of_prefix_length_le (List.prefix_append _ _) taken longer.le
      exact fun c member => blank c (starts.mem member)
    | number _ digits => exact absurd (digits _ inside) (by decide)
    | single => cases inside

end Lexeme

/-! ## Gaps -/

/-- A blank in front of a text is a token with the blanks that the text starts with. -/
theorem Cursor.takes_blank {c : Char} (blank : Lexeme.isBlank c = true) (offset : Nat)
    (rest : List Char) : ∃ token, Cursor.Takes ⟨offset, c :: rest⟩ token
      ⟨offset + byteLength (c :: rest.takeWhile Lexeme.isBlank), rest.dropWhile Lexeme.isBlank⟩ ∧
      token.kind = .whitespace ∧ token.text = .ofList (c :: rest.takeWhile Lexeme.isBlank) := by
  have read : lexeme (c :: rest) = ⟨.whitespace, .ofList (c :: rest.takeWhile Lexeme.isBlank),
      (c :: rest.takeWhile Lexeme.isBlank).length⟩ := by
    have run : lexeme (c :: rest) = Lexeme.ofRun c rest := by
      simp only [Lexeme.isBlank, Bool.or_eq_true, decide_eq_true_eq] at blank
      rcases blank with rfl | rfl <;> rfl
    rw [run, Lexeme.ofRun, if_pos blank]
  have kind : (Cursor.token ⟨offset, c :: rest⟩).kind = .whitespace := by rw [token, read]
  have takes := @takes_lexeme ⟨offset, c :: rest⟩ (List.cons_ne_nil _ _) (by rw [kind]; decide)
    (by rw [kind]; decide)
  have split : c :: rest = c :: rest.takeWhile Lexeme.isBlank ++ rest.dropWhile Lexeme.isBlank := by
    rw [List.cons_append, List.takeWhile_append_dropWhile]
  rw [afterLexeme, read, @skip_of_append ⟨offset, c :: rest⟩ _ _ split] at takes
  exact ⟨_, takes, kind, by rw [token, read]⟩

namespace Reader

variable {cursor after : Cursor} {token : Token}

/-- The text of a gap and the place behind it. -/
def gapped (cursor : Cursor) : Except ReadError (String × Cursor) := (gap cursor).map Reading.view

theorem gap_of_gapped_ok {value : String} {last : Cursor} (read : gapped cursor = .ok (value, last)) :
    ∃ reading, gap cursor = .ok reading ∧ reading.value = value ∧ reading.rest = last := by
  rw [gapped] at read
  cases given : gap cursor with
  | error error =>
    rw [given] at read
    cases read
  | ok reading =>
    rw [given] at read
    cases read
    exact ⟨reading, rfl, rfl, rfl⟩

theorem gap_of_gapped_error {error : ReadError} (failed : gapped cursor = .error error) :
    gap cursor = .error error := by
  rw [gapped] at failed
  cases given : gap cursor with
  | error other =>
    rw [given] at failed
    cases failed
    rfl
  | ok reading =>
    rw [given] at failed
    cases failed

/-- A gap that starts with a blank goes on behind it. -/
theorem gapped_of_blank (takes : cursor.Takes token after) (blank : token.kind = .whitespace) :
    gapped cursor = Prod.map (token.text ++ ·) id <$> gapped after := by
  obtain ⟨lexed, read, rfl, rfl⟩ := takes
  rw [gapped, gap.eq_def cursor, gapped]
  simp only [read, dif_pos blank]
  cases gap lexed.after <;> rfl

/-- There is no gap in front of anything else. -/
theorem gapped_of_solid (takes : cursor.Takes token after) (solid : token.kind ≠ .whitespace) :
    gapped cursor = .ok ("", cursor) := by
  obtain ⟨lexed, read, rfl, rfl⟩ := takes
  rw [gapped, gap.eq_def cursor]
  simp only [read, dif_neg solid]
  rfl

/-- A blank is a part of the gap that it stands in front of. -/
theorem gapped_cons {c : Char} (blank : Lexeme.isBlank c = true) (offset : Nat)
    (rest : List Char) : gapped ⟨offset, c :: rest⟩ =
      Prod.map (.singleton c ++ ·) id <$> gapped ⟨offset + c.utf8Size, rest⟩ := by
  obtain ⟨token, takes, kind, meant⟩ := Cursor.takes_blank blank offset rest
  have outer := gapped_of_blank takes kind
  rw [meant] at outer
  by_cases more : ∃ d later, rest = d :: later ∧ Lexeme.isBlank d = true
  · -- Both gaps go on behind the same blanks.
    obtain ⟨d, later, rfl, next⟩ := more
    obtain ⟨token, takes, kind, meant⟩ :=
      Cursor.takes_blank next (offset + c.utf8Size) later
    rw [List.takeWhile_cons_of_pos next, List.dropWhile_cons_of_pos next, byteLength_cons,
      ← Nat.add_assoc] at outer
    rw [outer, gapped_of_blank takes kind, meant, Functor.map_map]
    congr 1
    funext found
    simp [Prod.map, String.ofList_cons, String.append_assoc]
  · have none : rest.takeWhile Lexeme.isBlank = [] ∧ rest.dropWhile Lexeme.isBlank = rest := by
      cases rest with
      | nil => exact ⟨rfl, rfl⟩
      | cons d later =>
        have solid : ¬ Lexeme.isBlank d = true := fun blank => more ⟨d, later, rfl, blank⟩
        exact ⟨List.takeWhile_cons_of_neg solid, List.dropWhile_cons_of_neg solid⟩
    rw [none.1, none.2] at outer
    exact outer

/-- Blanks are a part of the gap that they stand in front of. -/
theorem gapped_append {blanks : List Char} (blank : ∀ c ∈ blanks, Lexeme.isBlank c = true)
    (offset : Nat) (rest : List Char) : gapped ⟨offset, blanks ++ rest⟩ =
      Prod.map (.ofList blanks ++ ·) id <$> gapped ⟨offset + byteLength blanks, rest⟩ := by
  induction blanks generalizing offset with
  | nil =>
    rw [List.nil_append, byteLength_nil, Nat.add_zero]
    cases gapped ⟨offset, rest⟩ <;> simp [Prod.map, Functor.map, Except.map]
  | cons c more ih =>
    rw [List.cons_append, gapped_cons (blank c (List.mem_cons_self ..)),
      ih (fun other member => blank other (List.mem_cons_of_mem _ member)), Functor.map_map,
      byteLength_cons, Nat.add_assoc]
    congr 1
    funext found
    simp [Prod.map, String.ofList_cons, String.append_assoc]

/-- A gap depends on the text behind a cursor, up to offsets. -/
theorem gapped_shift {other : Cursor} (same : other.rest = cursor.rest) {text : String}
    {last : Cursor} (read : gapped cursor = .ok (text, last)) :
    ∃ place, gapped other = .ok (text, place) ∧ place.rest = last.rest := by
  induction cursor using Indexed.cursor_induction generalizing other text with
  | step cursor ih =>
    cases next : cursor.next with
    | error error =>
      rw [gapped, gap.eq_def] at read
      simp only [next] at read
      cases read
    | ok lexed =>
      obtain ⟨found, given, kind, meant, behind⟩ := Cursor.next_shift same next
      by_cases blank : lexed.token.kind = .whitespace
      · have progress := lexed.size_lt (by rw [blank]; decide)
        rw [gapped_of_blank ⟨lexed, next, rfl, rfl⟩ blank] at read
        rw [gapped_of_blank ⟨found, given, rfl, rfl⟩ (kind.trans blank), meant]
        cases inner : gapped lexed.after with
        | error error =>
          rw [inner] at read
          cases read
        | ok gap =>
          rw [inner] at read
          cases read
          obtain ⟨place, gapped, rest⟩ := ih _ progress behind inner
          exact ⟨place, by rw [gapped]; rfl, rest⟩
      · rw [gapped_of_solid ⟨lexed, next, rfl, rfl⟩ blank] at read
        cases read
        exact ⟨other, gapped_of_solid ⟨found, given, rfl, rfl⟩ (by rwa [kind]), same⟩

end Reader

end BranchText
