import BranchText.Proofs.Cleanup.Revisions
import Mathlib.Data.List.TakeWhile

/-!
# Spaces

The pass for spaces revises each line so that it is trimmed, which leaves a trimmed line alone, and
drops the empty lines at both ends.
-/

namespace BranchText

namespace Cleanup

variable {alphabet : Alphabet}

/-! ## Within a line -/

section Within

variable {line : List Char}

/-- A character that is no space or tab stays in front of the rest of its line. If the line goes on
with a space or tab and then more words, one space stays between them. -/
theorem collapseLine_cons (c : Char) (rest : List Char) : collapseLine (c :: rest) =
    if isBlank c then collapseLine rest
    else if rest.head?.any isBlank && !(collapseLine rest).isEmpty then
      c :: ' ' :: collapseLine rest
    else c :: collapseLine rest := by
  by_cases blank : isBlank c = true
  · rw [if_pos blank, collapseLine, splitAtEvery_cons_of_pos blank]
    rfl
  rw [if_neg blank, collapseLine, splitAtEvery_cons_of_neg blank]
  cases rest with
  | nil => rfl
  | cons d later =>
    rw [collapseLine, List.head?_cons, Option.any_some]
    by_cases gap : isBlank d = true
    · rw [splitAtEvery_cons_of_pos gap]
      cases words : (splitAtEvery isBlank later).filter (!·.isEmpty) with
      | nil => simp [words, joinWith]
      | cons word others =>
        have filled : word ≠ [] := by
          have := List.of_mem_filter (words ▸ List.mem_cons_self)
          simpa using this
        cases others <;> simp [words, gap, joinWith, filled]
    · rw [splitAtEvery_cons_of_neg gap]
      cases parts : splitAtEvery isBlank later with
      | nil => exact absurd parts (splitAtEvery_ne_nil _ _)
      | cons part others =>
        cases words : others.filter (!·.isEmpty) <;> simp [gap, words, joinWith]

/-- What is left of a line is a revision of it, also with a space in front if the line starts with
a space or tab. -/
theorem revised_collapseLine_and (line : List Char) :
    Revised alphabet true line (collapseLine line) ∧
      (line.head?.any isBlank = true → Revised alphabet true line (' ' :: collapseLine line)) := by
  induction line with
  | nil => exact ⟨.nil, fun contradiction => by cases contradiction⟩
  | cons c rest ih =>
    rw [collapseLine_cons]
    by_cases blank : isBlank c = true
    · rw [if_pos blank]
      exact ⟨.drop blank ih.1, fun _ => .swap blank rfl ih.1⟩
    · rw [if_neg blank]
      refine ⟨?_, fun start => absurd start blank⟩
      split
      · rename_i gap
        exact .keep c (ih.2 (Bool.and_eq_true_iff.1 gap).1)
      · exact .keep c ih.1

theorem revised_collapseLine (line : List Char) : Revised alphabet true line (collapseLine line) :=
  (revised_collapseLine_and line).1

theorem isTrimmed_nil : IsTrimmed [] where
  plain := by simp
  start := by simp
  stop := by simp
  single := .nil

theorem IsTrimmed.cons {c : Char} (trimmed : IsTrimmed line)
    (plain : c ≠ ' ' ∧ c ≠ '\t' ∧ c ≠ '\r' ∧ c ≠ '\n') : IsTrimmed (c :: line) where
  plain := List.forall_mem_cons.2 ⟨plain.2, trimmed.plain⟩
  start := by simpa using plain.1
  stop := by
    cases line with
    | nil => simpa using plain.1
    | cons d rest => simpa using trimmed.stop
  single := trimmed.single.cons fun _ _ both => plain.1 both.1

/-- Another word may be put in front of a line with words, a space behind it. -/
theorem IsTrimmed.cons_space {c : Char} (trimmed : IsTrimmed line) (filled : line ≠ [])
    (plain : c ≠ ' ' ∧ c ≠ '\t' ∧ c ≠ '\r' ∧ c ≠ '\n') : IsTrimmed (c :: ' ' :: line) where
  plain := List.forall_mem_cons.2 ⟨plain.2, List.forall_mem_cons.2 ⟨by decide, trimmed.plain⟩⟩
  start := by simpa using plain.1
  stop := by
    cases line with
    | nil => exact absurd rfl filled
    | cons d rest => simpa using trimmed.stop
  single := by
    refine (trimmed.single.cons ?_).cons fun _ _ both => plain.1 both.1
    rintro d first ⟨-, rfl⟩
    exact trimmed.start first

theorem isTrimmed_collapseLine (plain : ∀ c ∈ line, c ≠ '\r' ∧ c ≠ '\n') :
    IsTrimmed (collapseLine line) := by
  induction line with
  | nil => exact isTrimmed_nil
  | cons c rest ih =>
    obtain ⟨here, later⟩ := List.forall_mem_cons.1 plain
    rw [collapseLine_cons]
    split
    · exact ih later
    · rename_i visible
      have other : c ≠ ' ' ∧ c ≠ '\t' ∧ c ≠ '\r' ∧ c ≠ '\n' := by
        simpa [isBlank, and_assoc, here] using visible
      split
      · rename_i gap
        exact (ih later).cons_space (by simp_all) other
      · exact (ih later).cons other

/-- A line without tabs, doubled spaces and spaces behind it keeps all but a space in front. -/
theorem collapseLine_of_single (plain : '\t' ∉ line) (stop : line.getLast? ≠ some ' ')
    (single : line.IsChain fun c next => ¬ (c = ' ' ∧ next = ' ')) :
    line = ' ' :: collapseLine line ∨ line.head? ≠ some ' ' ∧ collapseLine line = line := by
  induction line with
  | nil => exact .inr ⟨by simp, rfl⟩
  | cons c rest ih =>
    obtain ⟨next, later⟩ := List.isChain_cons.1 single
    have noTab := (List.ne_and_not_mem_of_not_mem_cons plain).2
    have ends : rest.getLast? ≠ some ' ' := by
      intro last
      rw [List.getLast?_cons, last] at stop
      exact stop rfl
    have further := ih noTab ends later
    rw [collapseLine_cons]
    by_cases space : c = ' '
    · subst space
      rcases further with second | ⟨-, same⟩
      · exact absurd ⟨rfl, rfl⟩ (next ' ' (second ▸ rfl))
      · exact .inl (by rw [if_pos (by rfl), same])
    · have visible : isBlank c ≠ true := by
        simpa [isBlank, space] using (List.ne_and_not_mem_of_not_mem_cons plain).1.symm
      refine .inr ⟨by simpa using space, ?_⟩
      rw [if_neg visible]
      rcases further with gap | ⟨start, same⟩
      · have filled : collapseLine rest ≠ [] := by
          intro empty
          rw [gap, empty] at stop
          exact stop rfl
        have blank : rest.head?.any isBlank = true := by
          rw [gap]
          rfl
        rw [blank, Bool.true_and, if_pos (by simpa using filled), ← gap]
      · have word : rest.head?.any isBlank = false := by
          cases rest with
          | nil => rfl
          | cons d later =>
            have noSpace : d ≠ ' ' := by simpa using start
            have noTab := (List.ne_and_not_mem_of_not_mem_cons noTab).1
            simp [isBlank, noSpace, noTab.symm]
        rw [word, Bool.false_and, if_neg Bool.false_ne_true, same]

theorem collapseLine_of_isTrimmed (trimmed : IsTrimmed line) : collapseLine line = line := by
  have plain : '\t' ∉ line := fun listed => (trimmed.plain _ listed).1 rfl
  rcases collapseLine_of_single plain trimmed.stop trimmed.single with space | ⟨-, same⟩
  · exact absurd (congrArg List.head? space) trimmed.start
  · exact same

end Within

/-! ## Empty lines at the ends -/

section Ends

theorem exists_head_dropWhile {found : List (List Char)}
    (filled : found.dropWhile (·.isEmpty) ≠ []) :
    ∃ first, (found.dropWhile (·.isEmpty)).head? = some first ∧ first ≠ [] := by
  have first := List.head_dropWhile_not _ filled
  exact ⟨_, List.head?_eq_some_head filled, by simpa using first⟩

/-- Only empty lines are trimmed. -/
theorem exists_trimEmptyLines (found : List (List Char)) : ∃ front back,
    found = front ++ trimEmptyLines found ++ back ∧
      (∀ line ∈ front, line = []) ∧ (∀ line ∈ back, line = []) ∧
      (trimEmptyLines found ≠ [] → HaveEnds (trimEmptyLines found)) := by
  have empty {lines : List (List Char)} {line : List Char}
      (listed : line ∈ lines.takeWhile (·.isEmpty)) : line = [] := by
    simpa using List.all_eq_true.1 List.all_takeWhile line listed
  obtain ⟨middle, rest⟩ : ∃ middle, middle = found.dropWhile (·.isEmpty) := ⟨_, rfl⟩
  have behind : middle =
      trimEmptyLines found ++ (middle.reverse.takeWhile (·.isEmpty)).reverse := by
    rw [trimEmptyLines, ← rest, ← List.reverse_append, List.takeWhile_append_dropWhile,
      List.reverse_reverse]
  refine ⟨found.takeWhile (·.isEmpty), (middle.reverse.takeWhile (·.isEmpty)).reverse, ?_,
    fun _ => empty, fun _ listed => empty (List.mem_reverse.1 listed), fun filled => ⟨?_, ?_⟩⟩
  · rw [List.append_assoc, ← behind, rest, List.takeWhile_append_dropWhile]
  · have left : found.dropWhile (·.isEmpty) ≠ [] := by
      rw [← rest, behind]
      exact List.append_ne_nil_of_left_ne_nil filled _
    obtain ⟨first, here, visible⟩ := exists_head_dropWhile left
    rw [← rest, behind, List.head?_append_of_ne_nil _ filled] at here
    exact ⟨first, here, visible⟩
  · rw [trimEmptyLines, List.getLast?_reverse]
    exact exists_head_dropWhile fun none => filled (by rw [trimEmptyLines, none]; rfl)

theorem dropWhile_of_head {found : List (List Char)}
    (start : ∃ first, found.head? = some first ∧ first ≠ []) :
    found.dropWhile (·.isEmpty) = found := by
  obtain ⟨first, here, visible⟩ := start
  cases found with
  | nil => rfl
  | cons line rest =>
    cases here
    exact List.dropWhile_cons_of_neg (by simpa using visible)

/-- Lines with ends lose only the empty lines behind them. -/
theorem trimEmptyLines_append {found back : List (List Char)} (ends : HaveEnds found)
    (empty : ∀ line ∈ back, line = []) : trimEmptyLines (found ++ back) = found := by
  obtain ⟨⟨first, here, visible⟩, last⟩ := ends
  have start : (found ++ back).head? = some first := by rw [List.head?_append, here]; rfl
  have behind : ∀ line ∈ back.reverse, line.isEmpty = true := by
    simpa using empty
  rw [trimEmptyLines, dropWhile_of_head ⟨first, start, visible⟩, List.reverse_append,
    List.dropWhile_append_of_pos behind, dropWhile_of_head, List.reverse_reverse]
  rwa [List.head?_reverse]

end Ends

/-! ## The whole pass -/

section Whole

/-- Nothing but a line feed is left of a text without words. -/
def keptLines (text : List Char) : List (List Char) :=
  match trimEmptyLines ((lines text).map collapseLine) with
  | [] => [[]]
  | line :: rest => line :: rest

theorem collapseWhitespace_eq (text : List Char) :
    collapseWhitespace text = unlines (keptLines text) := by
  rw [collapseWhitespace, keptLines]
  split
  · rename_i none
    rw [none]
    rfl
  · rename_i kept
    rw [kept, unlines_eq_joinWith (List.cons_ne_nil _ _)]

/-- The lines that are kept follow one another among the collapsed ones, and only empty ones stand
before them. -/
theorem exists_keptLines (text : List Char) : ∃ front back,
    (lines text).map collapseLine = front ++ (keptLines text ++ back) ∧
      (∀ line ∈ front, line = []) ∧ (keptLines text = [[]] ∨ HaveEnds (keptLines text)) := by
  obtain ⟨front, back, split, before, behind, ends⟩ :=
    exists_trimEmptyLines ((lines text).map collapseLine)
  rw [keptLines]
  cases kept : trimEmptyLines ((lines text).map collapseLine) with
  | cons line rest =>
    rw [kept] at split ends
    exact ⟨front, back, by rw [split, List.append_assoc], before,
      .inr (ends (List.cons_ne_nil _ _))⟩
  | nil =>
    rw [kept, List.append_nil] at split
    cases found : (lines text).map collapseLine with
    | nil => exact absurd (List.map_eq_nil_iff.1 found) (lines_ne_nil text)
    | cons line rest =>
      have empty : line = [] := by
        have listed : line ∈ front ++ back := by
          rw [← split, found]
          exact List.mem_cons_self
        exact (List.mem_append.1 listed).elim (before line) (behind line)
      exact ⟨[], rest, by rw [empty]; rfl, by simp, .inl rfl⟩

/-- A line feed behind a text ends its last line. -/
theorem unlines_lines (text : List Char) : unlines (lines text) = text ++ ['\n'] := by
  rw [unlines_eq_joinWith (lines_ne_nil text), joinWith_lines]

theorem unlines_append (front back : List (List Char)) :
    unlines (front ++ back) = unlines front ++ unlines back := List.flatMap_append

theorem revised_unlines (found : List (List Char)) :
    Revised alphabet true (unlines found) (unlines (found.map collapseLine)) := by
  induction found with
  | nil => exact .nil
  | cons line rest ih => exact ((revised_collapseLine line).append (.refl _ _)).append ih

/-- What is collapsed stands in a revision of the text, behind nothing but line feeds. -/
theorem exists_revised_collapseWhitespace (text : List Char) : ∃ front back,
    Revised alphabet true (text ++ ['\n']) (front ++ (collapseWhitespace text ++ back)) ∧
      ∀ c ∈ front, c = '\n' := by
  obtain ⟨front, back, split, empty, -⟩ := exists_keptLines text
  have revised : Revised alphabet true (unlines (lines text)) _ := revised_unlines (lines text)
  rw [split, unlines_append, unlines_append, ← collapseWhitespace_eq, unlines_lines] at revised
  refine ⟨_, _, revised, fun c here => ?_⟩
  obtain ⟨line, listed, inLine⟩ := List.mem_flatMap.1 here
  simpa [empty line listed] using inLine

section Usual

variable (usual : alphabet.IsUsual) {text : List Char}

include usual

theorem isSnapped_collapseWhitespace (snapped : IsSnapped text) :
    IsSnapped (collapseWhitespace text) := by
  obtain ⟨front, back, revised, -⟩ := @exists_revised_collapseWhitespace alphabet text
  have further : IsSnapped (text ++ ['\n']) := by
    refine List.isChain_append.2 ⟨snapped, .singleton _, ?_⟩
    rintro c - _ ⟨⟩ -
    rfl
  exact List.IsChain.infix (revised.isSnapped usual further)
    ⟨front, back, List.append_assoc _ _ _⟩

theorem isCapitalized_collapseWhitespace {place : SentencePlace}
    (capitalized : IsCapitalized alphabet place text) :
    IsCapitalized alphabet place (collapseWhitespace text) := by
  obtain ⟨front, back, revised, lineFeeds⟩ := @exists_revised_collapseWhitespace alphabet text
  have white := isWhitespace_lineFeed usual
  have further : IsCapitalized alphabet place (text ++ ['\n']) := by
    refine isCapitalized_append.2 ⟨capitalized, fun _ letter => ?_, trivial⟩
    rw [isAlphabetic_eq_false_of_isWhitespace usual white] at letter
    cases letter
  have whole := (isCapitalized_append.1 (revised.isCapitalized usual further)).2
  refine (isCapitalized_append.1 whole).1.mono (SentencePlace.le_afterAll fun c here => ?_)
  rw [lineFeeds c here]
  exact ⟨white, rfl⟩

theorem areApart_keptLines (apart : AreApart alphabet (lines text)) :
    AreApart alphabet (keptLines text) := by
  obtain ⟨front, back, split, -⟩ := exists_keptLines text
  have related : List.Forall₂ (Revised alphabet true) (lines text)
      ((lines text).map collapseLine) :=
    List.forall₂_map_right_iff.2 (List.forall₂_same.2 fun line _ => revised_collapseLine line)
  exact List.IsChain.infix (Revised.areApart usual related apart)
    ⟨front, back, by rw [split, List.append_assoc]⟩

end Usual

theorem areTidy_keptLines {text : List Char} (plain : '\r' ∉ text)
    (apart : AreApart alphabet (keptLines text)) : AreTidy (keptLines text) := by
  obtain ⟨front, back, split, -, ends⟩ := exists_keptLines text
  refine ⟨fun line listed => ?_, apart.empty, ends⟩
  have collapsed : line ∈ (lines text).map collapseLine := by
    rw [split]
    exact List.mem_append_right _ (List.mem_append_left _ listed)
  obtain ⟨origin, here, rfl⟩ := List.mem_map.1 collapsed
  refine isTrimmed_collapseLine fun c inLine => ?_
  obtain ⟨member, other⟩ := mem_of_mem_lines here inLine
  exact ⟨fun same => plain (same ▸ member), other⟩

/-- Tidy lines stay as they are, and empty lines behind them go. -/
theorem collapseWhitespace_of_areTidy {text : List Char} {found back : List (List Char)}
    (tidy : AreTidy found) (split : lines text = found ++ back)
    (empty : ∀ line ∈ back, line = []) : collapseWhitespace text = unlines found := by
  have same : (lines text).map collapseLine = found ++ back := by
    rw [split]
    refine (List.map_congr_left fun line listed => ?_).trans (List.map_id _)
    rcases List.mem_append.1 listed with here | behind
    · exact collapseLine_of_isTrimmed (tidy.trimmed line here)
    · rw [empty line behind]
      rfl
  rw [collapseWhitespace_eq, keptLines, same]
  rcases tidy.ends with rfl | ends
  · have none : trimEmptyLines ([[]] ++ back) = [] := by
      have dropped : ([[]] ++ back : List (List Char)).dropWhile (·.isEmpty) = [] := by
        simpa [List.dropWhile_eq_nil_iff] using empty
      rw [trimEmptyLines, dropped]
      rfl
    rw [none]
  · rw [trimEmptyLines_append ends empty]
    obtain ⟨⟨line, here, -⟩, -⟩ := ends
    cases found with
    | nil => cases here
    | cons first rest => rfl

end Whole

end Cleanup

end BranchText
