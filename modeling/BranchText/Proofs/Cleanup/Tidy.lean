import BranchText.Proofs.Cleanup.Articles
import BranchText.Proofs.Cleanup.Sentences
import BranchText.Proofs.Cleanup.Spaces

/-!
# Tidied texts

What tidying makes of a text is clean: each pass that is on leaves its shape behind, and no later
pass spoils it (`isClean_tidy`). A clean text stays as it is (`tidy_of_isClean`), so tidying a text
twice is tidying it once. The first pass may take the last line feed of a clean text away, if a
blank line stands before it, and the pass for spaces puts it back.
-/

namespace BranchText

namespace Cleanup

variable {alphabet : Alphabet} {text other : List Char}

/-- All line breaks of the text are line feeds, and its blank lines are apart. -/
structure HasLines (alphabet : Alphabet) (text : List Char) : Prop where
  plain : '\r' ∉ text
  apart : AreApart alphabet (lines text)

theorem hasLines_normalizeLineBreaks (text : List Char) :
    HasLines alphabet (normalizeLineBreaks alphabet text) := by
  constructor
  · intro here
    rcases mem_joinWith here with contradiction | ⟨line, listed, inLine⟩
    · cases contradiction
    · exact not_mem_unifyLineBreaks text
        (mem_of_mem_lines (squeezeBlankLines_subset _ _ listed) inLine).1
  · rw [lines_normalizeLineBreaks]
    exact (areApart_squeezeBlankLines false _).1

theorem Revised.hasLines (usual : alphabet.IsUsual) {spacing : Bool}
    (revised : Revised alphabet spacing text other) (has : HasLines alphabet text) :
    HasLines alphabet other := by
  refine ⟨fun here => ?_, areApart usual (revised.lines usual) has.apart⟩
  rcases revised.mem_cases here with listed | ⟨-, blank⟩ | visible
  · exact has.plain listed
  · cases blank
  · rw [isWhitespace_carriageReturn usual] at visible
    cases visible

/-- The text consists of tidy lines whose blank ones are apart, each with a line feed behind it. -/
def HasTidyLines (alphabet : Alphabet) (text : List Char) : Prop :=
  ∃ found, AreTidy found ∧ AreApart alphabet found ∧ text = unlines found

theorem hasTidyLines_collapseWhitespace (usual : alphabet.IsUsual) (has : HasLines alphabet text) :
    HasTidyLines alphabet (collapseWhitespace text) := by
  have apart := areApart_keptLines usual has.apart
  exact ⟨keptLines text, areTidy_keptLines has.plain apart, apart, collapseWhitespace_eq text⟩

section Tidy

variable {found : List (List Char)}

theorem AreTidy.ne_nil (tidy : AreTidy found) : found ≠ [] := by
  rintro rfl
  rcases tidy.ends with contradiction | ⟨⟨line, first, -⟩, -⟩
  · cases contradiction
  · cases first

theorem AreTidy.lines_joinWith (tidy : AreTidy found) : lines (joinWith '\n' found) = found :=
  Cleanup.lines_joinWith tidy.ne_nil fun line listed inside =>
    ((tidy.trimmed line listed).plain _ inside).2.2 rfl

theorem AreTidy.lines_unlines (tidy : AreTidy found) : lines (unlines found) = found ++ [[]] := by
  rw [unlines_eq_joinWith tidy.ne_nil, lines_append_lineFeed, tidy.lines_joinWith]

theorem AreTidy.not_mem_unlines (tidy : AreTidy found) : '\r' ∉ unlines found := by
  intro here
  obtain ⟨line, listed, inLine⟩ := List.mem_flatMap.1 here
  rcases List.mem_append.1 inLine with inside | last
  · exact ((tidy.trimmed line listed).plain _ inside).2.1 rfl
  · simp at last

/-- The first pass leaves tidy lines alone, but it may take the last line feed. -/
theorem normalizeLineBreaks_unlines (tidy : AreTidy found) (apart : AreApart alphabet found) :
    ∃ back, lines (normalizeLineBreaks alphabet (unlines found)) = found ++ back ∧
      (∀ line ∈ back, line = []) ∧
        normalizeLineBreaks alphabet (unlines found) <+: unlines found := by
  rw [normalizeLineBreaks, unifyLineBreaks_of_not_mem tidy.not_mem_unlines, tidy.lines_unlines]
  have visible : false = true →
      ∀ line ∈ found.head?, line.all alphabet.isWhitespace = false := nofun
  rcases squeezeBlankLines_append_empty apart tidy.ne_nil visible with same | same
  · rw [same, joinWith_append_empty _ tidy.ne_nil, ← unlines_eq_joinWith tidy.ne_nil]
    exact ⟨[[]], tidy.lines_unlines, by simp, List.prefix_rfl⟩
  · rw [same, unlines_eq_joinWith tidy.ne_nil]
    exact ⟨[], by rw [tidy.lines_joinWith, List.append_nil], by simp, List.prefix_append _ _⟩

theorem exists_head_of_forall₂ {R : List Char → List Char → Prop} {revised : List (List Char)}
    (related : List.Forall₂ R found revised)
    (keeps : ∀ line other, R line other → other = [] → line = [])
    (start : ∃ line, found.head? = some line ∧ line ≠ []) :
    ∃ line, revised.head? = some line ∧ line ≠ [] := by
  obtain ⟨line, here, visible⟩ := start
  cases related with
  | nil => cases here
  | cons first _ =>
    cases here
    exact ⟨_, rfl, mt (keeps _ _ first) visible⟩

/-- Words may be changed in tidy lines. -/
theorem Revised.areTidy {revised : List (List Char)} (usual : alphabet.IsUsual)
    (related : List.Forall₂ (Revised alphabet false) found revised) (tidy : AreTidy found)
    (apart : AreApart alphabet revised) : AreTidy revised := by
  refine ⟨?_, apart.empty, ?_⟩
  · have trimmed := tidy.trimmed
    clear tidy apart
    induction related with
    | nil => exact fun _ listed => absurd listed List.not_mem_nil
    | cons first _ ih =>
      obtain ⟨here, later⟩ := List.forall_mem_cons.1 trimmed
      exact List.forall_mem_cons.2 ⟨first.isTrimmed usual here, ih later⟩
  · rcases tidy.ends with rfl | ⟨first, last⟩
    · obtain - | ⟨only, none⟩ := related
      cases none
      exact .inl (by rw [only.eq_nil_iff.1 rfl])
    · have keeps := fun line other (revised : Revised alphabet false line other) =>
        revised.eq_nil_iff.2
      refine .inr ⟨exists_head_of_forall₂ related keeps first, ?_⟩
      rw [List.getLast?_eq_head?_reverse] at last ⊢
      exact exists_head_of_forall₂ (List.forall₂_reverse_iff.2 related) keeps last

/-- Lines with an empty one behind them are related to lines with an empty one behind them, if the
relation leaves empty lines empty. -/
theorem exists_of_forall₂_append {R : List Char → List Char → Prop} {all : List (List Char)}
    (related : List.Forall₂ R (found ++ [[]]) all) (keeps : ∀ line, R [] line → line = []) :
    ∃ revised, all = revised ++ [[]] ∧ List.Forall₂ R found revised := by
  induction found generalizing all with
  | nil =>
    obtain - | ⟨only, none⟩ := related
    cases none
    exact ⟨[], by rw [keeps _ only]; rfl, .nil⟩
  | cons line rest ih =>
    obtain - | ⟨first, others⟩ := related
    obtain ⟨revised, rfl, later⟩ := ih others
    exact ⟨_, rfl, .cons first later⟩

theorem Revised.hasTidyLines (usual : alphabet.IsUsual)
    (revised : Revised alphabet false text other) (has : HasTidyLines alphabet text) :
    HasTidyLines alphabet other := by
  obtain ⟨found, tidy, apart, rfl⟩ := has
  have related := revised.lines usual
  rw [tidy.lines_unlines] at related
  obtain ⟨found', split, related⟩ := exists_of_forall₂_append related fun _ changed =>
    changed.eq_nil_iff.1 rfl
  have apart := areApart usual related apart
  have tidy := areTidy usual related tidy apart
  refine ⟨found', tidy, apart, ?_⟩
  rw [← joinWith_lines other, split, joinWith_append_empty _ tidy.ne_nil,
    unlines_eq_joinWith tidy.ne_nil]

end Tidy

end Cleanup

namespace CleanupSettings

open Cleanup

variable {alphabet : Alphabet} {settings : CleanupSettings} {text : List Char}

/-- The text has the shape that each pass which is on leaves behind. -/
structure IsClean (settings : CleanupSettings) (alphabet : Alphabet) (text : List Char) : Prop where
  lines : settings.whitespace = true → HasTidyLines alphabet text
  snapped : settings.punctuation = true → IsSnapped text
  capitalized : settings.capitalization = true → IsCapitalized alphabet ⟨true, false⟩ text
  agreed : settings.articles = true → correctArticles alphabet text = text

section RunIf

variable {on : Bool} {pass : List Char → List Char}

/-- What a pass keeps is kept whether it runs or not. -/
theorem runIf_keeps {P : List Char → Prop} (keeps : P text → P (pass text)) (holds : P text) :
    P (runIf on pass text) := by
  cases on with
  | false => exact holds
  | true => exact keeps holds

theorem runIf_revised {spacing : Bool} (revised : Revised alphabet spacing text (pass text)) :
    Revised alphabet spacing text (runIf on pass text) := by
  cases on with
  | false => exact .refl spacing text
  | true => exact revised

theorem runIf_of_imp (same : on = true → pass text = text) : runIf on pass text = text := by
  cases on with
  | false => rfl
  | true => exact same rfl

end RunIf

section Usual

variable (usual : alphabet.IsUsual)

include usual

theorem isClean_tidy (settings : CleanupSettings) (text : List Char) :
    settings.IsClean alphabet (settings.tidy alphabet text) := by
  rw [tidy]
  generalize first : runIf settings.whitespace (normalizeLineBreaks alphabet) text = broken
  generalize second : runIf settings.punctuation snapPunctuation broken = snapped
  generalize third : runIf settings.capitalization (correctCapitals alphabet) snapped = capitalized
  generalize fourth : runIf settings.whitespace collapseWhitespace capitalized = collapsed
  generalize fifth : runIf settings.articles (correctArticles alphabet) collapsed = agreed
  have bySecond : Revised alphabet true broken snapped :=
    second ▸ runIf_revised (revised_snapPunctuation broken)
  have byThird : Revised alphabet true snapped capitalized :=
    third ▸ runIf_revised (revised_capitalizeFrom usual _ snapped)
  have byFifth : Revised alphabet false collapsed agreed :=
    fifth ▸ runIf_revised (revised_correctArticles usual collapsed)
  refine ⟨fun on => ?_, fun on => ?_, fun on => ?_, fun on => ?_⟩
  · rw [on] at first fourth
    have has : HasLines alphabet broken := first ▸ hasLines_normalizeLineBreaks text
    have has := byThird.hasLines usual (bySecond.hasLines usual has)
    exact byFifth.hasTidyLines usual (fourth ▸ hasTidyLines_collapseWhitespace usual has)
  · rw [on] at second
    have is : IsSnapped capitalized :=
      byThird.isSnapped usual (second ▸ isSnapped_snapPunctuation broken)
    exact byFifth.isSnapped usual (fourth ▸ runIf_keeps (isSnapped_collapseWhitespace usual) is)
  · rw [on] at third
    have is : IsCapitalized alphabet ⟨true, false⟩ capitalized :=
      third ▸ isCapitalized_capitalizeFrom usual _ snapped
    exact byFifth.isCapitalized usual
      (fourth ▸ runIf_keeps (isCapitalized_collapseWhitespace usual) is)
  · rw [on] at fifth
    rw [← fifth]
    exact correctArticles_correctArticles usual collapsed

theorem tidy_of_isClean (clean : settings.IsClean alphabet text) :
    settings.tidy alphabet text = text := by
  obtain ⟨broken, start, first, fourth⟩ : ∃ broken, broken <+: text ∧
      runIf settings.whitespace (normalizeLineBreaks alphabet) text = broken ∧
      runIf settings.whitespace collapseWhitespace broken = text := by
    cases on : settings.whitespace with
    | false => exact ⟨text, List.prefix_rfl, rfl, rfl⟩
    | true =>
      obtain ⟨found, tidy, apart, rfl⟩ := clean.lines on
      obtain ⟨back, split, empty, start⟩ := normalizeLineBreaks_unlines tidy apart
      exact ⟨_, start, rfl, collapseWhitespace_of_areTidy tidy split empty⟩
  have second : runIf settings.punctuation snapPunctuation broken = broken :=
    runIf_of_imp fun on =>
      snapPunctuation_of_isSnapped <| List.IsChain.prefix (clean.snapped on) start
  have third : runIf settings.capitalization (correctCapitals alphabet) broken = broken := by
    obtain ⟨back, rfl⟩ := start
    exact runIf_of_imp fun on =>
      capitalizeFrom_of_isCapitalized usual (isCapitalized_append.1 (clean.capitalized on)).1
  have fifth : runIf settings.articles (correctArticles alphabet) text = text :=
    runIf_of_imp clean.agreed
  rw [tidy, first, second, third, fourth, fifth]

/-- Tidying a tidied text changes nothing. -/
theorem tidy_tidy (settings : CleanupSettings) (text : List Char) :
    settings.tidy alphabet (settings.tidy alphabet text) = settings.tidy alphabet text :=
  tidy_of_isClean usual (isClean_tidy usual settings text)

end Usual

/-- A letter becomes two, an article changes, and blank lines shrink to one. -/
theorem tidy_tidy_unicode : Alphabet.unicode.IsUsual ∧
    let settings : CleanupSettings := ⟨true, true, true, true⟩
    let text := "a apple  .\r\n\r\n\t\nßo".toList
    settings.tidy .unicode text = "An apple.\n\nSSo\n".toList ∧
      settings.tidy .unicode (settings.tidy .unicode text) = settings.tidy .unicode text :=
  ⟨Alphabet.isUsual_unicode, by decide +kernel, tidy_tidy Alphabet.isUsual_unicode _ _⟩

/-- The result of the passes for white space, with whichever others, consists of tidy lines, each
with a line feed behind it. -/
theorem apply_eq_unlines {settings : CleanupSettings} (on : settings.whitespace = true)
    (text : String) : '\r' ∉ (settings.apply text).toList ∧
      ∃ lines, AreTidy lines ∧ (settings.apply text).toList = unlines lines := by
  obtain ⟨found, tidy, -, same⟩ :=
    (isClean_tidy Alphabet.isUsual_unicode settings text.toList).lines on
  rw [apply, String.toList_ofList, same]
  exact ⟨tidy.not_mem_unlines, found, tidy, rfl⟩

theorem apply_eq_unlines_spaces :
    let settings : CleanupSettings := ⟨true, false, false, false⟩
    settings.whitespace = true ∧
      (settings.apply " \ta \r\r\n\r b\tc " = "a\n\nb c\n" ∧
        '\r' ∉ (settings.apply " \ta \r\r\n\r b\tc ").toList ∧
        ∃ lines, AreTidy lines ∧
          (settings.apply " \ta \r\r\n\r b\tc ").toList = unlines lines) :=
  ⟨rfl, by decide +kernel, apply_eq_unlines rfl _⟩

/-- Cleaning a cleaned text changes nothing. -/
theorem apply_apply (settings : CleanupSettings) (text : String) :
    settings.apply (settings.apply text) = settings.apply text := by
  have clean := isClean_tidy Alphabet.isUsual_unicode settings text.toList
  rw [apply, apply, String.toList_ofList, tidy_of_isClean Alphabet.isUsual_unicode clean]

end CleanupSettings

end BranchText
