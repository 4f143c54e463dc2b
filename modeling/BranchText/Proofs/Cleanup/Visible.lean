import BranchText.Proofs.Cleanup.Sentences
import BranchText.Proofs.Cleanup.Spaces
import Mathlib.Data.List.Infix

/-!
# Visible text

The passes for white space and punctuation only move white space: the visible characters of a text
stay, in their order (`visible_tidy`). The pass for punctuation takes out the spaces and tabs of the
runs that stand directly in front of a mark, and leaves all else (`snapPunctuation_eq`).
-/

namespace BranchText

namespace Cleanup

variable {alphabet : Alphabet}

/-! ## What can be seen of a text -/

/-- The characters of a text that are no white space. -/
def visible (alphabet : Alphabet) (text : List Char) : List Char :=
  text.filter (!alphabet.isWhitespace ·)

@[simp]
theorem visible_nil : visible alphabet [] = [] := rfl

theorem visible_append (front back : List Char) :
    visible alphabet (front ++ back) = visible alphabet front ++ visible alphabet back :=
  List.filter_append ..

theorem visible_cons (c : Char) (text : List Char) :
    visible alphabet (c :: text) = visible alphabet [c] ++ visible alphabet text :=
  visible_append [c] text

/-- White space in front of a text is not seen. -/
theorem visible_cons_of_white {c : Char} (white : alphabet.isWhitespace c = true)
    (text : List Char) : visible alphabet (c :: text) = visible alphabet text :=
  List.filter_cons_of_neg (by simp [white])

theorem visible_of_all {text : List Char} (white : text.all alphabet.isWhitespace = true) :
    visible alphabet text = [] := by
  simpa [visible, List.filter_eq_nil_iff] using white

/-! ## Parts of a text -/

section Parts

variable {isSeparator : Char → Bool}

/-- White space between parts is not seen. -/
theorem visible_joinWith {separator : Char} (white : alphabet.isWhitespace separator = true)
    (parts : List (List Char)) :
    visible alphabet (joinWith separator parts) = parts.flatMap (visible alphabet) := by
  induction parts with
  | nil => rfl
  | cons part rest ih =>
    cases rest with
    | nil => simp [joinWith]
    | cons second later =>
      rw [joinWith_cons _ _ (List.cons_ne_nil _ _), visible_append, visible_cons_of_white white,
        ih, List.flatMap_cons]
      rfl

theorem flatMap_visible_modifyHead (c : Char) {parts : List (List Char)} (filled : parts ≠ []) :
    (parts.modifyHead (c :: ·)).flatMap (visible alphabet) =
      visible alphabet [c] ++ parts.flatMap (visible alphabet) := by
  cases parts with
  | nil => exact absurd rfl filled
  | cons part rest =>
    rw [List.modifyHead_cons, List.flatMap_cons, List.flatMap_cons, visible_cons,
      List.append_assoc]

/-- A text that is split at white space keeps all that is seen of it. -/
theorem flatMap_visible_splitAtEvery
    (white : ∀ c, isSeparator c = true → alphabet.isWhitespace c = true) (text : List Char) :
    (splitAtEvery isSeparator text).flatMap (visible alphabet) = visible alphabet text := by
  induction text with
  | nil => rfl
  | cons c rest ih =>
    by_cases separator : isSeparator c = true
    · rw [splitAtEvery_cons_of_pos separator, List.flatMap_cons, visible_nil, List.nil_append, ih,
        visible_cons_of_white (white c separator)]
    · rw [splitAtEvery_cons_of_neg separator,
        flatMap_visible_modifyHead c (splitAtEvery_ne_nil _ _), ih, ← visible_cons]

/-- Parts with nothing in them are not seen. -/
theorem flatMap_visible_filter (parts : List (List Char)) :
    (parts.filter (!·.isEmpty)).flatMap (visible alphabet) =
      parts.flatMap (visible alphabet) := by
  induction parts with
  | nil => rfl
  | cons part rest ih => cases part <;> simp [ih]

/-- Blank lines that are taken out are not seen. -/
theorem flatMap_visible_squeezeBlankLines (afterBlank : Bool) (found : List (List Char)) :
    (squeezeBlankLines alphabet afterBlank found).flatMap (visible alphabet) =
      found.flatMap (visible alphabet) := by
  fun_induction squeezeBlankLines alphabet afterBlank found with
  | case1 => rfl
  | case2 line rest blank ih => rw [ih, List.flatMap_cons, visible_of_all blank, List.nil_append]
  | case3 afterBlank line rest blank first ih => rw [List.flatMap_cons, List.flatMap_cons, ih]
  | case4 afterBlank line rest filled ih => rw [List.flatMap_cons, List.flatMap_cons, ih]

theorem flatMap_visible_trimEmptyLines (found : List (List Char)) :
    (trimEmptyLines found).flatMap (visible alphabet) = found.flatMap (visible alphabet) := by
  obtain ⟨front, back, split, before, behind, -⟩ := exists_trimEmptyLines found
  have unseen {part : List (List Char)} (empty : ∀ line ∈ part, line = []) :
      part.flatMap (visible alphabet) = [] :=
    List.flatMap_eq_nil_iff.2 fun line listed => by rw [empty line listed, visible_nil]
  conv_rhs => rw [split]
  rw [List.flatMap_append, List.flatMap_append, unseen before, unseen behind, List.nil_append,
    List.append_nil]

end Parts

/-! ## The passes -/

section Passes

/-- A pass that keeps what is seen may also be off. -/
theorem visible_runIf {pass : List Char → List Char}
    (kept : ∀ text, visible alphabet (pass text) = visible alphabet text) (on : Bool)
    (text : List Char) :
    visible alphabet (CleanupSettings.runIf on pass text) = visible alphabet text := by
  cases on with
  | false => rfl
  | true => exact kept text

variable (usual : alphabet.IsUsual)

include usual

theorem visible_unifyLineBreaks (text : List Char) :
    visible alphabet (unifyLineBreaks text) = visible alphabet text := by
  have lineFeed := isWhitespace_lineFeed usual
  have carriageReturn := isWhitespace_carriageReturn usual
  fun_induction unifyLineBreaks text with
  | case1 => rfl
  | case2 rest ih =>
    rw [visible_cons_of_white lineFeed, visible_cons_of_white carriageReturn,
      visible_cons_of_white lineFeed, ih]
  | case3 rest _ ih =>
    rw [visible_cons_of_white lineFeed, visible_cons_of_white carriageReturn, ih]
  | case4 c rest _ _ ih => rw [visible_cons, ih, ← visible_cons]

theorem flatMap_visible_lines (text : List Char) :
    (lines text).flatMap (visible alphabet) = visible alphabet text := by
  refine flatMap_visible_splitAtEvery (fun c separator => ?_) text
  rw [of_decide_eq_true separator]
  exact isWhitespace_lineFeed usual

theorem visible_normalizeLineBreaks (text : List Char) :
    visible alphabet (normalizeLineBreaks alphabet text) = visible alphabet text := by
  rw [normalizeLineBreaks, visible_joinWith (isWhitespace_lineFeed usual),
    flatMap_visible_squeezeBlankLines, flatMap_visible_lines usual, visible_unifyLineBreaks usual]

theorem visible_collapseLine (line : List Char) :
    visible alphabet (collapseLine line) = visible alphabet line := by
  rw [collapseLine, visible_joinWith (isWhitespace_of_isBlank usual rfl), flatMap_visible_filter,
    flatMap_visible_splitAtEvery fun c => isWhitespace_of_isBlank usual]

theorem visible_collapseWhitespace (text : List Char) :
    visible alphabet (collapseWhitespace text) = visible alphabet text := by
  have each : (fun line => visible alphabet (collapseLine line)) = visible alphabet :=
    funext (visible_collapseLine usual)
  rw [collapseWhitespace, visible_append, visible_joinWith (isWhitespace_lineFeed usual),
    flatMap_visible_trimEmptyLines, List.flatMap_map, each, flatMap_visible_lines usual,
    visible_cons_of_white (isWhitespace_lineFeed usual), visible_nil, List.append_nil]

theorem visible_snapPunctuation (text : List Char) :
    visible alphabet (snapPunctuation text) = visible alphabet text := by
  induction text with
  | nil => rfl
  | cons c rest ih =>
    rw [snapPunctuation_cons]
    split
    · rename_i dropped
      have blank := (Bool.and_eq_true_iff.1 dropped).1
      rw [ih, visible_cons_of_white (isWhitespace_of_isBlank usual blank)]
    · rw [visible_cons, ih, ← visible_cons]

/-- Without capitals and articles, tidying keeps all that is seen of a text. -/
theorem visible_tidy {settings : CleanupSettings} (capitals : settings.capitalization = false)
    (articles : settings.articles = false) (text : List Char) :
    visible alphabet (settings.tidy alphabet text) = visible alphabet text := by
  rw [CleanupSettings.tidy, capitals, articles]
  change visible alphabet (CleanupSettings.runIf _ collapseWhitespace _) = _
  rw [visible_runIf (visible_collapseWhitespace usual)]
  change visible alphabet (CleanupSettings.runIf _ snapPunctuation _) = _
  rw [visible_runIf (visible_snapPunctuation usual),
    visible_runIf (visible_normalizeLineBreaks usual)]

end Passes

/-! ## Gaps before punctuation -/

/-- The text starts with a space or tab, and behind it, with or without more of them in between,
stands a mark. -/
def StartsGap (text : List Char) : Prop :=
  ∃ blanks mark rest, text = blanks ++ mark :: rest ∧ blanks ≠ [] ∧
    (∀ c ∈ blanks, isBlank c = true) ∧ isPunctuation mark = true

/-- The first mark stands behind nothing but spaces and tabs. -/
theorem opensMark_iff {text : List Char} : opensMark text = true ↔
    ∃ blanks mark rest, text = blanks ++ mark :: rest ∧ (∀ c ∈ blanks, isBlank c = true) ∧
      isPunctuation mark = true := by
  constructor
  · intro opens
    obtain ⟨mark, first, isMark⟩ := (Option.any_eq_true ..).1 opens
    obtain ⟨rest, behind⟩ := List.head?_eq_some_iff.1 first
    refine ⟨text.takeWhile isBlank, mark, rest, ?_, fun c => List.mem_takeWhile_imp, isMark⟩
    rw [← behind, List.takeWhile_append_dropWhile]
  · rintro ⟨blanks, mark, rest, rfl, blank, isMark⟩
    have visible : isBlank mark ≠ true := by
      intro contradiction
      rw [isPunctuation_of_isBlank contradiction] at isMark
      cases isMark
    rw [opensMark, List.dropWhile_append_of_pos blank, List.dropWhile_cons_of_neg visible]
    exact isMark

theorem startsGap_cons_iff {c : Char} {rest : List Char} :
    StartsGap (c :: rest) ↔ (isBlank c && opensMark rest) = true := by
  rw [Bool.and_eq_true, opensMark_iff]
  constructor
  · rintro ⟨_ | ⟨d, blanks⟩, mark, back, split, filled, blank, isMark⟩
    · exact absurd rfl filled
    · obtain ⟨rfl, rfl⟩ := List.cons.inj split
      obtain ⟨here, later⟩ := List.forall_mem_cons.1 blank
      exact ⟨here, blanks, mark, back, rfl, later, isMark⟩
  · rintro ⟨here, blanks, mark, back, rfl, later, isMark⟩
    exact ⟨c :: blanks, mark, back, rfl, List.cons_ne_nil _ _,
      List.forall_mem_cons.2 ⟨here, later⟩, isMark⟩

instance : DecidablePred StartsGap
  | [] => .isFalse fun ⟨_, _, _, split, _⟩ => List.append_ne_nil_of_right_ne_nil _
      (List.cons_ne_nil _ _) split.symm
  | _ :: _ => decidable_of_iff _ startsGap_cons_iff.symm

/-- The characters of a text but for the spaces and tabs that stand in a run in front of a mark:
each end of the text that starts no such run gives its first character. -/
def withoutGaps (text : List Char) : List Char :=
  (text.tails.filter (¬ StartsGap ·)).filterMap List.head?

theorem withoutGaps_cons (c : Char) (rest : List Char) : withoutGaps (c :: rest) =
    if StartsGap (c :: rest) then withoutGaps rest else c :: withoutGaps rest := by
  rw [withoutGaps, List.tails_cons, List.filter_cons]
  by_cases gap : StartsGap (c :: rest) <;> simp [gap, withoutGaps]

theorem snapPunctuation_eq (text : List Char) : snapPunctuation text = withoutGaps text := by
  induction text with
  | nil => rfl
  | cons c rest ih => simp only [snapPunctuation_cons, withoutGaps_cons, startsGap_cons_iff, ih]

end Cleanup

namespace CleanupSettings

/-- With the passes for white space and punctuation alone, tidying keeps the visible characters of a
text in their order. Without the passes for lines, it takes out the spaces and tabs in front of
punctuation and nothing else. -/
theorem visible_apply (settings : CleanupSettings) (text : String)
    (capitals : settings.capitalization = false) (articles : settings.articles = false) :
    Cleanup.visible .unicode (settings.apply text).toList =
        Cleanup.visible .unicode text.toList ∧
      (settings.punctuation = true → settings.whitespace = false →
        (settings.apply text).toList = Cleanup.withoutGaps text.toList) := by
  rw [apply, String.toList_ofList]
  refine ⟨Cleanup.visible_tidy Alphabet.isUsual_unicode capitals articles _, fun on off => ?_⟩
  rw [tidy, capitals, articles, on, off]
  exact Cleanup.snapPunctuation_eq _

/-- Spaces and tabs go in front of a mark, also in front of one at the end, and a no-break space and
the spaces before it stay. -/
theorem visible_apply_marks :
    let settings : CleanupSettings := ⟨false, true, false, false⟩
    settings.capitalization = false ∧ settings.articles = false ∧
      settings.punctuation = true ∧ settings.whitespace = false ∧
      Cleanup.visible .unicode (settings.apply "so \t ,\n no \u00A0; x  !").toList =
        "so,no;x!".toList ∧
      (settings.apply "so \t ,\n no \u00A0; x  !").toList = "so,\n no \u00A0; x!".toList := by
  intro settings
  obtain ⟨seen, taken⟩ := visible_apply settings "so \t ,\n no \u00A0; x  !" rfl rfl
  refine ⟨rfl, rfl, rfl, rfl, seen.trans (by decide +kernel), ?_⟩
  exact (taken rfl rfl).trans (by decide +kernel)

end CleanupSettings

end BranchText
