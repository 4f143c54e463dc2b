import BranchText.Proofs.Cleanup.Revisions

/-!
# Punctuation and capitals

The passes for punctuation and capitals revise a text, give it the shape that they are for, and
leave a text of that shape alone.
-/

namespace BranchText

namespace Cleanup

variable {alphabet : Alphabet}

/-! ## Punctuation -/

section Punctuation

variable {text written : List Char}

theorem attach_cons (written : List Char) (c : Char) : attach written c =
    c :: if isPunctuation c then written.dropWhile isBlank else written := rfl

/-- Only spaces and tabs stand in front of the first mark. -/
def opensMark (text : List Char) : Bool := (text.dropWhile isBlank).head?.any isPunctuation

theorem opensMark_cons_of_blank {c : Char} (blank : isBlank c = true) (rest : List Char) :
    opensMark (c :: rest) = opensMark rest := by
  rw [opensMark, opensMark, List.dropWhile_cons_of_pos blank]

theorem opensMark_cons_of_other {c : Char} (other : isBlank c ≠ true) (rest : List Char) :
    opensMark (c :: rest) = isPunctuation c := by
  rw [opensMark, List.dropWhile_cons_of_neg other]
  rfl

/-- What is written first stays behind what is written later. Spaces and tabs at its end go if what
comes later starts with a mark, with or without more of them in front. -/
theorem foldl_attach (written text : List Char) : text.foldl attach written =
    text.foldl attach [] ++ if opensMark text then written.dropWhile isBlank else written := by
  induction text generalizing written with
  | nil => rfl
  | cons c rest ih =>
    rw [List.foldl_cons, List.foldl_cons, ih, ih (attach [] c), attach_cons, attach_cons,
      List.dropWhile_nil, ite_self, List.append_assoc]
    by_cases blank : isBlank c = true
    · rw [opensMark_cons_of_blank blank, isPunctuation_of_isBlank blank,
        List.dropWhile_cons_of_pos blank, List.dropWhile_cons_of_pos blank]
      split <;> simp
    · rw [opensMark_cons_of_other blank, List.dropWhile_cons_of_neg blank,
        List.dropWhile_cons_of_neg blank, ite_self, ite_self]
      rfl

/-- A character goes if it is a space or tab and a mark comes next, with or without more of them in
between. -/
theorem snapPunctuation_cons (c : Char) (rest : List Char) : snapPunctuation (c :: rest) =
    if isBlank c && opensMark rest then snapPunctuation rest else c :: snapPunctuation rest := by
  have first : attach [] c = [c] := by
    rw [attach_cons]
    split <;> rfl
  rw [snapPunctuation, snapPunctuation, List.foldl_cons, first, foldl_attach]
  by_cases blank : isBlank c = true
  · rw [List.dropWhile_cons_of_pos blank, blank, Bool.true_and]
    split <;> simp
  · rw [List.dropWhile_cons_of_neg blank, ite_self, if_neg (by simp [blank])]
    simp

theorem revised_snapPunctuation (text : List Char) :
    Revised alphabet true text (snapPunctuation text) := by
  induction text with
  | nil => exact .nil
  | cons c rest ih =>
    rw [snapPunctuation_cons]
    split
    · rename_i dropped
      exact .drop (Bool.and_eq_true_iff.1 dropped).1 ih
    · exact .keep c ih

theorem isSnapped_attach (snapped : IsSnapped written.reverse) (c : Char) :
    IsSnapped (attach written c).reverse := by
  rw [attach_cons, List.reverse_cons]
  refine List.isChain_append.2 ⟨?_, .singleton c, ?_⟩
  · split
    · exact snapped.prefix (List.reverse_prefix.2 (List.dropWhile_suffix _))
    · exact snapped
  · rintro d last e ⟨⟩ blank
    rw [List.getLast?_reverse] at last
    split at last
    · have visible := List.head?_dropWhile_not isBlank written
      rw [last] at visible
      exact absurd blank (by simpa using visible)
    · rename_i other
      exact Bool.eq_false_iff.2 other

theorem isSnapped_snapPunctuation (text : List Char) : IsSnapped (snapPunctuation text) := by
  suffices ∀ written : List Char, IsSnapped written.reverse →
      IsSnapped (text.foldl attach written).reverse from this [] .nil
  induction text with
  | nil => exact fun _ snapped => snapped
  | cons c rest ih => exact fun _ snapped => ih _ (isSnapped_attach snapped c)

theorem attach_of_isSnapped {c : Char} {rest : List Char}
    (snapped : IsSnapped (written.reverse ++ c :: rest)) : attach written c = c :: written := by
  rw [attach_cons]
  split
  · rename_i mark
    cases written with
    | nil => rfl
    | cons d before =>
      have next := (List.isChain_append.1 snapped).2.2 d (by simp) c rfl
      rw [List.dropWhile_cons_of_neg]
      intro blank
      rw [next blank] at mark
      cases mark
  · rfl

theorem snapPunctuation_of_isSnapped (snapped : IsSnapped text) : snapPunctuation text = text := by
  suffices ∀ written : List Char, IsSnapped (written.reverse ++ text) →
      (text.foldl attach written).reverse = written.reverse ++ text from this [] snapped
  clear snapped
  induction text with
  | nil => exact fun written _ => (List.append_nil _).symm
  | cons c rest ih =>
    intro written snapped
    have shifted : written.reverse ++ c :: rest = (c :: written).reverse ++ rest := by simp
    rw [List.foldl_cons, attach_of_isSnapped snapped, shifted]
    exact ih (c :: written) (shifted ▸ snapped)

end Punctuation

/-! ## Capitals -/

section Capitals

variable {text : List Char} {place : SentencePlace} {c : Char}

theorem isCapitalized_upper (usual : alphabet.IsUsual) (letter : alphabet.isAlphabetic c = true) :
    IsCapitalized alphabet place (alphabet.upper c) := by
  obtain ⟨first, rest, made, capital, same⟩ := usual.capital letter
  have plain : ∀ d ∈ alphabet.upper c, IsPlain alphabet d := fun d => usual.plain letter
  rw [made] at plain ⊢
  obtain ⟨here, later⟩ := List.forall_mem_cons.1 plain
  refine ⟨fun _ _ => same, ?_⟩
  rw [SentencePlace.after_letter capital here]
  exact isCapitalized_of_plain later

theorem rewords_upper (usual : alphabet.IsUsual) (letter : alphabet.isAlphabetic c = true) :
    Rewords alphabet [c] (alphabet.upper c) := by
  obtain ⟨first, rest, made, capital, same⟩ := usual.capital letter
  have plain : ∀ d ∈ alphabet.upper c, IsPlain alphabet d := fun d => usual.plain letter
  refine ⟨List.cons_ne_nil _ _, ?_, ⟨first, rest, made, capital⟩, plain,
    fun _ => isCapitalized_upper usual letter⟩
  rw [List.mem_singleton]
  rintro rfl
  rw [isAlphabetic_eq_false_of_isWhitespace usual (isWhitespace_lineFeed usual)] at letter
  cases letter

theorem revised_capitalizeFrom (usual : alphabet.IsUsual) {spacing : Bool} (place : SentencePlace)
    (text : List Char) : Revised alphabet spacing text (capitalizeFrom alphabet place text) := by
  fun_induction capitalizeFrom alphabet place text with
  | case1 => exact .nil
  | case2 place c rest first ih =>
    exact .reword (rewords_upper usual (Bool.and_eq_true_iff.1 first).2) ih
  | case3 place c rest later ih => exact .keep c ih

theorem isCapitalized_capitalizeFrom (usual : alphabet.IsUsual) (place : SentencePlace)
    (text : List Char) : IsCapitalized alphabet place (capitalizeFrom alphabet place text) := by
  fun_induction capitalizeFrom alphabet place text with
  | case1 => trivial
  | case2 place c rest first ih =>
    obtain ⟨-, letter⟩ := Bool.and_eq_true_iff.1 first
    refine isCapitalized_append.2 ⟨isCapitalized_upper usual letter, ?_⟩
    rw [(rewords_upper usual letter).afterAll]
    exact ih
  | case3 place c rest later ih =>
    refine ⟨fun start letter => ?_, ih⟩
    rw [start, letter] at later
    exact absurd rfl later

theorem capitalizeFrom_of_isCapitalized (usual : alphabet.IsUsual)
    (capitalized : IsCapitalized alphabet place text) :
    capitalizeFrom alphabet place text = text := by
  fun_induction capitalizeFrom alphabet place text with
  | case1 => rfl
  | case2 place c rest first ih =>
    obtain ⟨start, letter⟩ := Bool.and_eq_true_iff.1 first
    obtain ⟨same, later⟩ := capitalized
    have same := same start letter
    have plain : IsPlain alphabet c := usual.plain letter (same ▸ List.mem_singleton_self c)
    rw [SentencePlace.after_letter letter plain] at later
    rw [same, ih later, List.singleton_append]
  | case3 place c rest later ih => rw [ih capitalized.2]

end Capitals

end Cleanup

end BranchText
