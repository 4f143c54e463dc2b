import BranchText.Cleanup.Punctuation
import BranchText.Text.Alphabet
import Mathlib.Data.List.Chain
import Mathlib.Data.Nat.ModEq

/-!
# Usual alphabets

What the laws of the cleanup passes need of an alphabet, collected in `Alphabet.IsUsual`: the
characters of ASCII have their usual properties, letters are visible, and a capital begins with a
letter that is its own capital. The tables of the Unicode standard make such an alphabet
(`Alphabet.isUsual_unicode`), which is checked range by range and run by run.
-/

namespace BranchText

namespace Alphabet

/-- The alphabet is the usual one on ASCII, has no blank letter, and makes capitals of letters that
stay as they are when made capitals again. -/
structure IsUsual (alphabet : Alphabet) : Prop where
  alphabetic {c : Char} (ascii : c.toNat < 128) : alphabet.isAlphabetic c = c.isAlpha
  numeric {c : Char} (ascii : c.toNat < 128) : alphabet.isNumeric c = c.isDigit
  whitespace {c : Char} (ascii : c.toNat < 128) :
    alphabet.isWhitespace c = [' ', '\t', '\n', '\x0b', '\x0c', '\r'].contains c
  upper {c : Char} (ascii : c.toNat < 128) : alphabet.upper c = [c.toUpper]
  lower {c : Char} (ascii : c.toNat < 128) : alphabet.lower c = [c.toLower]
  visible {c : Char} (letter : alphabet.isAlphabetic c = true) : alphabet.isWhitespace c = false
  capital {c : Char} (letter : alphabet.isAlphabetic c = true) : ∃ first rest,
    alphabet.upper c = first :: rest ∧ alphabet.isAlphabetic first = true ∧
      alphabet.upper first = [first]
  plain {c d : Char} (letter : alphabet.isAlphabetic c = true) (part : d ∈ alphabet.upper c) :
    alphabet.isWhitespace d = false ∧ Cleanup.isPunctuation d = false

/-! ## Ranges -/

/-- A code point of a range. -/
def InRange (range : Nat × Nat) (point : Nat) : Prop := range.1 ≤ point ∧ point ≤ range.2

/-- Whether a range holds all code points from one to another. -/
def spans (low high : Nat) (range : Nat × Nat) : Bool := range.1.ble low && high.ble range.2

/-- Whether two ranges have no code point in common. -/
def separate (range other : Nat × Nat) : Bool := range.2.blt other.1 || other.2.blt range.1

/-- Whether a code point belongs to a character. -/
def isScalar (point : Nat) : Bool := point.blt 0xD800 || Nat.ble 0xE000 point && point.blt 0x110000

section Ranges

variable {ranges : List (Nat × Nat)} {point : Nat}

theorem exists_of_inRanges (member : inRanges ranges point = true) :
    ∃ range ∈ ranges, InRange range point := by
  fun_induction inRanges ranges point with
  | case1 => cases member
  | case2 => cases member
  | case3 point low high rest above below =>
    exact ⟨_, List.mem_cons_self, Nat.le_of_not_lt above, below⟩
  | case4 point low high rest above below ih =>
    obtain ⟨range, listed, within⟩ := ih member
    exact ⟨range, List.mem_cons_of_mem _ listed, within⟩

/-- Ascending ranges are below all later ones. -/
theorem lt_of_isChain {first : Nat × Nat}
    (chain : (first :: ranges).IsChain fun range other => range.2 < other.1)
    (order : ∀ range ∈ ranges, range.1 ≤ range.2) {range : Nat × Nat} (listed : range ∈ ranges) :
    first.2 < range.1 := by
  induction ranges generalizing first with
  | nil => cases listed
  | cons second rest ih =>
    obtain ⟨next, later⟩ := List.isChain_cons_cons.1 chain
    obtain ⟨ordered, orders⟩ := List.forall_mem_cons.1 order
    rcases List.mem_cons.1 listed with rfl | behind
    · exact next
    · have := ih later orders behind
      omega

/-- Among ascending ranges none is overlooked. -/
theorem inRanges_of_mem (order : ∀ range ∈ ranges, range.1 ≤ range.2)
    (chain : ranges.IsChain fun range other => range.2 < other.1)
    {range : Nat × Nat} (listed : range ∈ ranges) (within : InRange range point) :
    inRanges ranges point = true := by
  induction ranges with
  | nil => cases listed
  | cons first rest ih =>
    obtain ⟨low, high⟩ := first
    obtain ⟨ordered, orders⟩ := List.forall_mem_cons.1 order
    rw [inRanges]
    rcases List.mem_cons.1 listed with rfl | later
    · rw [if_neg (Nat.not_lt.2 within.1), if_pos within.2]
    · have beyond := lt_of_isChain chain orders later
      have above := within.1
      dsimp only at ordered beyond
      rw [if_neg (by omega), if_neg (by omega)]
      exact ih orders chain.tail later

end Ranges

/-! ## Letters -/

section Letters

variable {point : Nat}

/-- The ranges of letters ascend. They start at `A`, are characters, and are apart from white
space. -/
theorem alphabeticRanges_lawful :
    (∀ range ∈ alphabeticRanges, range.1 ≤ range.2) ∧
      (alphabeticRanges.IsChain fun range other => range.2 < other.1) ∧
      alphabeticRanges.all (fun range =>
        Nat.ble 0x41 range.1 &&
          (range.2.blt 0xD800 || Nat.ble 0xE000 range.1 && range.2.blt 0x110000) &&
          whitespaceRanges.all (separate range)) = true := by
  refine ⟨?_, ?_, ?_⟩ <;> decide +kernel

theorem inRanges_alphabetic {range : Nat × Nat} (listed : range ∈ alphabeticRanges)
    (within : InRange range point) : inRanges alphabeticRanges point = true :=
  inRanges_of_mem alphabeticRanges_lawful.1 alphabeticRanges_lawful.2.1 listed within

/-- What a letter is not. -/
theorem plain_of_alphabetic (letter : inRanges alphabeticRanges point = true) :
    0x41 ≤ point ∧ isScalar point = true ∧ inRanges whitespaceRanges point = false := by
  obtain ⟨range, listed, low, high⟩ := exists_of_inRanges letter
  have plain := List.all_eq_true.1 alphabeticRanges_lawful.2.2 range listed
  simp only [Bool.and_eq_true, Bool.or_eq_true, Nat.ble_eq, Nat.blt_eq, List.all_eq_true] at plain
  obtain ⟨⟨start, scalar⟩, apart⟩ := plain
  refine ⟨Nat.le_trans start low, ?_, ?_⟩
  · simp only [isScalar, Bool.or_eq_true, Bool.and_eq_true, Nat.ble_eq, Nat.blt_eq]
    omega
  · rw [Bool.eq_false_iff]
    intro blank
    obtain ⟨other, white, behind, before⟩ := exists_of_inRanges blank
    have separate := apart other white
    simp only [Alphabet.separate, Bool.or_eq_true, Nat.blt_eq] at separate
    omega

/-- Punctuation is below the letters. -/
theorem isPunctuation_of_le {c : Char} (above : 0x41 ≤ c.toNat) :
    Cleanup.isPunctuation c = false := by
  rw [Bool.eq_false_iff]
  intro mark
  have below : ∀ d ∈ [',', '.', ';', ':', '!', '?'], d.toNat < 0x41 := by simp
  have := below c (by simpa [Cleanup.isPunctuation] using mark)
  omega

theorem toNat_ofNat (scalar : isScalar point = true) : (Char.ofNat point).toNat = point := by
  simp only [isScalar, Bool.or_eq_true, Bool.and_eq_true, Nat.ble_eq, Nat.blt_eq] at scalar
  have valid : point.isValidChar := by
    simp only [Nat.isValidChar]
    omega
  rw [Char.ofNat, dif_pos valid]
  rfl

end Letters

/-! ## Capitals -/

section Capitals

/-- A letter of a run. -/
def UpperRun.Holds (run : UpperRun) (point : Nat) : Prop :=
  run.first ≤ point ∧ point ≤ run.last ∧ (point - run.first) % run.step = 0

/-- The capital of a letter of a run. -/
def UpperRun.Makes (run : UpperRun) (point : Nat) : Prop :=
  ∃ letter, run.Holds letter ∧ point = run.upper + (letter - run.first)

/-- Whether no capital of a run is a letter of another: they lie before them, behind them, or
between them. -/
def UpperRun.misses (run other : UpperRun) : Bool :=
  (run.upper + (run.last - run.first)).blt other.first || other.last.blt run.upper ||
    (run.first.beq run.last || (run.step % other.step).beq 0) &&
      !(run.upper % other.step).beq (other.first % other.step)

/-- Whether the capitals of a run are letters: all from the first to the last, or each. -/
def UpperRun.isAlphabetic (run : UpperRun) : Bool :=
  alphabeticRanges.any (spans run.upper (run.upper + (run.last - run.first))) ||
    (List.range (run.last - run.first + 1)).all fun distance =>
      !(distance % run.step).beq 0 ||
        alphabeticRanges.any (spans (run.upper + distance) (run.upper + distance))

/-- A code point as a run that makes a capital of itself. -/
def alone (point : Nat) : UpperRun := ⟨point, point, 1, point⟩

/-- The runs whose capitals can start what a letter becomes. -/
def capitals : List UpperRun :=
  upperRuns ++ upperSequences.map fun entry => alone (entry.2.headD 0)

variable {point : Nat} {run other : UpperRun}

theorem not_holds_of_misses (misses : run.misses other = true) (made : run.Makes point) :
    ¬ other.Holds point := by
  rintro ⟨behind, before, inStep⟩
  obtain ⟨letter, ⟨low, high, multiple⟩, rfl⟩ := made
  simp only [UpperRun.misses, Bool.or_eq_true, Bool.and_eq_true, Nat.blt_eq, Nat.beq_eq,
    Bool.not_eq_true', Bool.eq_false_iff, ne_eq] at misses
  rcases misses with (above | below) | ⟨steps, apart⟩
  · omega
  · omega
  · apply apart
    have same : (letter - run.first) % other.step = 0 := by
      rcases steps with single | divides
      · rw [show letter - run.first = 0 by omega, Nat.zero_mod]
      · exact Nat.mod_eq_zero_of_dvd
          (Nat.dvd_trans (Nat.dvd_of_mod_eq_zero divides) (Nat.dvd_of_mod_eq_zero multiple))
    have first : run.upper + (letter - run.first) ≡ run.upper [MOD other.step] :=
      (Nat.ModEq.refl run.upper).add
        (show _ ≡ 0 [MOD other.step] from by simpa [Nat.ModEq] using same)
    have second : run.upper + (letter - run.first) ≡ other.first [MOD other.step] := by
      have := (Nat.ModEq.refl other.first).add
        (show _ ≡ 0 [MOD other.step] from by simpa [Nat.ModEq] using inStep)
      rwa [Nat.add_sub_cancel' behind] at this
    exact first.symm.trans second

theorem holds_of_upperByRun? {runs : List UpperRun} {letter : Nat}
    (found : upperByRun? runs letter = some point) : ∃ run ∈ runs, run.Holds letter ∧
      point = run.upper + (letter - run.first) := by
  fun_induction upperByRun? runs letter with
  | case1 => cases found
  | case2 => cases found
  | case3 run rest letter above within =>
    simp only [Bool.and_eq_true, decide_eq_true_eq] at within
    cases found
    exact ⟨run, List.mem_cons_self, ⟨Nat.le_of_not_lt above, within⟩, rfl⟩
  | case4 run rest letter above within ih =>
    obtain ⟨run, listed, here⟩ := ih found
    exact ⟨run, List.mem_cons_of_mem _ listed, here⟩

/-- Characters that are in no run and in no sequence are their own capitals. -/
theorem unicodeUpper_of_not_holds {c : Char}
    (single : ∀ run ∈ upperRuns, ¬ run.Holds c.toNat)
    (several : ∀ entry ∈ upperSequences, ¬ (alone entry.1).Holds c.toNat) :
    unicodeUpper c = [c] := by
  have noSequence : upperSequences.lookup c.toNat = none := by
    rw [List.lookup_eq_none_iff]
    intro entry listed
    rw [bne_iff_ne]
    intro same
    exact several entry listed ⟨same.ge, same.le, Nat.mod_one _⟩
  have noRun : upperByRun? upperRuns c.toNat = none := by
    cases found : upperByRun? upperRuns c.toNat with
    | none => rfl
    | some point =>
      obtain ⟨run, listed, holds, -⟩ := holds_of_upperByRun? found
      exact (single run listed holds).elim
  simp only [unicodeUpper, noSequence, noRun]

/-- The capitals of each run are letters, and none of them has another capital. -/
theorem capitals_lawful :
    capitals.all UpperRun.isAlphabetic = true ∧
      capitals.all (fun run => upperRuns.all run.misses) = true ∧
      capitals.all (fun run =>
        upperSequences.all fun entry => run.misses (alone entry.1)) = true := by
  refine ⟨?_, ?_, ?_⟩ <;> decide +kernel

theorem inRanges_of_makes (listed : run ∈ capitals) (made : run.Makes point) :
    inRanges alphabeticRanges point = true := by
  obtain ⟨letter, ⟨low, high, multiple⟩, rfl⟩ := made
  have whole := List.all_eq_true.1 capitals_lawful.1 run listed
  simp only [UpperRun.isAlphabetic, Bool.or_eq_true, List.any_eq_true, List.all_eq_true,
    List.mem_range, spans, Bool.and_eq_true, Nat.ble_eq, Bool.not_eq_true',
    Bool.eq_false_iff, ne_eq, Nat.beq_eq] at whole
  rcases whole with ⟨range, member, behind, before⟩ | each
  · exact inRanges_alphabetic member ⟨by omega, by omega⟩
  · rcases each (letter - run.first) (by omega) with other | ⟨range, member, within⟩
    · exact absurd multiple other
    · exact inRanges_alphabetic member within

/-- A capital is a letter and its own capital. -/
theorem unicode_of_makes (listed : run ∈ capitals) (made : run.Makes point) :
    unicode.isAlphabetic (Char.ofNat point) = true ∧
      unicode.upper (Char.ofNat point) = [Char.ofNat point] := by
  have letter := inRanges_of_makes listed made
  have same := toNat_ofNat (plain_of_alphabetic letter).2.1
  have runs := List.all_eq_true.1 (List.all_eq_true.1 capitals_lawful.2.1 run listed)
  have sequences := List.all_eq_true.1 (List.all_eq_true.1 capitals_lawful.2.2 run listed)
  refine ⟨by simpa only [unicode, same] using letter, unicodeUpper_of_not_holds ?_ ?_⟩
  · intro other member
    rw [same]
    exact not_holds_of_misses (runs other member) made
  · intro entry member
    rw [same]
    exact not_holds_of_misses (sequences entry member) made

/-- Several characters that a letter becomes start with a capital, and all of them are visible. -/
theorem upperSequences_plain : upperSequences.all (fun entry => !entry.2.isEmpty &&
    entry.2.all fun point => Nat.ble 0x41 point && isScalar point &&
      whitespaceRanges.all (separate (point, point))) = true := by
  decide +kernel

/-- What a letter becomes: it stays, it becomes the capital of a run, or several characters. -/
theorem unicodeUpper_cases (c : Char) : unicodeUpper c = [c] ∨
    (∃ run ∈ upperRuns, ∃ point, run.Makes point ∧ unicodeUpper c = [Char.ofNat point]) ∨
    ∃ entry ∈ upperSequences, unicodeUpper c = entry.2.map Char.ofNat := by
  unfold unicodeUpper
  cases several : upperSequences.lookup c.toNat with
  | some points =>
    obtain ⟨front, back, split, -⟩ := List.lookup_eq_some_iff.1 several
    exact .inr (.inr ⟨(c.toNat, points), by simp [split], rfl⟩)
  | none =>
    cases single : upperByRun? upperRuns c.toNat with
    | some point =>
      obtain ⟨run, listed, holds, same⟩ := holds_of_upperByRun? single
      exact .inr (.inl ⟨run, listed, point, ⟨_, holds, same⟩, rfl⟩)
    | none => exact .inl rfl

theorem visible_of_alphabetic {c : Char} (letter : unicode.isAlphabetic c = true) :
    unicode.isWhitespace c = false ∧ Cleanup.isPunctuation c = false := by
  obtain ⟨above, -, visible⟩ := plain_of_alphabetic letter
  exact ⟨visible, isPunctuation_of_le above⟩

end Capitals

/-- Two functions that agree on the code points of ASCII agree on its characters. -/
theorem eq_of_ascii {α : Type} {f g : Char → α} {c : Char} (ascii : c.toNat < 128)
    (same : ∀ point < 128, f (Char.ofNat point) = g (Char.ofNat point)) : f c = g c := by
  have := same c.toNat ascii
  rwa [Char.ofNat_toNat] at this

/-- The tables of the Unicode standard are usual. -/
theorem isUsual_unicode : unicode.IsUsual where
  alphabetic ascii := eq_of_ascii ascii (by decide +kernel)
  numeric ascii := eq_of_ascii ascii (by decide +kernel)
  whitespace ascii := eq_of_ascii ascii (by decide +kernel)
  upper ascii :=
    eq_of_ascii (f := unicode.upper) (g := fun c => [c.toUpper]) ascii (by decide +kernel)
  lower ascii :=
    eq_of_ascii (f := unicode.lower) (g := fun c => [c.toLower]) ascii (by decide +kernel)
  visible letter := (visible_of_alphabetic letter).1
  capital {c} letter := by
    rcases unicodeUpper_cases c with
      stays | ⟨run, listed, point, made, same⟩ | ⟨entry, listed, same⟩
    · exact ⟨c, [], stays, letter, stays⟩
    · obtain ⟨alphabetic, own⟩ := unicode_of_makes (List.mem_append_left _ listed) made
      exact ⟨_, [], same, alphabetic, own⟩
    · have plain := List.all_eq_true.1 upperSequences_plain entry listed
      obtain ⟨letter, points⟩ := entry
      obtain - | ⟨first, rest⟩ := points
      · cases plain
      · have made : (alone first).Makes first := ⟨first, ⟨Nat.le_refl _, Nat.le_refl _,
          Nat.mod_one _⟩, by simp [alone]⟩
        have isCapital : alone first ∈ capitals :=
          List.mem_append_right _ (List.mem_map.2 ⟨_, listed, rfl⟩)
        obtain ⟨alphabetic, own⟩ := unicode_of_makes isCapital made
        exact ⟨_, _, same, alphabetic, own⟩
  plain {c d} letter part := by
    change d ∈ unicodeUpper c at part
    rcases unicodeUpper_cases c with
      stays | ⟨run, listed, point, made, same⟩ | ⟨entry, listed, same⟩
    · rw [stays, List.mem_singleton] at part
      exact part ▸ visible_of_alphabetic letter
    · rw [same, List.mem_singleton] at part
      exact part ▸ visible_of_alphabetic (unicode_of_makes (List.mem_append_left _ listed) made).1
    · rw [same] at part
      obtain ⟨point, member, rfl⟩ := List.mem_map.1 part
      have plain := List.all_eq_true.1 upperSequences_plain entry listed
      simp only [Bool.and_eq_true, List.all_eq_true, Nat.ble_eq] at plain
      obtain ⟨⟨above, scalar⟩, apart⟩ := plain.2 point member
      have toNat := toNat_ofNat scalar
      refine ⟨?_, isPunctuation_of_le (toNat.symm ▸ above)⟩
      rw [Bool.eq_false_iff]
      intro blank
      simp only [unicode, toNat] at blank
      obtain ⟨range, white, low, high⟩ := exists_of_inRanges blank
      have := apart range white
      simp only [separate, Bool.or_eq_true, Nat.blt_eq] at this
      omega

end Alphabet

end BranchText
