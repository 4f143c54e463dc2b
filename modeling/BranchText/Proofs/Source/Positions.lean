import BranchText.Proofs.Indexed.Places
import BranchText.Source.Position
import Mathlib.Order.Bounds.Basic

/-!
# Positions are faithful

Each character moves a position on, in the order of lines and columns (`Position.before_after`). The
characters before a place of a source start with those before an earlier one, so that a later place
has a later position, and an offset between two places has the position of the first
(`Position.ofOffset_faithful`).
-/

namespace BranchText

/-! ## The characters before an offset -/

section CharsBefore

variable {source : List Char}

/-- Before a place are the characters that lead to it. -/
theorem charsBefore_append (front rest : List Char) :
    charsBefore (front ++ rest) (byteLength front) = front := by
  induction front with
  | nil =>
    cases rest with
    | nil => rfl
    | cons c rest => exact if_neg (Nat.not_le.2 c.utf8Size_pos)
  | cons c front ih =>
    rw [List.cons_append, charsBefore, byteLength_cons, if_pos (Nat.le_add_right ..),
      Nat.add_sub_cancel_left, ih]

theorem charsBefore_prefix (source : List Char) (offset : Nat) :
    charsBefore source offset <+: source := by
  fun_induction charsBefore source offset with
  | case1 => exact List.prefix_rfl
  | case2 offset c rest fits ih => exact (List.prefix_cons_inj c).2 ih
  | case3 => exact List.nil_prefix

theorem byteLength_charsBefore_le (source : List Char) (offset : Nat) :
    byteLength (charsBefore source offset) ≤ offset := by
  fun_induction charsBefore source offset with
  | case1 => exact Nat.zero_le _
  | case2 offset c rest fits ih =>
    rw [byteLength_cons]
    omega
  | case3 => exact Nat.zero_le _

/-- A later offset has no fewer characters before it. -/
theorem charsBefore_prefix_of_le {first last : Nat} (order : first ≤ last) :
    charsBefore source first <+: charsBefore source last := by
  induction source generalizing first last with
  | nil => exact List.prefix_rfl
  | cons c rest ih =>
    rw [charsBefore, charsBefore]
    by_cases fits : c.utf8Size ≤ first
    · rw [if_pos fits, if_pos (Nat.le_trans fits order)]
      exact (List.prefix_cons_inj c).2 (ih (Nat.sub_le_sub_right order _))
    · rw [if_neg fits]
      exact List.nil_prefix

/-- The number of bytes of the characters before a place is its offset. -/
theorem Cursor.IsPlace.byteLength_charsBefore {place : Nat}
    (isPlace : Cursor.IsPlace source place) : byteLength (charsBefore source place) = place := by
  obtain ⟨cursor, ⟨front, rfl, measured⟩, rfl⟩ := isPlace
  rw [← measured, charsBefore_append]

/-- The characters before an offset end at the last place that is not behind it. -/
theorem isGreatest_byteLength_charsBefore (source : List Char) (offset : Nat) :
    IsGreatest {place | Cursor.IsPlace source place ∧ place ≤ offset}
      (byteLength (charsBefore source offset)) := by
  constructor
  · obtain ⟨rest, split⟩ := charsBefore_prefix source offset
    exact ⟨⟨⟨_, rest⟩, ⟨_, split.symm, rfl⟩, rfl⟩, byteLength_charsBefore_le source offset⟩
  · rintro place ⟨isPlace, order⟩
    obtain ⟨more, split⟩ := @charsBefore_prefix_of_le source _ _ order
    rw [← split, byteLength_append, isPlace.byteLength_charsBefore]
    exact Nat.le_add_right ..

end CharsBefore

namespace Position

/-! ## The order of positions -/

/-- One position is on an earlier line than the other, or in an earlier column of the same line. -/
def Before (one other : Position) : Prop :=
  one.line < other.line ∨ one.line = other.line ∧ one.column < other.column

variable {one other third : Position}

theorem Before.trans (first : one.Before other) (second : other.Before third) :
    one.Before third := by
  unfold Before at *
  omega

theorem not_before_self (position : Position) : ¬ position.Before position := by
  unfold Before
  omega

/-- Every character moves the position on. -/
theorem before_after (position : Position) (c : Char) : position.Before (position.after c) := by
  unfold after Before
  split
  · exact .inl (Nat.lt_succ_self _)
  · exact .inr ⟨rfl, Nat.lt_succ_self _⟩

theorem before_foldl (position : Position) {text : List Char} (filled : text ≠ []) :
    position.Before (text.foldl after position) := by
  induction text generalizing position with
  | nil => exact absurd rfl filled
  | cons c rest ih =>
    have moved := position.before_after c
    by_cases last : rest = []
    · rwa [last]
    · exact moved.trans (ih _ last)

/-! ## Positions of offsets -/

/-- Of two places of a source the later one has the later position. -/
theorem before_of_lt {source : List Char} {first last : Nat} (start : Cursor.IsPlace source first)
    (stop : Cursor.IsPlace source last) (order : first < last) :
    (ofOffset source first).Before (ofOffset source last) := by
  obtain ⟨between, split⟩ := @charsBefore_prefix_of_le source _ _ order.le
  have filled : between ≠ [] := by
    rintro rfl
    rw [List.append_nil] at split
    have same := stop.byteLength_charsBefore
    rw [← split, start.byteLength_charsBefore] at same
    omega
  rw [ofOffset, ofOffset, ← split, List.foldl_append]
  exact before_foldl _ filled

/-- An offset has the position of the last place that is not behind it. -/
theorem ofOffset_byteLength_charsBefore (source : List Char) (offset : Nat) :
    ofOffset source (byteLength (charsBefore source offset)) = ofOffset source offset := by
  obtain ⟨rest, split⟩ := charsBefore_prefix source offset
  have same := charsBefore_append (charsBefore source offset) rest
  rw [split] at same
  rw [ofOffset, same, ofOffset]

/-- Positions tell the places of a source apart and keep their order, line before column. Any other
offset, inside a character or past the end, has the position of the greatest place below it. -/
theorem ofOffset_faithful (source : List Char) :
    (∀ first last, Cursor.IsPlace source first → Cursor.IsPlace source last →
      (first < last ↔ (ofOffset source first).Before (ofOffset source last)) ∧
      (ofOffset source first = ofOffset source last → first = last)) ∧
    ∀ offset, ∃ place,
      IsGreatest {place | Cursor.IsPlace source place ∧ place ≤ offset} place ∧
        ofOffset source offset = ofOffset source place := by
  refine ⟨fun first last start stop => ?_, fun offset => ⟨_,
    isGreatest_byteLength_charsBefore source offset,
    (ofOffset_byteLength_charsBefore source offset).symm⟩⟩
  rcases Nat.lt_trichotomy first last with less | rfl | greater
  · have before := before_of_lt start stop less
    refine ⟨⟨fun _ => before, fun _ => less⟩, fun same => ?_⟩
    rw [same] at before
    exact absurd before (not_before_self _)
  · exact ⟨⟨fun less => absurd less (Nat.lt_irrefl _),
      fun before => absurd before (not_before_self _)⟩, fun _ => rfl⟩
  · have behind := before_of_lt stop start greater
    refine ⟨⟨fun less => absurd less (Nat.lt_asymm greater), fun before =>
      absurd (before.trans behind) (not_before_self _)⟩, fun same => ?_⟩
    rw [same] at behind
    exact absurd behind (not_before_self _)

/-- A line break has an earlier position than what is behind it, and the second byte of a character
has the position of the first. -/
theorem ofOffset_faithful_wide :
    Cursor.IsPlace ['é', '\n', 'b'] 2 ∧ Cursor.IsPlace ['é', '\n', 'b'] 3 ∧
      (ofOffset ['é', '\n', 'b'] 2).Before (ofOffset ['é', '\n', 'b'] 3) ∧
      ∃ place, IsGreatest {place | Cursor.IsPlace ['é', '\n', 'b'] place ∧ place ≤ 1} place ∧
        ofOffset ['é', '\n', 'b'] 1 = ofOffset ['é', '\n', 'b'] place := by
  have lineBreak : Cursor.IsPlace ['é', '\n', 'b'] 2 :=
    ⟨⟨2, ['\n', 'b']⟩, ⟨['é'], rfl, rfl⟩, rfl⟩
  have behind : Cursor.IsPlace ['é', '\n', 'b'] 3 := ⟨⟨3, ['b']⟩, ⟨['é', '\n'], rfl, rfl⟩, rfl⟩
  obtain ⟨places, others⟩ := ofOffset_faithful ['é', '\n', 'b']
  exact ⟨lineBreak, behind, (places 2 3 lineBreak behind).1.1 (by decide), others 1⟩

end Position

end BranchText
