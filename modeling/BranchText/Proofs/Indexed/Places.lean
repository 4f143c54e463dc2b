import BranchText.Indexed.Access

/-!
# Places in a source

A cursor is a place of a source if its text is what is left of the source behind that many bytes.
Every place is found at its byte offset, and the bytes from there on are those of its text. Bytes of
characters outside ASCII are outside ASCII themselves, so that a byte that is an ASCII character
stands at a place.
-/

namespace BranchText

/-! ## Bytes of characters -/

/-- Whether a character is one byte long in UTF-8, and is that byte. -/
def isAscii (c : Char) : Bool := c.toNat < 128

theorem toNat_latin {value : Nat} (small : value < 256) :
    (latin (UInt8.ofNat value)).toNat = value := by
  have sized : (UInt8.ofNat value).toNat = value := by
    rw [UInt8.toNat_ofNat']
    exact Nat.mod_eq_of_lt small
  rw [latin, sized, Char.ofNat, dif_pos (Or.inl (by omega))]
  rfl

theorem bytesOf_append (front back : List Char) :
    bytesOf (front ++ back) = bytesOf front ++ bytesOf back := by
  simp only [bytesOf, List.flatMap_append, List.map_append]

theorem bytesOf_cons (c : Char) (rest : List Char) :
    bytesOf (c :: rest) = bytesOf [c] ++ bytesOf rest := bytesOf_append [c] rest

theorem length_bytesOf (text : List Char) : (bytesOf text).length = byteLength text := by
  induction text with
  | nil => rfl
  | cons c rest ih =>
    rw [bytesOf_cons, List.length_append, ih, byteLength_cons]
    simp [bytesOf]

/-- An ASCII character is its only byte. -/
theorem bytesOf_of_isAscii {c : Char} (ascii : isAscii c = true) (rest : List Char) :
    bytesOf (c :: rest) = c :: bytesOf rest := by
  rw [isAscii, decide_eq_true_eq] at ascii
  have byte : bytesOf [c] = [latin (UInt8.ofNat c.toNat)] := by
    have small : c.val.toNat ≤ 127 := Nat.le_of_lt_succ ascii
    rw [bytesOf, List.flatMap_singleton, String.utf8EncodeChar]
    simp only [if_pos small]
    rfl
  have same : latin (UInt8.ofNat c.toNat) = c :=
    Char.toNat_inj.1 (toNat_latin (by omega))
  rw [bytesOf_cons, byte, same]
  rfl

theorem utf8Size_of_isAscii {c : Char} (ascii : isAscii c = true) : c.utf8Size = 1 := by
  have bytes := length_bytesOf [c]
  rw [bytesOf_of_isAscii ascii] at bytes
  simpa [bytesOf] using bytes.symm

/-- No byte of any other character is an ASCII character. -/
theorem not_isAscii_of_mem {c byte : Char} (wide : isAscii c = false) (member : byte ∈ bytesOf [c]) :
    isAscii byte = false := by
  rw [isAscii, decide_eq_false_iff_not] at wide ⊢
  have large : ¬ c.val.toNat ≤ 127 := fun small => wide (Nat.lt_succ_of_le small)
  have high : ∀ value, 128 ≤ value → value < 256 →
      ¬ (latin (UInt8.ofNat value)).toNat < 128 := by
    intro value lower upper
    rw [toNat_latin upper]
    omega
  obtain ⟨raw, encoded, rfl⟩ := List.mem_map.1 member
  rw [List.flatMap_singleton] at encoded
  unfold String.utf8EncodeChar at encoded
  simp only [if_neg large] at encoded
  -- Leading bytes are at least 192, and the others at least 128.
  split at encoded
  · simp only [List.mem_cons, List.not_mem_nil, or_false] at encoded
    rcases encoded with rfl | rfl <;> exact high _ (by omega) (by omega)
  · split at encoded
    · simp only [List.mem_cons, List.not_mem_nil, or_false] at encoded
      rcases encoded with rfl | rfl | rfl <;> exact high _ (by omega) (by omega)
    · simp only [List.mem_cons, List.not_mem_nil, or_false] at encoded
      rcases encoded with rfl | rfl | rfl | rfl <;> exact high _ (by omega) (by omega)

/-! ## Cursors of a source -/

namespace Cursor

/-- The cursor is a place of the source. -/
def In (cursor : Cursor) (source : List Char) : Prop :=
  ∃ front, source = front ++ cursor.rest ∧ byteLength front = cursor.offset

variable {source : List Char} {cursor : Cursor}

/-- The offset is that of a place of the source. -/
def IsPlace (source : List Char) (offset : Nat) : Prop :=
  ∃ cursor : Cursor, cursor.In source ∧ cursor.offset = offset

theorem start_in (source : List Char) : (start source).In source := ⟨[], rfl, rfl⟩

theorem go_of_append (front rest : List Char) (before : Nat) :
    at?.go (before + byteLength front) before (front ++ rest) =
      some ⟨before + byteLength front, rest⟩ := by
  induction front generalizing before with
  | nil =>
    rw [List.nil_append, byteLength_nil, Nat.add_zero, at?.go.eq_def, if_pos rfl]
  | cons c front ih =>
    have further : before ≠ before + byteLength (c :: front) := by
      have := c.utf8Size_pos
      rw [byteLength_cons]
      omega
    rw [List.cons_append, at?.go, if_neg further]
    have step := ih (before + c.utf8Size)
    rw [Nat.add_assoc] at step
    exact step

/-- A place is found at its offset. -/
theorem In.at? (isIn : cursor.In source) : at? source cursor.offset = some cursor := by
  obtain ⟨front, rfl, measured⟩ := isIn
  have found := go_of_append front cursor.rest 0
  rw [Nat.zero_add, measured] at found
  exact found

namespace In

variable (isIn : cursor.In source)
include isIn

/-- Skipping characters leads from place to place. -/
theorem skip (count : Nat) : (cursor.skip count).In source := by
  obtain ⟨front, rfl, measured⟩ := isIn
  refine ⟨front ++ cursor.rest.take count, ?_, ?_⟩
  · rw [Cursor.skip, List.append_assoc, List.take_append_drop]
  · rw [byteLength_append, measured]
    rfl

theorem isPlace : IsPlace source cursor.offset := ⟨cursor, isIn, rfl⟩

/-- The bytes from a place on are those of its text. -/
theorem drop_bytesOf : (bytesOf source).drop cursor.offset = bytesOf cursor.rest := by
  obtain ⟨front, rfl, measured⟩ := isIn
  rw [bytesOf_append, ← measured, ← length_bytesOf, List.drop_left]

theorem stop_eq : cursor.offset + byteLength cursor.rest = byteLength source := by
  obtain ⟨front, rfl, measured⟩ := isIn
  rw [byteLength_append, measured]

theorem offset_le : cursor.offset ≤ byteLength source := by
  have := isIn.stop_eq
  omega

end In

/-- Behind a character there is a place. -/
theorem In.tail {offset : Nat} {c : Char} {rest : List Char}
    (isIn : In ⟨offset, c :: rest⟩ source) : In ⟨offset + c.utf8Size, rest⟩ source := isIn.skip 1

end Cursor

end BranchText
