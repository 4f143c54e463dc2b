import BranchText.Document.Print

/-!
# Whole weights

Doubles add whole numbers up to one hundred without rounding, so written weights that are whole
and add up to at most the mass of a fork are never found too heavy.
-/

namespace BranchText

namespace Decimal

open Float.Model

/-- The double of a whole number. -/
def whole (n : Nat) : Float := toFloat ⟨n, 0⟩

/-- The significand and the exponent of a positive finite double. -/
def parts : UnpackedFloat → Option (Nat × Int)
  | .finite .positive significand exponent _ => some (significand, exponent)
  | _ => none

theorem eq_of_parts {x : UnpackedFloat} {significand : Nat} {exponent : Int}
    (same : parts x = some (significand, exponent)) :
    ∃ positive, x = .finite .positive significand exponent positive := by
  cases x with
  | finite sign m e positive =>
    cases sign with
    | negative => cases same
    | positive =>
      cases same
      exact ⟨positive, rfl⟩
  | infinity => cases same
  | notANumber => cases same
  | zero => cases same

/-- What holds of the doubles of whole numbers up to one hundred, each of which is looked at. -/
structure WholeLaws : Prop where
  /-- A whole number fills the significand from its first bit on. -/
  parts : ∀ n < 101, 0 < n →
    parts (whole n).toModel.unpack = some (n <<< (52 - n.log2), (n.log2 : Int) - 52)
  /-- The bits of the sum of two whole numbers, the smaller of which starts at bit `low`. -/
  packRound : ∀ n < 101, 0 < n → ∀ low < 6, low < n.log2 →
    (Float.Model.pack (UnpackedFloat.round Format.binary64 .positive (n <<< (52 - low))
      ((low : Int) - 52))).toBits.toNat = (nearestBits n 1).toNat
  toBits : ∀ n < 101, (whole n).toModel.toBits.toNat = (nearestBits n 1).toNat
  zeroAdd : ∀ n < 101,
    (whole 0 + whole n).toModel.toBits.toNat = (whole n).toModel.toBits.toNat ∧
      (whole n + whole 0).toModel.toBits.toNat = (whole n).toModel.toBits.toNat
  /-- The limit of a fork lets every whole number up to its mass through. -/
  withinLimit : ∀ n < 101, ¬ (WeightScale.limit : Float) < whole n

theorem wholeLaws : WholeLaws := by
  constructor <;> decide +kernel

/-- Equal bits make equal doubles. -/
theorem eq_of_toBits {x y : Float}
    (same : x.toModel.toBits.toNat = y.toModel.toBits.toNat) : x = y := by
  obtain ⟨⟨xBits, xValid⟩⟩ := x
  obtain ⟨⟨yBits, yValid⟩⟩ := y
  have bits : xBits = yBits := UInt64.toNat_inj.1 same
  subst bits
  rfl

/-- The smaller of two positive numbers starts below their sum. -/
theorem min_log2_lt {a b : Nat} (aPositive : 0 < a) (bPositive : 0 < b) (small : a + b ≤ 100) :
    min a.log2 b.log2 < 6 ∧ min a.log2 b.log2 < (a + b).log2 := by
  have aBound := Nat.log2_self_le (Nat.pos_iff_ne_zero.1 aPositive)
  have bBound := Nat.log2_self_le (Nat.pos_iff_ne_zero.1 bPositive)
  have double : 2 ^ (min a.log2 b.log2 + 1) ≤ a + b := by
    have fromA : 2 ^ min a.log2 b.log2 ≤ a :=
      Nat.le_trans (Nat.pow_le_pow_right (by decide) (Nat.min_le_left ..)) aBound
    have fromB : 2 ^ min a.log2 b.log2 ≤ b :=
      Nat.le_trans (Nat.pow_le_pow_right (by decide) (Nat.min_le_right ..)) bBound
    rw [Nat.pow_succ]
    omega
  have below := (Nat.le_log2 (by omega)).2 double
  refine ⟨?_, below⟩
  have top : min a.log2 b.log2 + 1 < 7 :=
    (Nat.pow_lt_pow_iff_right (by decide)).1 (Nat.lt_of_le_of_lt double (by omega : a + b < 2 ^ 7))
  omega

theorem log2_le {n : Nat} (small : n ≤ 100) : n.log2 ≤ 52 := by
  by_cases zero : n = 0
  · simp [zero]
  · have bound := Nat.log2_self_le zero
    have top : n.log2 < 7 := (Nat.pow_lt_pow_iff_right (by decide)).1
      (Nat.lt_of_le_of_lt bound (by omega : n < 2 ^ 7))
    omega

/-- A significand is moved down to a lower bit by filling it up with zeros. -/
theorem shift_to_low {n low : Nat} (below : low ≤ n.log2) (top : n.log2 ≤ 52) :
    (n <<< (52 - n.log2)) <<< (((n.log2 : Int) - 52) - ((low : Int) - 52)).toNat
      = n <<< (52 - low) := by
  rw [← Nat.shiftLeft_add]
  congr 1
  omega

/-- Positive significands are added at the smaller exponent. -/
theorem add_positive {m n : Nat} {d e : Int} (mPositive : 0 < m) (nPositive : 0 < n) :
    UnpackedFloat.add Format.binary64 (.finite .positive m d mPositive)
        (.finite .positive n e nPositive)
      = UnpackedFloat.normalize Format.binary64
          (((m <<< (d - min d e).toNat : Nat) : Int) + ((n <<< (e - min d e).toNat : Nat) : Int))
          (min d e) .positive :=
  rfl

/-- Whole numbers are added without rounding. -/
theorem whole_add {a b : Nat} (small : a + b ≤ 100) : whole a + whole b = whole (a + b) := by
  by_cases aZero : a = 0
  · subst aZero
    rw [Nat.zero_add]
    exact eq_of_toBits (wholeLaws.zeroAdd b (by omega)).1
  by_cases bZero : b = 0
  · subst bZero
    exact eq_of_toBits (wholeLaws.zeroAdd a (by omega)).2
  obtain ⟨_, aForm⟩ := eq_of_parts (wholeLaws.parts a (by omega) (by omega))
  obtain ⟨_, bForm⟩ := eq_of_parts (wholeLaws.parts b (by omega) (by omega))
  have low := min_log2_lt (by omega) (by omega) small
  have exponent : min ((a.log2 : Int) - 52) ((b.log2 : Int) - 52)
      = ((min a.log2 b.log2 : Nat) : Int) - 52 := by omega
  have model : (whole a + whole b).toModel = Float.Model.pack
      (UnpackedFloat.round Format.binary64 .positive ((a + b) <<< (52 - min a.log2 b.log2))
        (((min a.log2 b.log2 : Nat) : Int) - 52)) := by
    change Float.Model.pack (UnpackedFloat.add _ (whole a).toModel.unpack (whole b).toModel.unpack) = _
    have aShift := shift_to_low (Nat.min_le_left a.log2 b.log2) (log2_le (by omega : a ≤ 100))
    have bShift := shift_to_low (Nat.min_le_right a.log2 b.log2) (log2_le (by omega : b ≤ 100))
    have sum : ((a <<< (52 - min a.log2 b.log2) : Nat) : Int)
        + ((b <<< (52 - min a.log2 b.log2) : Nat) : Int)
        = (((a + b) <<< (52 - min a.log2 b.log2) : Nat) : Int) := by
      simp only [Nat.shiftLeft_eq, Nat.add_mul, Int.natCast_add]
    have positive : 0 < (a + b) <<< (52 - min a.log2 b.log2) := by
      rw [Nat.shiftLeft_eq]
      exact Nat.mul_pos (by omega) (Nat.two_pow_pos _)
    have order : compare (((a + b) <<< (52 - min a.log2 b.log2) : Nat) : Int) 0 = .gt :=
      Std.compare_eq_gt.2 (by omega)
    rw [aForm, bForm, add_positive, exponent, aShift, bShift, sum]
    simp only [UnpackedFloat.normalize, order, Int.toNat_natCast]
  refine eq_of_toBits ?_
  rw [model, wholeLaws.toBits _ (by omega)]
  exact wholeLaws.packRound _ (by omega) (by omega) _ low.1 low.2

end Decimal

open Decimal

/-- Whether every written weight of the branches is a whole number. -/
def WholeWeights (branches : List Branch) : Prop :=
  ∀ branch ∈ branches, ∀ weight, branch.weight = some weight → weight.places = 0

/-- Whole weights are added without rounding. -/
theorem foldl_written (branches : List Branch) :
    ∀ start, WholeWeights branches → start + writtenTotal branches ≤ 100 →
      ((branches.map fun branch => branch.weight.map toFloat).filterMap id).foldl (· + ·)
        (whole start) = whole (start + writtenTotal branches) := by
  induction branches with
  | nil => intros; rfl
  | cons branch rest ih =>
    obtain ⟨choice, weight⟩ := branch
    intro start wholeWeights small
    have restWhole : WholeWeights rest :=
      fun other member => wholeWeights other (List.mem_cons_of_mem _ member)
    cases weight with
    | none => simpa [writtenTotal] using ih start restWhole small
    | some weight =>
      have places := wholeWeights _ (List.mem_cons_self ..) weight rfl
      have form : toFloat weight = whole weight.digits := by
        rw [whole, ← places]
      simp only [writtenTotal] at small
      have sum : whole start + whole weight.digits = whole (start + weight.digits) :=
        whole_add (by omega)
      have later := ih (start + weight.digits) restWhole (by omega)
      rw [Nat.add_assoc] at later
      simpa [writtenTotal, form, sum] using later

/-- Whole weights that add up to at most the mass of a fork are never too heavy. -/
theorem ofWritten_whole {fork : Fork} (wholeWeights : WholeWeights fork.branches)
    (small : writtenTotal fork.branches ≤ 100) :
    Deck.ofWritten fork.isSet fork.written = (.ok fork.deck : Except Float (Deck Float)) := by
  have total : Weight.total ((fork.written : List (Option Float)).filterMap id)
      = whole (writtenTotal fork.branches) := by
    have sum := foldl_written fork.branches 0 wholeWeights (by omega)
    rw [Nat.zero_add] at sum
    exact sum
  rw [Deck.ofWritten, total, if_neg (wholeLaws.withinLimit _ (by omega))]
  rfl

end BranchText
