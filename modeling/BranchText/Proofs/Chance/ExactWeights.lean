import Mathlib.Algebra.Order.BigOperators.Group.List
import Mathlib.Algebra.Order.Field.Rat
import Mathlib.Tactic.Linarith
import Mathlib.Tactic.Positivity
import Mathlib.Tactic.Ring
import BranchText.Proofs.Chance.Replacement

/-!
# Exact weights

Rational numbers as weights, so that sums and shares are what they are called. Weights that are
not negative and sum to at most the mass of a fork give every branch a weight that is not negative,
and a draw succeeds exactly if some branch has a positive one.
-/

namespace BranchText

/-- Exact weights, with the room above the mass that doubles need. -/
instance WeightScale.instRat : WeightScale ℚ where
  decidableLE := inferInstance
  decidableLT := inferInstance
  ofDecimal decimal := decimal.digits / 10 ^ decimal.places
  limit := 100 + 100 / 4503599627370496

namespace Weight

/-- Every written weight is at least zero, and together they are at most the mass of a fork. -/
structure Fits (written : List (Option ℚ)) : Prop where
  nonneg : ∀ weight, some weight ∈ written → 0 ≤ weight
  total_le : total (written.filterMap id) ≤ 100

theorem total_eq_sum (weights : List ℚ) : total weights = weights.sum :=
  List.sum_eq_foldl.symm

/-- Weights that were filled up are the written ones and the added ones. -/
theorem sum_map_getD (written : List (Option ℚ)) (share : ℚ) :
    (written.map fun weight => weight.getD share).sum =
      (written.filterMap id).sum + (written.countP Option.isNone : Nat) * share := by
  induction written with
  | nil => simp
  | cons weight rest ih =>
    cases weight with
    | none =>
      simp only [List.map_cons, List.sum_cons, ih, Option.getD_none, List.filterMap_cons, id,
        List.countP_cons, Option.isNone_none, if_true, Nat.cast_add, Nat.cast_one]
      ring
    | some weight =>
      simp only [List.map_cons, List.sum_cons, ih, Option.getD_some, List.filterMap_cons, id,
        List.countP_cons, Option.isNone_some, Bool.false_eq_true, if_false, Nat.add_zero]
      ring

/-- Where a weight was missing, the weights sum to the mass of a fork. -/
theorem total_normalize {written : List (Option ℚ)} (missing : none ∈ written) :
    total (normalize written) = 100 := by
  have counted : ((written.countP Option.isNone : Nat) : ℚ) ≠ 0 :=
    Nat.cast_ne_zero.2 (Nat.pos_iff_ne_zero.1 (List.countP_pos_iff.2 ⟨none, missing, rfl⟩))
  rw [total_eq_sum, normalize, sum_map_getD, share, mul_div_cancel₀ _ counted, total_eq_sum]
  simp [mass]

theorem share_nonneg {written : List (Option ℚ)} (fits : Fits written) : 0 ≤ share written := by
  have left : (0 : ℚ) ≤ mass - total (written.filterMap id) := by
    have := fits.total_le
    have : (mass : ℚ) = 100 := by norm_num [mass]
    linarith
  exact div_nonneg left (Nat.cast_nonneg _)

/-- No branch gets a negative weight. -/
theorem nonneg_of_mem_normalize {written : List (Option ℚ)} (fits : Fits written) :
    ∀ weight ∈ normalize written, 0 ≤ weight := by
  intro weight member
  obtain ⟨given, listed, rfl⟩ := List.mem_map.1 member
  cases given with
  | none => exact share_nonneg fits
  | some weight => exact fits.nonneg weight listed

theorem total_nonpos {weights : List ℚ} (nonpos : ∀ weight ∈ weights, weight ≤ 0) :
    total weights ≤ 0 := by
  rw [total_eq_sum]
  simpa using List.sum_le_card_nsmul weights 0 nonpos

/-- The sum of weights is positive if one of them is. -/
theorem total_pos_iff {weights : List ℚ} (nonneg : ∀ weight ∈ weights, 0 ≤ weight) :
    0 < total weights ↔ ∃ weight ∈ weights, 0 < weight := by
  constructor
  · intro positive
    by_contra absent
    push Not at absent
    exact absurd (total_nonpos absent) (not_le.2 positive)
  · rintro ⟨weight, member, positive⟩
    rw [total_eq_sum]
    exact lt_of_lt_of_le positive (List.single_le_sum nonneg weight member)

/-- The walk over weights ends at some place if there is a positive one. -/
theorem isSome_go (draw : ℚ) {weights : List ℚ} {index : Nat} {running : ℚ} {last : Option Nat}
    (positive : last.isSome ∨ ∃ weight ∈ weights, 0 < weight) :
    (pickAt.go draw weights index running last).isSome := by
  induction weights generalizing index running last with
  | nil =>
    rcases positive with found | ⟨weight, member, -⟩
    · exact found
    · cases member
  | cons weight rest ih =>
    rw [pickAt.go]
    split
    · rename_i passed
      refine ih (positive.imp_right ?_)
      rintro ⟨other, member, above⟩
      rcases List.mem_cons.1 member with rfl | later
      · exact absurd passed (not_le.2 above)
      · exact ⟨other, later, above⟩
    · split
      · rfl
      · exact ih (.inl rfl)

/-- A draw succeeds if there is a positive weight, whatever is drawn. -/
theorem exists_choose {G : Type} (below : ℚ → G → ℚ × G) {weights : List ℚ} (source : G)
    (nonneg : ∀ weight ∈ weights, 0 ≤ weight) (positive : ∃ weight ∈ weights, 0 < weight) :
    ∃ index later, choose below weights source = (some index, later) := by
  have left : ¬ total weights ≤ 0 := not_le.2 ((total_pos_iff nonneg).2 positive)
  have picked : (pickAt (below (total weights) source).1 weights).isSome :=
    isSome_go _ (.inr positive)
  obtain ⟨index, found⟩ := Option.isSome_iff_exists.1 picked
  refine ⟨index, (below (total weights) source).2, ?_⟩
  simp only [choose, if_neg left]
  exact congrArg (·, _) found

/-- Without a positive weight nothing is chosen, and nothing is drawn from the source. -/
theorem choose_of_nonpos {G : Type} (below : ℚ → G → ℚ × G) {weights : List ℚ} (source : G)
    (nonpos : ∀ weight ∈ weights, weight ≤ 0) : choose below weights source = (none, source) := by
  simp only [choose, if_pos (total_nonpos nonpos)]

end Weight

end BranchText
