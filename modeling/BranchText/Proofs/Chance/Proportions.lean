import Mathlib.Algebra.Order.BigOperators.Group.List
import Mathlib.Order.Bounds.Basic
import Mathlib.Order.Interval.Set.Defs
import Mathlib.Tactic.Linarith
import BranchText.Proofs.Chance.ExactWeights

/-!
# Draws in proportion to weights

With exact weights the walk over the weights takes the first place of positive weight at which the
running total of the positive weights reaches the draw. If no weight is negative, the draws for a
place fill an interval as long as its weight, so that each place is taken in proportion to it.
-/

namespace BranchText

namespace Weight

/-- The weights that a draw goes by: a missing one counts zero. -/
def effective (written : List (Option ℚ)) : List ℚ := written.map (·.getD 0)

/-- The sum of the positive weights. -/
def positiveSum (weights : List ℚ) : ℚ := (weights.filter (0 < ·)).sum

/-- The places of positive weight up to which the positive weights bring the running total to the
draw. -/
def reaching (draw running : ℚ) (weights : List ℚ) : Set Nat :=
  {place | ∃ weight, weights[place]? = some weight ∧ 0 < weight ∧
    draw ≤ running + positiveSum (weights.take (place + 1))}

theorem positiveSum_cons (weight : ℚ) (rest : List ℚ) :
    positiveSum (weight :: rest) = max weight 0 + positiveSum rest := by
  unfold positiveSum
  by_cases positive : 0 < weight
  · rw [List.filter_cons_of_pos (by simpa using positive), List.sum_cons, max_eq_left positive.le]
  · rw [List.filter_cons_of_neg (by simpa using positive), max_eq_right (not_lt.1 positive),
      zero_add]

theorem exists_of_positiveSum_pos {weights : List ℚ} (positive : 0 < positiveSum weights) :
    ∃ weight ∈ weights, 0 < weight := by
  by_contra absent
  push Not at absent
  have none : weights.filter (0 < ·) = [] :=
    List.filter_eq_nil_iff.2 fun weight member => by simpa using absent weight member
  rw [positiveSum, none, List.sum_nil] at positive
  exact lt_irrefl _ positive

/-- Negative weights count for the sum of all weights only. -/
theorem total_le_positiveSum (weights : List ℚ) : total weights ≤ positiveSum weights := by
  rw [total_eq_sum]
  induction weights with
  | nil => exact le_rfl
  | cons weight rest ih =>
    rw [List.sum_cons, positiveSum_cons]
    exact add_le_add (le_max_left ..) ih

theorem positiveSum_of_nonneg {weights : List ℚ} (nonneg : ∀ weight ∈ weights, 0 ≤ weight) :
    positiveSum weights = total weights := by
  rw [total_eq_sum]
  induction weights with
  | nil => rfl
  | cons weight rest ih =>
    obtain ⟨here, later⟩ := List.forall_mem_cons.1 nonneg
    rw [List.sum_cons, positiveSum_cons, max_eq_left here, ih later]

/-- Behind a first place that the walk passes, it goes on from the running total there. -/
theorem reaching_cons {draw running weight : ℚ} (rest : List ℚ)
    (passed : 0 < weight → running + weight < draw) :
    reaching draw running (weight :: rest) =
      (· + 1) '' reaching draw (running + max weight 0) rest := by
  ext place
  cases place with
  | zero =>
    simp only [reaching, Set.mem_ofPred_eq, Set.mem_image, Nat.add_eq_zero_iff, one_ne_zero,
      and_false, exists_false, iff_false]
    rintro ⟨_, same, positive, reached⟩
    cases same
    have first : positiveSum ((weight :: rest).take 1) = weight := by
      rw [List.take_succ_cons, List.take_zero, positiveSum_cons, max_eq_left positive.le]
      exact add_zero weight
    rw [Nat.zero_add, first] at reached
    exact absurd (passed positive) (not_lt.2 reached)
  | succ place =>
    simp only [reaching, Set.mem_ofPred_eq, Set.mem_image, Nat.add_right_cancel_iff,
      exists_eq_right, List.getElem?_cons_succ, List.take_succ_cons, positiveSum_cons, add_assoc]

/-- The walk ends at the first place at which the running total reaches the draw. -/
theorem isLeast_go {draw : ℚ} {weights : List ℚ} (index : Nat) {running : ℚ} (last : Option Nat)
    (enough : draw ≤ running + positiveSum weights) (positive : ∃ weight ∈ weights, 0 < weight) :
    ∃ place, pickAt.go draw weights index running last = some (index + place) ∧
      IsLeast (reaching draw running weights) place := by
  induction weights generalizing index running last with
  | nil => simp at positive
  | cons weight rest ih =>
    rw [positiveSum_cons, ← add_assoc] at enough
    -- Passing the first place leaves the walk over the others, one place further on.
    have later : (0 < weight → running + weight < draw) → (∃ other ∈ rest, 0 < other) →
        ∀ last, ∃ place,
          pickAt.go draw rest (index + 1) (running + max weight 0) last = some (index + place) ∧
            IsLeast (reaching draw running (weight :: rest)) place := by
      intro passed left last
      obtain ⟨place, found, least⟩ := ih (index + 1) last enough left
      refine ⟨place + 1, ?_, ?_⟩
      · rw [found, Nat.add_assoc, Nat.add_comm 1]
      · rw [reaching_cons rest passed]
        exact (add_left_mono (a := 1)).map_isLeast least
    rw [pickAt.go]
    split
    · rename_i passed
      have left : ∃ other ∈ rest, 0 < other := by
        obtain ⟨other, member, above⟩ := positive
        rcases List.mem_cons.1 member with rfl | behind
        · exact absurd passed (not_le.2 above)
        · exact ⟨other, behind, above⟩
      have walked := later (fun above => absurd passed (not_le.2 above)) left last
      rw [max_eq_right passed, add_zero] at walked
      exact walked
    · rename_i above
      have above : 0 < weight := not_le.1 above
      split
      · rename_i reached
        refine ⟨0, rfl, ⟨weight, rfl, above, ?_⟩, fun _ _ => Nat.zero_le _⟩
        rw [List.take_succ_cons, List.take_zero, positiveSum_cons, max_eq_left above.le]
        exact reached.trans_eq (congrArg (running + ·) (add_zero weight).symm)
      · rename_i beyond
        have beyond : running + weight < draw := not_le.1 beyond
        have left : ∃ other ∈ rest, 0 < other := by
          rw [max_eq_left above.le] at enough
          exact exists_of_positiveSum_pos (by linarith)
        have walked := later (fun _ => beyond) left (some index)
        rw [max_eq_left above.le] at walked
        exact walked

/-- A draw up to a positive sum takes the first place at which it is reached. -/
theorem isLeast_pickAt {draw : ℚ} {weights : List ℚ} (some : 0 < total weights)
    (within : draw ≤ total weights) :
    ∃ place, pickAt draw weights = .some place ∧ IsLeast (reaching draw 0 weights) place := by
  have enough : draw ≤ 0 + positiveSum weights := by
    rw [zero_add]
    exact within.trans (total_le_positiveSum weights)
  have positive := exists_of_positiveSum_pos (some.trans_le (total_le_positiveSum weights))
  obtain ⟨place, found, least⟩ := isLeast_go 0 none enough positive
  rw [Nat.zero_add] at found
  exact ⟨place, found, least⟩

theorem total_take_succ {weights : List ℚ} {place : Nat} {weight : ℚ}
    (there : weights[place]? = some weight) :
    total (weights.take (place + 1)) = total (weights.take place) + weight := by
  rw [total_eq_sum, total_eq_sum, List.take_add_one, there, List.sum_append]
  exact congrArg _ (add_zero weight)

section Intervals

variable {weights : List ℚ} (nonneg : ∀ weight ∈ weights, 0 ≤ weight)
include nonneg

theorem nonneg_take (count : Nat) : ∀ weight ∈ weights.take count, 0 ≤ weight :=
  fun weight member => nonneg weight (List.mem_of_mem_take member)

theorem total_take_le {count more : Nat} (le : count ≤ more) :
    total (weights.take count) ≤ total (weights.take more) := by
  rw [total_eq_sum, total_eq_sum]
  exact (List.take_sublist_take_left le).sum_le_sum (nonneg_take nonneg more)

/-- Without negative weights a place is reached once the weights up to it sum to the draw. -/
theorem mem_reaching_iff {draw : ℚ} {place : Nat} :
    place ∈ reaching draw 0 weights ↔
      ∃ weight, weights[place]? = some weight ∧ 0 < weight ∧
        draw ≤ total (weights.take (place + 1)) := by
  simp only [reaching, zero_add, positiveSum_of_nonneg (nonneg_take nonneg (place + 1)),
    Set.mem_ofPred_eq]

/-- No place before the weights sum to the draw is taken. -/
theorem total_take_lt {draw : ℚ} {place : Nat} (above : 0 < draw)
    (least : IsLeast (reaching draw 0 weights) place) : total (weights.take place) < draw := by
  by_contra reached
  have reached : draw ≤ total (weights.take place) := not_lt.1 reached
  obtain ⟨earlier, -, first, -⟩ := isLeast_pickAt (above.trans_le reached) reached
  obtain ⟨weight, there, positive, within⟩ := (mem_reaching_iff (nonneg_take nonneg place)).1 first
  have before : earlier < place := by
    have := (List.getElem?_eq_some_iff.1 there).1
    rw [List.length_take] at this
    exact lt_of_lt_of_le this (min_le_left ..)
  rw [List.getElem?_take_of_lt before] at there
  rw [List.take_take, min_eq_left (Nat.succ_le_of_lt before)] at within
  have found : earlier ∈ reaching draw 0 weights :=
    (mem_reaching_iff nonneg).2 ⟨weight, there, positive, within⟩
  exact absurd (least.2 found) (not_le.2 before)

/-- The draws for a place of positive weight are those behind the weights before it, up to its
own. -/
theorem pickAt_eq_some_iff {place : Nat} {weight : ℚ} (there : weights[place]? = some weight)
    (positive : 0 < weight) {draw : ℚ} (above : 0 < draw) (below : draw < total weights) :
    pickAt draw weights = some place ↔
      total (weights.take place) < draw ∧ draw ≤ total (weights.take place) + weight := by
  obtain ⟨first, found, least⟩ := isLeast_pickAt (above.trans below) below.le
  rw [found, Option.some.injEq, ← total_take_succ there]
  constructor
  · rintro rfl
    obtain ⟨_, _, _, reached⟩ := (mem_reaching_iff nonneg).1 least.1
    exact ⟨total_take_lt nonneg above least, reached⟩
  · rintro ⟨behind, within⟩
    have le : first ≤ place :=
      least.2 ((mem_reaching_iff nonneg).2 ⟨weight, there, positive, within⟩)
    obtain ⟨_, _, _, reached⟩ := (mem_reaching_iff nonneg).1 least.1
    by_contra different
    have earlier : first + 1 ≤ place := lt_of_le_of_ne le different
    exact absurd (reached.trans (total_take_le nonneg earlier)) (not_le.2 behind)

end Intervals

/-- With a positive sum, a draw below it takes the first place of positive weight at which the
positive weights sum to it; if no weight is negative, the positive draws for a place of positive
weight are those in the interval of its length behind the sum of the weights before it. Without a
positive sum nothing is chosen, and nothing is drawn. -/
theorem choose_in_proportion (written : List (Option ℚ)) :
    (0 < total (effective written) → ∀ draw, 0 ≤ draw → draw < total (effective written) →
      ∃ place, pickAt draw (effective written) = some place ∧
        IsLeast {place | ∃ weight, (effective written)[place]? = some weight ∧ 0 < weight ∧
          draw ≤ positiveSum ((effective written).take (place + 1))} place ∧
        ∀ (G : Type) (below : ℚ → G → ℚ × G) (source later : G),
          below (total (effective written)) source = (draw, later) →
            choose below (effective written) source = (some place, later)) ∧
      ((∀ weight ∈ effective written, 0 ≤ weight) → ∀ place weight,
        (effective written)[place]? = some weight → 0 < weight →
          {draw ∈ Set.Ioo 0 (total (effective written)) |
              pickAt draw (effective written) = some place} =
            Set.Ioc (total ((effective written).take place))
                (total ((effective written).take place) + weight) ∩
              Set.Iio (total (effective written))) ∧
      (total (effective written) ≤ 0 → ∀ (G : Type) (below : ℚ → G → ℚ × G) (source : G),
        choose below (effective written) source = (none, source)) := by
  refine ⟨fun some draw _ within => ?_, fun nonneg place weight there positive => ?_,
    fun none G below source => ?_⟩
  · obtain ⟨place, found, least⟩ := isLeast_pickAt some within.le
    simp only [reaching, zero_add] at least
    refine ⟨place, found, least, fun G below source later drawn => ?_⟩
    simp only [choose, if_neg (not_le.2 some), drawn, found]
  · ext draw
    constructor
    · rintro ⟨⟨above, within⟩, found⟩
      exact ⟨(pickAt_eq_some_iff nonneg there positive above within).1 found, within⟩
    · rintro ⟨⟨behind, reached⟩, within⟩
      have above : 0 < draw := by
        refine lt_of_le_of_lt ?_ behind
        rw [total_eq_sum]
        exact List.sum_nonneg (nonneg_take nonneg place)
      exact ⟨⟨above, within⟩,
        (pickAt_eq_some_iff nonneg there positive above within).2 ⟨behind, reached⟩⟩
  · simp only [choose, if_pos none]

/-- Weights of which one is negative and one is missing. -/
def gappedWeights : List (Option ℚ) := [some 2, some (-1), none, some 3]

/-- Two equal weights around a missing one. -/
def equalWeights : List (Option ℚ) := [some 50, none, some 50]

/-- A draw passes negative and missing weights. Half of the draws between two equal weights, the
boundary among them, take the first. -/
theorem choose_in_proportion_boundary :
    0 < total (effective gappedWeights) ∧
      IsLeast {place | ∃ weight, (effective gappedWeights)[place]? = some weight ∧ 0 < weight ∧
        3 ≤ positiveSum ((effective gappedWeights).take (place + 1))} 3 ∧
      (∀ weight ∈ effective equalWeights, 0 ≤ weight) ∧
      {draw ∈ Set.Ioo 0 (total (effective equalWeights)) |
        pickAt draw (effective equalWeights) = some 0} = Set.Ioc 0 50 ∩ Set.Iio 100 ∧
      choose (fun high count => (high, count + 1)) (effective [some 1, some (-2)]) 7 =
        (none, 7) := by
  have sum : total (effective gappedWeights) = 4 := by decide +kernel
  have positive : 0 < total (effective gappedWeights) := by
    rw [sum]
    norm_num
  obtain ⟨place, found, least, -⟩ := (choose_in_proportion gappedWeights).1 positive 3 (by norm_num)
    (by rw [sum]; norm_num)
  have last : pickAt 3 (effective gappedWeights) = some 3 := by decide +kernel
  rw [last, Option.some.injEq] at found
  have nonneg : ∀ weight ∈ effective equalWeights, 0 ≤ weight := by decide +kernel
  have half := (choose_in_proportion equalWeights).2.1 nonneg 0 50 (by decide +kernel) (by norm_num)
  have sums : total ((effective equalWeights).take 0) = 0 ∧
      total (effective equalWeights) = 100 := by decide +kernel
  refine ⟨positive, found ▸ least, nonneg, ?_, ?_⟩
  · rw [half, sums.1, sums.2, zero_add]
  · exact (choose_in_proportion _).2.2 (by decide +kernel) Nat _ 7

end Weight

end BranchText
