import Mathlib.Algebra.BigOperators.Group.Finset.Basic
import Mathlib.Algebra.BigOperators.Ring.Finset
import Mathlib.Algebra.Order.BigOperators.Group.Finset

/-!
# Weighing outcomes

To bound how many outcomes there can be, each one is given a worth: what is still to come from it.
A set of outcomes weighs at most a bound if the worths of any finitely many of them add up to no
more. A step that spreads an outcome over several, none of them worth more together than the one
before, then keeps the bound.
-/

namespace BranchText

variable {α β : Type}

/-- The worths of finitely many outcomes that are possible never add up to more than the bound. -/
def Weighs (worth : α → Nat) (possible : α → Prop) (bound : Nat) : Prop :=
  ∀ outcomes : Finset α, (∀ outcome ∈ outcomes, possible outcome) →
    ∑ outcome ∈ outcomes, worth outcome ≤ bound

namespace Weighs

variable {worth : α → Nat} {possible : α → Prop} {bound : Nat}

theorem of_isEmpty (none : ∀ outcome, ¬ possible outcome) : Weighs worth possible bound := by
  intro outcomes all
  have empty : outcomes = ∅ := Finset.eq_empty_of_forall_notMem fun outcome member =>
    none outcome (all outcome member)
  rw [empty, Finset.sum_empty]
  exact Nat.zero_le bound

/-- Fewer outcomes, worth less, and more room. -/
theorem imp {smaller : α → Nat} {fewer : α → Prop} {larger : Nat}
    (weighs : Weighs worth possible bound) (subset : ∀ outcome, fewer outcome → possible outcome)
    (less : ∀ outcome, fewer outcome → smaller outcome ≤ worth outcome) (room : bound ≤ larger) :
    Weighs smaller fewer larger := by
  intro outcomes all
  calc ∑ outcome ∈ outcomes, smaller outcome
      ≤ ∑ outcome ∈ outcomes, worth outcome :=
        Finset.sum_le_sum fun outcome member => less outcome (all outcome member)
    _ ≤ bound := weighs outcomes fun outcome member => subset outcome (all outcome member)
    _ ≤ larger := room

/-- The one outcome there is. -/
theorem single (only : α) (same : ∀ outcome, possible outcome → outcome = only)
    (fits : possible only → worth only ≤ bound) : Weighs worth possible bound := by
  intro outcomes all
  have subset : outcomes ⊆ {only} := fun outcome member =>
    Finset.mem_singleton.2 (same outcome (all outcome member))
  rcases Finset.subset_singleton_iff.1 subset with empty | one
  · rw [empty, Finset.sum_empty]
    exact Nat.zero_le bound
  · rw [one, Finset.sum_singleton]
    exact fits (all only (one ▸ Finset.mem_singleton_self only))

/-- Outcomes that each come from an outcome before. -/
theorem bind {before : β → Prop} {worthBefore : β → Nat} {next : β → α → Prop}
    (first : Weighs worthBefore before bound)
    (second : ∀ origin, before origin → Weighs worth (next origin) (worthBefore origin))
    (comes : ∀ outcome, possible outcome → ∃ origin, before origin ∧ next origin outcome) :
    Weighs worth possible bound := by
  classical
  intro outcomes all
  rcases outcomes.eq_empty_or_nonempty with empty | ⟨some, member⟩
  · rw [empty, Finset.sum_empty]
    exact Nat.zero_le bound
  -- Each outcome comes from one origin; those of the same origin weigh no more than it is worth.
  have : Nonempty β := ⟨(comes some (all some member)).choose⟩
  choose! origin isBefore isNext using comes
  have mapped : ∀ outcome ∈ outcomes, origin outcome ∈ outcomes.image origin :=
    fun outcome member => Finset.mem_image_of_mem origin member
  have origins : ∀ other ∈ outcomes.image origin, before other := by
    intro other member
    obtain ⟨outcome, inside, rfl⟩ := Finset.mem_image.1 member
    exact isBefore outcome (all outcome inside)
  rw [← Finset.sum_fiberwise_of_maps_to mapped worth]
  refine (Finset.sum_le_sum fun other member => ?_).trans (first _ origins)
  refine second other (origins other member) _ fun outcome inFiber => ?_
  obtain ⟨inside, same⟩ := Finset.mem_filter.1 inFiber
  exact same ▸ isNext outcome (all outcome inside)

/-- Outcomes that are read off outcomes before. -/
theorem map {before : β → Prop} {worthBefore : β → Nat} (first : Weighs worthBefore before bound)
    (change : β → α) (less : ∀ origin, before origin → worth (change origin) ≤ worthBefore origin)
    (comes : ∀ outcome, possible outcome → ∃ origin, before origin ∧ outcome = change origin) :
    Weighs worth possible bound :=
  first.bind (fun origin isBefore => single (change origin) (fun _ same => same)
    fun _ => less origin isBefore) comes

/-- Outcomes that come from one of several sets. -/
theorem union {count : Nat} {sets : Nat → α → Prop} {bounds : Nat → Nat}
    (each : ∀ index < count, Weighs worth (sets index) (bounds index))
    (comes : ∀ outcome, possible outcome → ∃ index < count, sets index outcome)
    (room : ∑ index ∈ Finset.range count, bounds index ≤ bound) : Weighs worth possible bound := by
  have first : Weighs bounds (· < count) bound := by
    intro indices all
    refine le_trans ?_ room
    exact Finset.sum_le_sum_of_subset fun index member => Finset.mem_range.2 (all index member)
  exact first.bind each comes

/-- A factor on all worths is one on the bound. -/
theorem scale (factor : Nat) (weighs : Weighs worth possible bound) :
    Weighs (fun outcome => factor * worth outcome) possible (factor * bound) := by
  intro outcomes all
  rw [← Finset.mul_sum]
  exact Nat.mul_le_mul_left factor (weighs outcomes all)

/-- Different values that outcomes worth something show are at most as many as the bound. -/
theorem length_le {values : List β} {shows : β → α → Prop} (weighs : Weighs worth possible bound)
    (distinct : values.Nodup) (positive : ∀ outcome, possible outcome → 1 ≤ worth outcome)
    (shown : ∀ value ∈ values, ∃ outcome, possible outcome ∧ shows value outcome)
    (functional : ∀ first second outcome, shows first outcome → shows second outcome →
      first = second) : values.length ≤ bound := by
  classical
  rcases values with _ | ⟨value, rest⟩
  · exact Nat.zero_le bound
  have : Nonempty α := ⟨(shown value (List.mem_cons_self ..)).choose⟩
  generalize value :: rest = values at distinct shown
  choose! outcome isPossible isShown using shown
  have injective : ∀ first ∈ values, ∀ second ∈ values, outcome first = outcome second →
      first = second := fun first member second other same =>
    functional first second (outcome first) (isShown first member) (same ▸ isShown second other)
  have card : (values.toFinset.image outcome).card = values.length := by
    rw [Finset.card_image_of_injOn, List.toFinset_card_of_nodup distinct]
    intro first member second other same
    exact injective first (List.mem_toFinset.1 member) second (List.mem_toFinset.1 other) same
  have all : ∀ other ∈ values.toFinset.image outcome, possible other := by
    intro other member
    obtain ⟨value, inside, rfl⟩ := Finset.mem_image.1 member
    exact isPossible value (List.mem_toFinset.1 inside)
  calc values.length = ∑ _outcome ∈ values.toFinset.image outcome, 1 := by
        rw [← card, Finset.card_eq_sum_ones]
    _ ≤ ∑ other ∈ values.toFinset.image outcome, worth other :=
        Finset.sum_le_sum fun other member => positive other (all other member)
    _ ≤ bound := weighs _ all

end Weighs

end BranchText
