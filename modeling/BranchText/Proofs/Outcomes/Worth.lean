import BranchText.Proofs.Outcomes.Possible
import BranchText.Proofs.Outcomes.Price

/-!
# What records are worth

While nodes are rendered, references still to come may add outcomes to what is recorded. What is due
for each branch of what a name stands for says how many; a record is worth what is due for its
branch. A set that waits to be drawn from is worth all its branches with what is due for them. What
is recorded under several names is worth the product.
-/

namespace BranchText

namespace Outcomes

variable {graph : Graph}

/-- How many outcomes are due for each branch of what a name stands for. -/
abbrev Dues := String → Nat → Nat

/-- What is due for the branches of a fork, with what they cost. -/
noncomputable def dueForAll (graph : Graph) (fork : Fork) (due : Nat → Nat) : Nat :=
  ∑ index ∈ Finset.range fork.branches.length, branchCost graph fork index * due index

/-- What a record is worth. -/
noncomputable def worthOf (graph : Graph) (due : Nat → Nat) : Option Taken → Nat
  | none => 1
  | some ⟨fork, none, _⟩ => max 1 (dueForAll graph fork due)
  | some ⟨_, some index, _⟩ => due index

/-- What is recorded under the names is worth. -/
noncomputable def worth (graph : Graph) (names : Finset String) (dues : Dues) (view : View) : Nat :=
  ∏ name ∈ names, worthOf graph (dues name) (view name)

/-- The names without one, if there is one. -/
def without (names : Finset String) : Option String → Finset String
  | none => names
  | some name => names.erase name

theorem ne_of_mem_without {names : Finset String} {name : Option String} {other : String}
    (member : other ∈ without names name) : name ≠ some other := by
  rintro rfl
  exact absurd rfl (Finset.ne_of_mem_erase member)

/-- What is due for a branch of what the name stands for, if it is one of the names. -/
def dueAt (names : Finset String) (dues : Dues) (name : Option String) (index : Nat) : Nat :=
  match name with
  | none => 1
  | some name => if name ∈ names then dues name index else 1

section Worth

variable {names : Finset String} {dues less : Dues} {view : View} {due fewer : Nat → Nat}

theorem worthOf_mono (le : ∀ index, fewer index ≤ due index) (taken : Option Taken) :
    worthOf graph fewer taken ≤ worthOf graph due taken := by
  match taken with
  | none => exact Nat.le_refl 1
  | some ⟨fork, none, _⟩ =>
    exact max_le_max_left 1 (Finset.sum_le_sum fun index _ => Nat.mul_le_mul_left _ (le index))
  | some ⟨_, some index, _⟩ => exact le index

theorem one_le_worthOf (positive : ∀ index, 1 ≤ due index) (taken : Option Taken) :
    1 ≤ worthOf graph due taken := by
  match taken with
  | none => exact Nat.le_refl 1
  | some ⟨fork, none, _⟩ => exact Nat.le_max_left ..
  | some ⟨_, some index, _⟩ => exact positive index

theorem worth_mono (le : ∀ name ∈ names, ∀ index, less name index ≤ dues name index) :
    worth graph names less view ≤ worth graph names dues view :=
  Finset.prod_le_prod' fun name member => worthOf_mono (le name member) (view name)

theorem one_le_worth (positive : ∀ name index, 1 ≤ dues name index) :
    1 ≤ worth graph names dues view :=
  Finset.one_le_prod' fun name _ => one_le_worthOf (positive name) (view name)

theorem worth_eq_mul {name : String} (member : name ∈ names) :
    worth graph names dues view =
      worthOf graph (dues name) (view name) * worth graph (names.erase name) dues view :=
  (Finset.mul_prod_erase names _ member).symm

/-- What is recorded under a name does not matter to the others. -/
theorem worth_without_named (name : Option String) (taken : Taken) :
    worth graph (without names name) dues (view.named name taken) =
      worth graph (without names name) dues view := by
  cases name with
  | none => rw [View.named_none]
  | some name =>
    refine Finset.prod_congr rfl fun other member => ?_
    rw [View.named_of_ne _ (ne_of_mem_without member)]

theorem worth_without_le (positive : ∀ name index, 1 ≤ dues name index) (name : Option String) :
    worth graph (without names name) dues view ≤ worth graph names dues view := by
  cases name with
  | none => exact Nat.le_refl _
  | some name =>
    exact Finset.prod_le_prod_of_subset_of_one_le' (Finset.erase_subset ..)
      fun other _ _ => one_le_worthOf (positive other) (view other)

/-- A record under a name is worth what it is worth itself, times the others. -/
theorem worth_named {name : Option String} {taken : Taken} {own : Nat} (one : 1 ≤ own)
    (le : ∀ other, name = some other → other ∈ names →
      worthOf graph (dues other) (some taken) ≤ own) :
    worth graph names dues (view.named name taken) ≤
      own * worth graph (without names name) dues view := by
  rw [← worth_without_named name taken]
  cases name with
  | none => exact Nat.le_mul_of_pos_left _ one
  | some name =>
    by_cases member : name ∈ names
    · rw [worth_eq_mul member, View.named_self]
      exact Nat.mul_le_mul_right _ (le name rfl member)
    · rw [without, Finset.erase_eq_of_notMem member]
      exact Nat.le_mul_of_pos_left _ one

end Worth

end Outcomes

end BranchText
