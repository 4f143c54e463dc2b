import BranchText.Proofs.Document.References
import Mathlib.Data.Finset.Card
import Mathlib.Data.Finset.Dedup
import Mathlib.Order.RelClasses

/-!
# Names in order

An order on names says which forks a document needs before others. What is asked of it for the
references inside the branches of a fork, and inside what a reference renders, is not all that
counting needs: whatever a reference renders is counted with each fork that it reads, and executing
a target again is counted with the branches of the target, the forks in them included. Behind
`{A: ({B: (b)})}`, counting does not end for `{@B: 0 -> ({eval @A})}`. Nor does it if the reader
reads another name for the fork, as in `{C: @B}{@C: 0 -> ({eval @A})}`, if the target is another
name, as in `{Z: @A}{@B: 0 -> ({eval @Z})}`, or if another fork is in between, as in
`{@B: 0 -> ({X: (x)})}{@X: 0 -> ({eval @A})}`.

Only the names in the document matter, so the order can be replaced by the heights of the names.
-/

namespace BranchText

/-- The name whose forks are counted with a node: the one that a fork declares, or the target that a
reference executes again. -/
def Node.enters? : Node → Option String
  | .text _ => none
  | .fork point => point.identifier
  | .reference look => if look.reruns then some look.target else none

/-- The names that an order has to place for a node. -/
def Node.mentions : Node → List String
  | .text _ => []
  | .fork point => point.identifier.toList
  | .reference look => [look.target]

theorem Node.mem_mentions {node : Node} {name : String} (enters : node.enters? = some name) :
    name ∈ node.mentions := by
  cases node with
  | text => cases enters
  | fork point => exact Option.mem_toList.2 enters
  | reference look =>
    rw [enters?] at enters
    split at enters
    · cases enters
      exact List.mem_singleton_self _
    · cases enters

/-- References within what a name stands for refer to names that are below it. -/
structure RefersBelow (root : List Node) (below : String → String → Prop) : Prop where
  branches : ∀ {fork : Fork} {name : String}, .fork fork ∈ nodesWithin root →
    fork.identifier = some name →
      ∀ {inner : Reference}, .reference inner ∈ withinBranches fork.branches →
        below inner.target name
  rendered : ∀ {reference : Reference} {name : String}, .reference reference ∈ nodesWithin root →
    reference.identifier = some name →
      ∀ {inner : Reference}, .reference inner ∈ reference.nested → below inner.target name

/-- Besides, a reference is above the name it refers to, a fork is above the forks in its branches,
and nothing that is counted with the readers of a fork is above the fork. -/
structure CountsBelow (root : List Node) (below : String → String → Prop) : Prop extends
    RefersBelow root below where
  targets : ∀ {reference : Reference} {name : String}, .reference reference ∈ nodesWithin root →
    reference.identifier = some name → below reference.target name
  declared : ∀ {fork : Fork} {name : String}, .fork fork ∈ nodesWithin root →
    fork.identifier = some name →
      ∀ {inner : Fork} {other : String}, .fork inner ∈ withinBranches fork.branches →
        inner.identifier = some other → below other name
  readers : ∀ {reference : Reference} {fork : Fork} {name : String},
    .reference reference ∈ nodesWithin root → Denotes root reference.target fork →
      fork.identifier = some name →
        ∀ {node : Node} {other : String}, node ∈ reference.nested → node.enters? = some other →
          other = name ∨ below other name

/-- The names have heights that say where counting leads. -/
structure Heights (root : List Node) (height : String → Nat) : Prop where
  branches : ∀ {fork : Fork} {name : String}, .fork fork ∈ nodesWithin root →
    fork.identifier = some name →
      ∀ {node : Node} {other : String}, node ∈ withinBranches fork.branches →
        node.enters? = some other → height other < height name
  targets : ∀ {reference : Reference} {name : String}, .reference reference ∈ nodesWithin root →
    reference.identifier = some name → height reference.target < height name
  readers : ∀ {reference : Reference} {fork : Fork} {name : String},
    .reference reference ∈ nodesWithin root → Denotes root reference.target fork →
      fork.identifier = some name →
        ∀ {node : Node} {other : String}, node ∈ reference.nested → node.enters? = some other →
          height other ≤ height name

/-- A name is at least as high as the forks that it may stand for. -/
theorem Heights.le_of_denotes {root : List Node} {height : String → Nat}
    (heights : Heights root height) {name own : String} {fork : Fork}
    (denotes : Denotes root name fork) (identifier : fork.identifier = some own) :
    height own ≤ height name := by
  induction denotes with
  | declared _ declares =>
    rw [declares] at identifier
    cases identifier
    exact Nat.le_refl _
  | named within declares _ ih =>
    exact (ih identifier).trans (heights.targets within declares).le

/-- A strict order gives each name a height, which counts the names of a list that are below. -/
theorem exists_height (below : String → String → Prop) [IsStrictOrder String below]
    (names : List String) :
    ∃ (height : String → Nat) (bound : Nat), (∀ name, height name < bound) ∧
      ∀ lower ∈ names, ∀ upper, below lower upper → height lower < height upper := by
  classical
  let under (upper : String) : Finset String := names.toFinset.filter (below · upper)
  refine ⟨fun upper => (under upper).card, names.toFinset.card + 1,
    fun name => Nat.lt_succ_of_le (Finset.card_le_card (Finset.filter_subset ..)),
    fun lower listed upper less => Finset.card_lt_card ⟨fun other member => ?_, fun subset => ?_⟩⟩
  · obtain ⟨known, first⟩ := Finset.mem_filter.1 member
    exact Finset.mem_filter.2 ⟨known, trans_of below first less⟩
  · have itself : lower ∈ under upper :=
      Finset.mem_filter.2 ⟨List.mem_toFinset.2 listed, less⟩
    exact irrefl_of below lower (Finset.mem_filter.1 (subset itself)).2

theorem CountsBelow.exists_heights {root : List Node} {below : String → String → Prop}
    [IsStrictOrder String below] (ordered : CountsBelow root below) :
    ∃ (height : String → Nat) (bound : Nat), Heights root height ∧ ∀ name, height name < bound := by
  obtain ⟨height, bound, bounded, less⟩ :=
    exists_height below ((nodesWithin root).flatMap Node.mentions)
  have lower : ∀ {node : Node} {name upper : String}, node ∈ nodesWithin root →
      name ∈ node.mentions → below name upper → height name < height upper :=
    fun within mentioned => less _ (List.mem_flatMap.2 ⟨_, within, mentioned⟩) _
  refine ⟨height, bound, ⟨?branches, ?targets, ?readers⟩, bounded⟩
  case branches =>
    intro fork name within identifier node other inside enters
    have insideRoot : node ∈ nodesWithin root := by
      refine within_subset_nodesWithin root _ within ?_
      obtain ⟨_, _, _, branches, _⟩ := fork
      exact List.mem_cons_of_mem _ inside
    refine lower insideRoot (Node.mem_mentions enters) ?_
    cases node with
    | text => cases enters
    | fork inner => exact ordered.declared within identifier inside enters
    | reference inner =>
      have target : other = inner.target := List.mem_singleton.1 (Node.mem_mentions enters)
      rw [target]
      exact ordered.branches within identifier inside
  case targets =>
    intro reference name within identifier
    exact lower within (List.mem_singleton_self _) (ordered.targets within identifier)
  case readers =>
    intro reference fork name within denotes identifier node other inside enters
    have insideRoot : node ∈ nodesWithin root := by
      refine within_subset_nodesWithin root _ within ?_
      rw [Reference.within_reference]
      exact List.mem_cons_of_mem _ inside
    rcases ordered.readers within denotes identifier inside enters with rfl | less
    · exact Nat.le_refl _
    · exact (lower insideRoot (Node.mem_mentions enters) less).le

end BranchText
