import BranchText.Proofs.Chance.ExactWeights
import BranchText.Proofs.Reading.Nested

/-!
# The normal form of documents

The sequences of a document that was read hold no empty text and no two texts side by side: text is
gathered until a fork or a reference ends it, and blocks that make no node leave it to be joined.
The forks have branches, whose weights are those that were written, or equal parts of what they
leave of the mass of a fork.
-/

namespace BranchText

/-! ## Texts -/

/-- Whether a node is literal text. -/
def Node.isText : Node → Bool
  | .text _ => true
  | .fork _ => false
  | .reference _ => false

/-- No text is empty, and no two texts stand side by side. -/
structure Tidy (nodes : List Node) : Prop where
  filled : ∀ content, .text content ∈ nodes → content ≠ ""
  apart : nodes.IsChain fun one other => ¬ (one.isText = true ∧ other.isText = true)

section Tidy

variable {nodes rest : List Node}

theorem tidy_nil : Tidy [] := ⟨fun _ => (absurd · List.not_mem_nil), .nil⟩

/-- Behind a node of another kind, text goes on as before. -/
theorem Tidy.cons (tidy : Tidy nodes) {node : Node} (other : node.isText = false) :
    Tidy (node :: nodes) := by
  refine ⟨fun content member => ?_, List.isChain_cons.2 ⟨fun next _ both => ?_, tidy.apart⟩⟩
  · rcases List.mem_cons.1 member with rfl | later
    · cases other
    · exact tidy.filled content later
  · rw [other] at both
    cases both.1

/-- Text may stand where no text stands next to it. -/
theorem Tidy.text (tidy : Tidy nodes) {content : String} (filled : content ≠ "")
    (other : ∀ next ∈ nodes.head?, next.isText = false) : Tidy (.text content :: nodes) := by
  refine ⟨fun found member => ?_, List.isChain_cons.2 ⟨fun next first both => ?_, tidy.apart⟩⟩
  · rcases List.mem_cons.1 member with same | later
    · cases same
      exact filled
    · exact tidy.filled found later
  · rw [other next first] at both
    cases both.2

theorem Tidy.reverse (tidy : Tidy nodes) : Tidy nodes.reverse :=
  ⟨fun content member => tidy.filled content (List.mem_reverse.1 member),
    List.isChain_reverse.2 (tidy.apart.imp fun _ _ apart both => apart both.symm)⟩

end Tidy

/-- Text that is flushed is joined to the text before it, and no text makes no node. -/
theorem Passage.tidy_flush {passage : Passage} (tidy : Tidy passage.nodes) :
    Tidy passage.flush := by
  unfold flush
  split
  · exact tidy
  rename_i gathered
  have filled : passage.text ≠ "" := by simpa using gathered
  split
  · rename_i before rest same
    rw [same] at tidy
    obtain ⟨next, chain⟩ := List.isChain_cons.1 tidy.apart
    have behind : Tidy rest :=
      ⟨fun content member => tidy.filled content (List.mem_cons_of_mem _ member), chain⟩
    refine behind.text (by simp [filled]) fun node first => ?_
    rw [← Bool.not_eq_true]
    exact fun text => next node first ⟨rfl, text⟩
  · rename_i noText
    refine tidy.text filled fun node first => ?_
    cases nodes : passage.nodes with
    | nil =>
      rw [nodes] at first
      cases first
    | cons found rest =>
      rw [nodes] at first
      cases first
      cases node with
      | text before => exact absurd nodes (noText before rest)
      | fork fork => rfl
      | reference reference => rfl

section Relations

variable {source : List Char} {first last start stop : Nat}

theorem IsNode.isText {node : Node} (here : IsNode source node start stop) :
    node.isText = false := by
  cases here <;> rfl

/-- The nodes of a passage are tidy, whatever text is gathered behind them. -/
theorem IsPassage.tidy {passage : Passage} {first last : Nat}
    (read : IsPassage source passage first last) : Tidy passage.nodes := by
  induction read using IsPassage.along with
  | empty => exact tidy_nil
  | text before content order ih => exact ih
  | nothing before order ih => exact Passage.tidy_flush ih
  | node before behind here order ih => exact (Passage.tidy_flush ih).cons here.isText

end Relations

/-! ## Weights -/

namespace Fork

/-- What each branch without a weight gets of the mass that the others leave. -/
def share (fork : Fork) : ℚ :=
  (100 - Weight.total (fork.written.filterMap id)) /
    (fork.branches.countP fun branch => branch.weight.isNone : Nat)

/-- A fork as it stands in its source: with branches, each with the weight that is written behind
it or with an equal share. -/
structure Normal (source : List Char) (fork : Fork) : Prop where
  filled : fork.branches ≠ []
  written : ∀ branch ∈ fork.branches, ∃ first last, fork.span.start < first ∧
    IsWeight source branch.weight first last ∧ last < fork.span.stop
  weights : (fork.deck : Deck ℚ).live = fork.branches.map fun branch =>
    (branch.weight.map WeightScale.ofDecimal).getD fork.share
  snapshot : (fork.deck : Deck ℚ).initial = (fork.deck : Deck ℚ).live
  total : none ∈ fork.branches.map (·.weight) → Weight.total (fork.deck : Deck ℚ).live = 100

/-- The deck of a fork gives written weights, and equal shares to the other branches. -/
theorem live_deck (fork : Fork) : (fork.deck : Deck ℚ).live = fork.branches.map fun branch =>
    (branch.weight.map WeightScale.ofDecimal).getD fork.share := by
  have missing : (fork.written : List (Option ℚ)).countP Option.isNone =
      fork.branches.countP fun branch => branch.weight.isNone := by
    rw [written, List.countP_map]
    exact List.countP_congr fun branch _ => by rw [Function.comp_apply, Option.isNone_map]
  have same : Weight.share (fork.written : List (Option ℚ)) = fork.share := by
    rw [Weight.share, share, missing]
    rfl
  rw [deck, Deck.full, Weight.normalize, same, written, List.map_map]
  rfl

/-- If a branch has no weight, the shares make up the mass of a fork. -/
theorem total_deck {fork : Fork} (missing : none ∈ fork.branches.map (·.weight)) :
    Weight.total (fork.deck : Deck ℚ).live = 100 := by
  refine Weight.total_normalize ?_
  obtain ⟨branch, listed, unwritten⟩ := List.mem_map.1 missing
  exact List.mem_map.2 ⟨branch, listed, by rw [unwritten]; rfl⟩

end Fork

namespace Document

variable {source : List Char} {document : Document}

/-- A fork whose last two branches have no weight. -/
def sharing : Fork :=
  ⟨none, false, false, [⟨.nodes [.text "p"], some ⟨60, 0⟩⟩, ⟨.nodes [.text "q"], none⟩,
    ⟨.nodes [], none⟩], ⟨14, 31⟩⟩

end Document

end BranchText
