import BranchText.Proofs.Document.Parts
import Mathlib.Logic.Relation

/-!
# How the nodes of a document refer to each other

A name stands for the forks that declare it and, if a reference declares it, for what the target of
the reference stands for. Rendering nodes runs the nodes within them, and the branches of the forks
that references draw from.

Where references form no cycle, no reference to a fork runs while one of its branches is rendered.
-/

namespace BranchText

/-- The name that a node declares. -/
def Node.name? : Node → Option String
  | .text _ => none
  | .fork point => point.identifier
  | .reference look => look.identifier

/-- The names that are declared by the nodes. -/
def namesOf (nodes : List Node) : List String := nodes.filterMap Node.name?

theorem mem_namesOf {nodes : List Node} {name : String} :
    name ∈ namesOf nodes ↔ ∃ node ∈ nodes, node.name? = some name := List.mem_filterMap

theorem namesOf_cons (node : Node) (rest : List Node) :
    namesOf (node :: rest) = node.name?.toList ++ namesOf rest := by
  rw [namesOf, List.filterMap_cons]
  cases node.name? <;> rfl

@[simp]
theorem namesOf_append (front back : List Node) :
    namesOf (front ++ back) = namesOf front ++ namesOf back := List.filterMap_append ..

theorem nodesWithin_append (front back : List Node) :
    nodesWithin (front ++ back) = nodesWithin front ++ nodesWithin back := by
  induction front with
  | nil => rfl
  | cons node rest ih => rw [List.cons_append, nodesWithin, nodesWithin, ih, List.append_assoc]

namespace Reference

/-- What a reference renders for a branch of its target. -/
def answer? (reference : Reference) (index : Nat) : Option Choice :=
  (reference.mapping? index).or reference.fallback

/-- The nodes within what a reference may render. -/
def nested (reference : Reference) : List Node :=
  withinMappings reference.mappings ++ withinFallback reference.fallback

/-- Everything that a reference may render. -/
def choices (reference : Reference) : List Choice :=
  reference.mappings.map (·.choice) ++ reference.fallback.toList

variable {reference : Reference} {choice : Choice}

theorem mem_choices_of_fallback (found : reference.fallback = some choice) :
    choice ∈ reference.choices := List.mem_append_right _ (Option.mem_toList.2 found)

theorem mem_choices_of_answer? {index : Nat} (found : reference.answer? index = some choice) :
    choice ∈ reference.choices := by
  rcases Option.or_eq_some_iff.1 found with mapped | ⟨-, fallen⟩
  · obtain ⟨mapping, listed, rfl⟩ := Option.map_eq_some_iff.1 mapped
    exact List.mem_append_left _ (List.mem_map_of_mem (List.mem_of_find?_eq_some listed))
  · exact mem_choices_of_fallback fallen

theorem within_reference (reference : Reference) :
    (Node.reference reference).within = .reference reference :: reference.nested := by
  obtain ⟨target, identifier, silent, mappings, fallback, reruns, span⟩ := reference
  rfl

theorem choice_nested (member : choice ∈ reference.choices) :
    choice.within ⊆ reference.nested := by
  rcases List.mem_append.1 member with mapped | fallen
  · obtain ⟨mapping, listed, rfl⟩ := List.mem_map.1 mapped
    exact fun inner inside => List.mem_append_left _ (within_subset_of_mapping listed inside)
  · intro inner inside
    refine List.mem_append_right _ ?_
    rw [Option.mem_toList.1 fallen]
    exact inside

theorem choice_within (member : choice ∈ reference.choices) :
    choice.within ⊆ (Node.reference reference).within := by
  rw [within_reference]
  exact fun inner inside => List.mem_cons_of_mem _ (choice_nested member inside)

/-- A reference that repeats its target has nothing of its own to render. -/
theorem answer?_of_isCopy (copies : reference.isCopy = true) (index : Nat) :
    reference.answer? index = none := by
  rw [isCopy, Bool.and_eq_true, List.isEmpty_iff, Option.isNone_iff_eq_none] at copies
  rw [answer?, mapping?, copies.1, copies.2]
  rfl

end Reference

/-! ## Names and forks -/

/-- A node with the name refers to the other name, or holds a reference that does. -/
def Refers (root : List Node) (name target : String) : Prop :=
  ∃ node ∈ nodesWithin root, node.name? = some name ∧
    ∃ reference, .reference reference ∈ node.within ∧ reference.target = target

/-- References form no cycle. -/
def Acyclic (root : List Node) : Prop := ∀ name, ¬ Relation.TransGen (Refers root) name name

/-- A name may stand for a fork. -/
inductive Denotes (root : List Node) : String → Fork → Prop
  | declared {name : String} {fork : Fork} (within : .fork fork ∈ nodesWithin root)
    (identifier : fork.identifier = some name) : Denotes root name fork
  | named {name : String} {reference : Reference} {fork : Fork}
    (within : .reference reference ∈ nodesWithin root)
    (identifier : reference.identifier = some name) (target : Denotes root reference.target fork) :
    Denotes root name fork

/-- A reference may draw from a fork: because it executes its target again, or because the fork
waits for its first reference. -/
structure Draws (root : List Node) (reference : Reference) (fork : Fork) : Prop where
  denotes : Denotes root reference.target fork
  executes : reference.reruns = true ∨ (fork.silent = true ∧ fork.isSet = true)

/-- A node may be reached while the nodes are rendered. -/
inductive Runs (root nodes : List Node) : Node → Prop
  | within {node : Node} (member : node ∈ nodesWithin nodes) : Runs root nodes node
  | drawn {reference : Reference} {fork : Fork} {node : Node}
    (runs : Runs root nodes (.reference reference)) (draws : Draws root reference fork)
    (member : node ∈ withinBranches fork.branches) : Runs root nodes node

section Runs

variable {root nodes : List Node}

theorem Runs.mono {part : List Node} (runs : ∀ node ∈ nodesWithin part, Runs root nodes node)
    {node : Node} (reached : Runs root part node) : Runs root nodes node := by
  induction reached with
  | within member => exact runs _ member
  | drawn _ draws member ih => exact .drawn ih draws member

/-- A name leads to one of the names of each fork that it may stand for. -/
theorem Denotes.refers {name : String} {fork : Fork} (denotes : Denotes root name fork) :
    ∃ own, fork.identifier = some own ∧ .fork fork ∈ nodesWithin root ∧
      Relation.ReflTransGen (Refers root) name own := by
  induction denotes with
  | declared within identifier => exact ⟨_, identifier, within, .refl⟩
  | named within identifier _ ih =>
    obtain ⟨own, ownIdentifier, forkWithin, leads⟩ := ih
    exact ⟨own, ownIdentifier, forkWithin,
      .head ⟨_, within, identifier, _, Node.self_mem_within _, rfl⟩ leads⟩

theorem Denotes.within {name : String} {fork : Fork} (denotes : Denotes root name fork) :
    .fork fork ∈ nodesWithin root := by
  obtain ⟨_, _, within, _⟩ := denotes.refers
  exact within

/-- A name leads to every name that is referred to while a branch of its forks is rendered. -/
theorem Denotes.leads {name : String} {fork : Fork} (denotes : Denotes root name fork)
    {nodes : List Node} (inside : nodesWithin nodes ⊆ withinBranches fork.branches)
    {node : Node} (runs : Runs root nodes node) {reference : Reference}
    (same : node = .reference reference) :
    Relation.TransGen (Refers root) name reference.target := by
  -- A name that leads to a fork leads to the targets of all references in its branches.
  have step : ∀ {name : String} {fork : Fork} {reference : Reference}, Denotes root name fork →
      .reference reference ∈ withinBranches fork.branches →
        Relation.TransGen (Refers root) name reference.target := by
    intro name fork reference denotes member
    obtain ⟨own, identifier, within, leads⟩ := denotes.refers
    refine .tail' leads ⟨_, within, identifier, reference, ?_, rfl⟩
    obtain ⟨_, _, _, branches, _⟩ := fork
    exact List.mem_cons_of_mem _ member
  induction runs generalizing reference with
  | within member =>
    subst same
    exact step denotes (inside member)
  | drawn _ draws member ih =>
    subst same
    exact (ih rfl).trans (step draws.denotes member)

/-- No reference to a name runs while a branch of what it stands for is rendered. -/
theorem Denotes.target_ne (acyclic : Acyclic root) {name : String} {fork : Fork}
    (denotes : Denotes root name fork) {nodes : List Node}
    (inside : nodesWithin nodes ⊆ withinBranches fork.branches) {reference : Reference}
    (runs : Runs root nodes (.reference reference)) : reference.target ≠ name := by
  rintro rfl
  exact acyclic _ (denotes.leads inside runs rfl)

end Runs

/-! ## Sequences -/

/-- The sequence that a choice is, if it is one. -/
def Choice.sequence? : Choice → Option (List Node)
  | .nodes among => some among
  | .script _ => none
  | .call _ => none

/-- The sequences that a node holds. -/
def Node.sequences : Node → List (List Node)
  | .text _ => []
  | .fork point => point.branches.filterMap (·.choice.sequence?)
  | .reference look => look.choices.filterMap (·.sequence?)

/-- The sequences of a document, itself first. -/
def sequences (root : List Node) : List (List Node) :=
  root :: (nodesWithin root).flatMap Node.sequences

section Sequences

variable {root nodes : List Node}

theorem mem_sequences_of_branch {fork : Fork} (within : .fork fork ∈ nodesWithin root)
    {branch : Branch} (member : branch ∈ fork.branches) (same : branch.choice = .nodes nodes) :
    nodes ∈ sequences root := by
  refine List.mem_cons_of_mem _ (List.mem_flatMap.2 ⟨_, within, ?_⟩)
  exact List.mem_filterMap.2 ⟨branch, member, by rw [same]; rfl⟩

theorem mem_sequences_of_choice {reference : Reference}
    (within : .reference reference ∈ nodesWithin root)
    (member : Choice.nodes nodes ∈ reference.choices) : nodes ∈ sequences root :=
  List.mem_cons_of_mem _ (List.mem_flatMap.2 ⟨_, within, List.mem_filterMap.2 ⟨_, member, rfl⟩⟩)

/-- The nodes of a sequence of the document are nodes of the document. -/
theorem nodesWithin_subset_of_mem_sequences (member : nodes ∈ sequences root) :
    nodesWithin nodes ⊆ nodesWithin root := by
  rcases List.mem_cons.1 member with rfl | inside
  · exact List.Subset.refl _
  · obtain ⟨node, within, listed⟩ := List.mem_flatMap.1 inside
    refine List.Subset.trans ?_ (within_subset_nodesWithin root node within)
    have whole : ∀ {choice : Choice}, choice.sequence? = some nodes →
        nodesWithin nodes = choice.within := by
      intro choice same
      cases choice <;> cases same
      rfl
    cases node with
    | text content => cases listed
    | fork fork =>
      obtain ⟨branch, member, same⟩ := List.mem_filterMap.1 listed
      rw [whole same]
      exact Fork.branch_within member
    | reference reference =>
      obtain ⟨choice, member, same⟩ := List.mem_filterMap.1 listed
      rw [whole same]
      exact Reference.choice_within member

end Sequences

end BranchText
