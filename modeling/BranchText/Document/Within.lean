import BranchText.Document.Basic

/-!
# The nodes within a document

All nodes of a tree, nested ones included, in the order of the text.
-/

namespace BranchText

mutual

/-- The nodes within a choice. -/
def Choice.within : Choice → List Node
  | .nodes nodes => nodesWithin nodes
  | .script _ => []
  | .call _ => []

/-- The nodes within a node, itself first. -/
def Node.within : Node → List Node
  | .text content => [.text content]
  | .fork ⟨identifier, silent, isSet, branches, span⟩ =>
    .fork ⟨identifier, silent, isSet, branches, span⟩ :: withinBranches branches
  | .reference ⟨target, identifier, silent, mappings, fallback, reruns, span⟩ =>
    .reference ⟨target, identifier, silent, mappings, fallback, reruns, span⟩ ::
      (withinMappings mappings ++ withinFallback fallback)

/-- The nodes within a sequence. -/
def nodesWithin : List Node → List Node
  | [] => []
  | node :: rest => node.within ++ nodesWithin rest

/-- The nodes within entries. -/
def withinBranches : List Branch → List Node
  | [] => []
  | ⟨choice, _⟩ :: rest => choice.within ++ withinBranches rest

/-- The nodes within mappings. -/
def withinMappings : List Mapping → List Node
  | [] => []
  | ⟨_, choice⟩ :: rest => choice.within ++ withinMappings rest

/-- The nodes within a fallback. -/
def withinFallback : Option Choice → List Node
  | none => []
  | some choice => choice.within

end

theorem Node.self_mem_within (node : Node) : node ∈ node.within := by
  match node with
  | .text _ => simp [within]
  | .fork ⟨_, _, _, _, _⟩ => simp [within]
  | .reference ⟨_, _, _, _, _, _, _⟩ => simp [within]

/-- A node of a sequence is within it, with everything within the node. -/
theorem within_subset_of_mem {node : Node} {nodes : List Node} (member : node ∈ nodes) :
    node.within ⊆ nodesWithin nodes := by
  induction nodes with
  | nil => cases member
  | cons first rest ih =>
    rw [nodesWithin]
    rcases List.mem_cons.1 member with rfl | later
    · exact List.subset_append_left ..
    · exact fun inner inside => List.mem_append_right _ (ih later inside)

/-- The choice of a branch is within the branches. -/
theorem within_subset_of_branch {branch : Branch} {branches : List Branch}
    (member : branch ∈ branches) : branch.choice.within ⊆ withinBranches branches := by
  induction branches with
  | nil => cases member
  | cons first rest ih =>
    obtain ⟨choice, weight⟩ := first
    rw [withinBranches]
    rcases List.mem_cons.1 member with rfl | later
    · exact List.subset_append_left ..
    · exact fun inner inside => List.mem_append_right _ (ih later inside)

/-- The choice of a mapping is within the mappings. -/
theorem within_subset_of_mapping {mapping : Mapping} {mappings : List Mapping}
    (member : mapping ∈ mappings) : mapping.choice.within ⊆ withinMappings mappings := by
  induction mappings with
  | nil => cases member
  | cons first rest ih =>
    obtain ⟨branch, choice⟩ := first
    rw [withinMappings]
    rcases List.mem_cons.1 member with rfl | later
    · exact List.subset_append_left ..
    · exact fun inner inside => List.mem_append_right _ (ih later inside)

/-- A branch of a fork is within the fork. -/
theorem Fork.branch_within {fork : Fork} {branch : Branch} (member : branch ∈ fork.branches) :
    branch.choice.within ⊆ (Node.fork fork).within := by
  obtain ⟨identifier, silent, isSet, branches, span⟩ := fork
  exact fun inner inside => List.mem_cons_of_mem _ (within_subset_of_branch member inside)

/-- The fallback of a reference is within it. -/
theorem Reference.fallback_within {reference : Reference} {choice : Choice}
    (found : reference.fallback = some choice) :
    choice.within ⊆ (Node.reference reference).within := by
  obtain ⟨target, identifier, silent, mappings, fallback, reruns, span⟩ := reference
  intro inner inside
  refine List.mem_cons_of_mem _ (List.mem_append_right _ ?_)
  simp only at found
  rw [found]
  exact inside

/-- What a reference maps a branch to is within it, and so is what it has for the others. -/
theorem Reference.answer_within {reference : Reference} {index : Nat} {choice : Choice}
    (found : (reference.mapping? index).or reference.fallback = some choice) :
    choice.within ⊆ (Node.reference reference).within := by
  rcases Option.or_eq_some_iff.1 found with mapped | ⟨-, fallen⟩
  · obtain ⟨target, identifier, silent, mappings, fallback, reruns, span⟩ := reference
    intro inner inside
    simp only [mapping?, Option.map_eq_some_iff] at mapped
    obtain ⟨mapping, listed, rfl⟩ := mapped
    exact List.mem_cons_of_mem _ (List.mem_append_left _
      (within_subset_of_mapping (List.mem_of_find?_eq_some listed) inside))
  · exact Reference.fallback_within fallen

mutual

/-- What is within a node of a sequence is within the sequence. -/
theorem within_subset_nodesWithin (nodes : List Node) :
    ∀ node ∈ nodesWithin nodes, node.within ⊆ nodesWithin nodes := by
  match nodes with
  | [] => simp [nodesWithin]
  | first :: rest =>
    rw [nodesWithin]
    intro node member
    rcases List.mem_append.1 member with inFirst | inRest
    · exact fun inner inside => List.mem_append_left _
        (within_subset_within first node inFirst inside)
    · exact fun inner inside => List.mem_append_right _
        (within_subset_nodesWithin rest node inRest inside)

theorem within_subset_within (first : Node) :
    ∀ node ∈ first.within, node.within ⊆ first.within := by
  match first with
  | .text content =>
    intro node member
    rw [Node.within, List.mem_singleton] at member
    rw [member]
    exact fun _ inside => inside
  | .fork ⟨identifier, silent, isSet, branches, span⟩ =>
    intro node member
    rw [Node.within] at member
    rcases List.mem_cons.1 member with rfl | inside
    · exact fun _ inside => inside
    · rw [Node.within]
      exact fun inner innermost => List.mem_cons_of_mem _
        (within_subset_withinBranches branches node inside innermost)
  | .reference ⟨target, identifier, silent, mappings, fallback, reruns, span⟩ =>
    intro node member
    rw [Node.within] at member
    rcases List.mem_cons.1 member with rfl | inside
    · exact fun _ inside => inside
    · rw [Node.within]
      intro inner innermost
      refine List.mem_cons_of_mem _ (List.mem_append.2 ?_)
      rcases List.mem_append.1 inside with inMappings | inFallback
      · exact .inl (within_subset_withinMappings mappings node inMappings innermost)
      · exact .inr (within_subset_withinFallback fallback node inFallback innermost)

theorem within_subset_choice (choice : Choice) :
    ∀ node ∈ choice.within, node.within ⊆ choice.within := by
  match choice with
  | .nodes nodes => exact within_subset_nodesWithin nodes
  | .script _ => simp [Choice.within]
  | .call _ => simp [Choice.within]

theorem within_subset_withinBranches (branches : List Branch) :
    ∀ node ∈ withinBranches branches, node.within ⊆ withinBranches branches := by
  match branches with
  | [] => simp [withinBranches]
  | ⟨choice, _⟩ :: rest =>
    rw [withinBranches]
    intro node member
    rcases List.mem_append.1 member with inFirst | inRest
    · exact fun inner inside => List.mem_append_left _
        (within_subset_choice choice node inFirst inside)
    · exact fun inner inside => List.mem_append_right _
        (within_subset_withinBranches rest node inRest inside)

theorem within_subset_withinMappings (mappings : List Mapping) :
    ∀ node ∈ withinMappings mappings, node.within ⊆ withinMappings mappings := by
  match mappings with
  | [] => simp [withinMappings]
  | ⟨_, choice⟩ :: rest =>
    rw [withinMappings]
    intro node member
    rcases List.mem_append.1 member with inFirst | inRest
    · exact fun inner inside => List.mem_append_left _
        (within_subset_choice choice node inFirst inside)
    · exact fun inner inside => List.mem_append_right _
        (within_subset_withinMappings rest node inRest inside)

theorem within_subset_withinFallback (fallback : Option Choice) :
    ∀ node ∈ withinFallback fallback, node.within ⊆ withinFallback fallback := by
  match fallback with
  | none => simp [withinFallback]
  | some choice => exact within_subset_choice choice

end

end BranchText
