import BranchText.Document.Scripts
import BranchText.Document.Within

/-!
# Parts of a document

Whatever a fork or a reference of a document can render is a part of the document: its nodes are
within those of the document, and its script blocks are among those that the document lists.

A node declares its own name, at its place in the text.
-/

namespace BranchText

/-! ## Script blocks -/

/-- The blocks of a branch are blocks of the branches. -/
theorem scripts_subset_of_branch {branch : Branch} {branches : List Branch}
    (member : branch ∈ branches) : branch.choice.scripts ⊆ scriptsOfBranches branches := by
  induction branches with
  | nil => cases member
  | cons first rest ih =>
    obtain ⟨choice, weight⟩ := first
    rw [scriptsOfBranches]
    rcases List.mem_cons.1 member with rfl | later
    · exact List.subset_append_left ..
    · exact fun block listed => List.mem_append_right _ (ih later listed)

/-- The blocks of a mapping are blocks of the mappings. -/
theorem scripts_subset_of_mapping {mapping : Mapping} {mappings : List Mapping}
    (member : mapping ∈ mappings) : mapping.choice.scripts ⊆ scriptsOfMappings mappings := by
  induction mappings with
  | nil => cases member
  | cons first rest ih =>
    obtain ⟨branch, choice⟩ := first
    rw [scriptsOfMappings]
    rcases List.mem_cons.1 member with rfl | later
    · exact List.subset_append_left ..
    · exact fun block listed => List.mem_append_right _ (ih later listed)

mutual

/-- The blocks of a node within a sequence are blocks of the sequence. -/
theorem scripts_subset_scriptsOfNodes (nodes : List Node) :
    ∀ node ∈ nodesWithin nodes, node.scripts ⊆ scriptsOfNodes nodes := by
  match nodes with
  | [] => simp [nodesWithin]
  | first :: rest =>
    rw [nodesWithin, scriptsOfNodes]
    intro node member
    rcases List.mem_append.1 member with inFirst | inRest
    · exact fun block listed => List.mem_append_left _
        (scripts_subset_scripts first node inFirst listed)
    · exact fun block listed => List.mem_append_right _
        (scripts_subset_scriptsOfNodes rest node inRest listed)

theorem scripts_subset_scripts (first : Node) :
    ∀ node ∈ first.within, node.scripts ⊆ first.scripts := by
  match first with
  | .text content =>
    intro node member
    rw [Node.within, List.mem_singleton] at member
    rw [member]
    exact fun _ listed => listed
  | .fork ⟨identifier, silent, isSet, branches, span⟩ =>
    intro node member
    rw [Node.within] at member
    rcases List.mem_cons.1 member with rfl | inside
    · exact fun _ listed => listed
    · exact scripts_subset_scriptsOfBranches branches node inside
  | .reference ⟨target, identifier, silent, mappings, fallback, reruns, span⟩ =>
    intro node member
    rw [Node.within] at member
    rcases List.mem_cons.1 member with rfl | inside
    · exact fun _ listed => listed
    · rw [Node.scripts]
      intro block listed
      rcases List.mem_append.1 inside with inMappings | inFallback
      · exact List.mem_append_left _
          (scripts_subset_scriptsOfMappings mappings node inMappings listed)
      · exact List.mem_append_right _
          (scripts_subset_scriptsOfFallback fallback node inFallback listed)

theorem scripts_subset_choice (choice : Choice) :
    ∀ node ∈ choice.within, node.scripts ⊆ choice.scripts := by
  match choice with
  | .nodes nodes => exact scripts_subset_scriptsOfNodes nodes
  | .script _ => simp [Choice.within]
  | .call _ => simp [Choice.within]

theorem scripts_subset_scriptsOfBranches (branches : List Branch) :
    ∀ node ∈ withinBranches branches, node.scripts ⊆ scriptsOfBranches branches := by
  match branches with
  | [] => simp [withinBranches]
  | ⟨choice, _⟩ :: rest =>
    rw [withinBranches, scriptsOfBranches]
    intro node member
    rcases List.mem_append.1 member with inFirst | inRest
    · exact fun block listed => List.mem_append_left _
        (scripts_subset_choice choice node inFirst listed)
    · exact fun block listed => List.mem_append_right _
        (scripts_subset_scriptsOfBranches rest node inRest listed)

theorem scripts_subset_scriptsOfMappings (mappings : List Mapping) :
    ∀ node ∈ withinMappings mappings, node.scripts ⊆ scriptsOfMappings mappings := by
  match mappings with
  | [] => simp [withinMappings]
  | ⟨_, choice⟩ :: rest =>
    rw [withinMappings, scriptsOfMappings]
    intro node member
    rcases List.mem_append.1 member with inFirst | inRest
    · exact fun block listed => List.mem_append_left _
        (scripts_subset_choice choice node inFirst listed)
    · exact fun block listed => List.mem_append_right _
        (scripts_subset_scriptsOfMappings rest node inRest listed)

theorem scripts_subset_scriptsOfFallback (fallback : Option Choice) :
    ∀ node ∈ withinFallback fallback, node.scripts ⊆ scriptsOfFallback fallback := by
  match fallback with
  | none => simp [withinFallback]
  | some choice => exact scripts_subset_choice choice

end

/-! ## Choices -/

/-- The choice holds nothing that the nodes do not hold. -/
structure Choice.PartOf (choice : Choice) (nodes : List Node) : Prop where
  within : choice.within ⊆ nodesWithin nodes
  scripts : choice.scripts ⊆ scriptsOfNodes nodes

section PartOf

variable {nodes : List Node}

/-- The branches of a fork of a document are parts of the document. -/
theorem Fork.partOf_of_branch {fork : Fork} (within : .fork fork ∈ nodesWithin nodes)
    {branch : Branch} (member : branch ∈ fork.branches) : branch.choice.PartOf nodes where
  within := List.Subset.trans (Fork.branch_within member)
    (within_subset_nodesWithin nodes _ within)
  scripts := by
    have ofFork : branch.choice.scripts ⊆ (Node.fork fork).scripts := by
      obtain ⟨identifier, silent, isSet, branches, span⟩ := fork
      exact scripts_subset_of_branch member
    exact List.Subset.trans ofFork (scripts_subset_scriptsOfNodes nodes _ within)

/-- So is the fallback of a reference. -/
theorem Reference.partOf_of_fallback {reference : Reference}
    (within : .reference reference ∈ nodesWithin nodes) {choice : Choice}
    (found : reference.fallback = some choice) : choice.PartOf nodes where
  within := List.Subset.trans (Reference.fallback_within found)
    (within_subset_nodesWithin nodes _ within)
  scripts := by
    have ofReference : choice.scripts ⊆ (Node.reference reference).scripts := by
      obtain ⟨target, identifier, silent, mappings, fallback, reruns, span⟩ := reference
      cases found
      exact List.subset_append_right ..
    exact List.Subset.trans ofReference (scripts_subset_scriptsOfNodes nodes _ within)

/-- And so is whatever a reference renders for a branch of its target. -/
theorem Reference.partOf_of_answer {reference : Reference}
    (within : .reference reference ∈ nodesWithin nodes) {index : Nat} {choice : Choice}
    (found : (reference.mapping? index).or reference.fallback = some choice) :
    choice.PartOf nodes := by
  rcases Option.or_eq_some_iff.1 found with mapped | ⟨-, fallen⟩
  · obtain ⟨mapping, listed, rfl⟩ := Option.map_eq_some_iff.1 mapped
    refine ⟨List.Subset.trans (Reference.answer_within found)
      (within_subset_nodesWithin nodes _ within), ?_⟩
    have ofReference : mapping.choice.scripts ⊆ (Node.reference reference).scripts := by
      obtain ⟨target, identifier, silent, mappings, fallback, reruns, span⟩ := reference
      rw [Node.scripts]
      exact List.Subset.trans (scripts_subset_of_mapping (List.mem_of_find?_eq_some listed))
        (List.subset_append_left ..)
    exact List.Subset.trans ofReference (scripts_subset_scriptsOfNodes nodes _ within)
  · exact partOf_of_fallback within fallen

end PartOf

/-! ## Declarations -/

/-- The name that a node declares, and the place it declares it at. -/
def Node.declaration? : Node → Option (String × Nat)
  | .text _ => none
  | .fork point => point.identifier.map (·, point.span.start)
  | .reference look => look.identifier.map (·, look.span.start)

/-- The names that are declared within the nodes, with the places that declare them. -/
def declarations (nodes : List Node) : List (String × Nat) :=
  (nodesWithin nodes).filterMap Node.declaration?

theorem Fork.mem_declarations {nodes : List Node} {fork : Fork}
    (within : .fork fork ∈ nodesWithin nodes) {name : String}
    (identifier : fork.identifier = some name) : (name, fork.span.start) ∈ declarations nodes :=
  List.mem_filterMap.2 ⟨_, within, by rw [Node.declaration?, identifier]; rfl⟩

theorem Reference.mem_declarations {nodes : List Node} {reference : Reference}
    (within : .reference reference ∈ nodesWithin nodes) {name : String}
    (identifier : reference.identifier = some name) :
    (name, reference.span.start) ∈ declarations nodes :=
  List.mem_filterMap.2 ⟨_, within, by rw [Node.declaration?, identifier]; rfl⟩

end BranchText
