import BranchText.Document.Scripts
import BranchText.Document.Within

/-!
# Other texts for the branches of a fork

`Document.rephrased` puts other texts in the place of the branches of the forks with a name, and
keeps everything else: the weights, the spans and all other nodes. `Node.Hides` says that the texts
of such forks can be seen nowhere: they are texts only, their forks are silent, and all references
to the name have something else to render.
-/

namespace BranchText

section Rephrased

variable (name : String) (texts : Nat → String)

mutual

/-- The choice with other texts in the branches of the forks with the name. -/
def Choice.rephrased : Choice → Choice
  | .nodes nodes => .nodes (rephrasedNodes nodes)
  | .script block => .script block
  | .call call => .call call

/-- The node with other texts. -/
def Node.rephrased : Node → Node
  | .text content => .text content
  | .fork ⟨identifier, silent, isSet, branches, span⟩ =>
    .fork ⟨identifier, silent, isSet,
      if identifier = some name then
        branches.mapIdx fun place branch => ⟨.nodes [.text (texts place)], branch.weight⟩
      else rephrasedBranches branches, span⟩
  | .reference ⟨target, identifier, silent, mappings, fallback, reruns, span⟩ =>
    .reference ⟨target, identifier, silent, rephrasedMappings mappings, rephrasedFallback fallback,
      reruns, span⟩

/-- The nodes with other texts. -/
def rephrasedNodes : List Node → List Node
  | [] => []
  | node :: rest => node.rephrased :: rephrasedNodes rest

/-- The branches of a fork with another name. -/
def rephrasedBranches : List Branch → List Branch
  | [] => []
  | ⟨choice, weight⟩ :: rest => ⟨choice.rephrased, weight⟩ :: rephrasedBranches rest

/-- The mappings with other texts. -/
def rephrasedMappings : List Mapping → List Mapping
  | [] => []
  | ⟨branch, choice⟩ :: rest => ⟨branch, choice.rephrased⟩ :: rephrasedMappings rest

/-- The fallback with other texts. -/
def rephrasedFallback : Option Choice → Option Choice
  | none => none
  | some choice => some choice.rephrased

end

/-- The fork with other texts. -/
def Fork.rephrased (fork : Fork) : Fork :=
  { fork with
    branches :=
      if fork.identifier = some name then
        fork.branches.mapIdx fun place branch => ⟨.nodes [.text (texts place)], branch.weight⟩
      else rephrasedBranches name texts fork.branches }

/-- The reference with other texts. -/
def Reference.rephrased (reference : Reference) : Reference :=
  { reference with
    mappings := rephrasedMappings name texts reference.mappings
    fallback := rephrasedFallback name texts reference.fallback }

/-- The document with other texts. -/
def Document.rephrased (document : Document) : Document :=
  { document with nodes := rephrasedNodes name texts document.nodes }

end Rephrased

/-- What the branches of a fork with the name give is not seen. -/
def Fork.Hides (name : String) (fork : Fork) : Prop :=
  fork.identifier = some name →
    fork.silent = true ∧ ∀ branch ∈ fork.branches, ∃ content, branch.choice = .nodes [.text content]

/-- The reference does not have the name, and if it refers to it, it has no name at all and renders
something for the index. -/
def Reference.Hides (name : String) (reference : Reference) : Prop :=
  reference.identifier ≠ some name ∧
    (reference.target = name → reference.identifier = none ∧ reference.isCopy = false)

/-- The texts of the forks with the name are not seen. -/
def Node.Hides (name : String) : Node → Prop
  | .text _ => True
  | .fork point => point.Hides name
  | .reference look => look.Hides name

section Lemmas

variable {name : String} {texts : Nat → String}

theorem rephrasedNodes_eq_map (nodes : List Node) :
    rephrasedNodes name texts nodes = nodes.map (Node.rephrased name texts) := by
  induction nodes with
  | nil => rfl
  | cons node rest ih => rw [rephrasedNodes, ih, List.map_cons]

theorem rephrasedBranches_eq_map (branches : List Branch) :
    rephrasedBranches name texts branches =
      branches.map fun branch => ⟨branch.choice.rephrased name texts, branch.weight⟩ := by
  induction branches with
  | nil => rfl
  | cons branch rest ih =>
    obtain ⟨choice, weight⟩ := branch
    rw [rephrasedBranches, ih, List.map_cons]

theorem rephrasedMappings_eq_map (mappings : List Mapping) :
    rephrasedMappings name texts mappings =
      mappings.map fun mapping => ⟨mapping.branch, mapping.choice.rephrased name texts⟩ := by
  induction mappings with
  | nil => rfl
  | cons mapping rest ih =>
    obtain ⟨branch, choice⟩ := mapping
    rw [rephrasedMappings, ih, List.map_cons]

theorem rephrasedFallback_eq_map (fallback : Option Choice) :
    rephrasedFallback name texts fallback = fallback.map (Choice.rephrased name texts) := by
  cases fallback <;> rfl

theorem Node.rephrased_fork (fork : Fork) :
    (Node.fork fork).rephrased name texts = .fork (fork.rephrased name texts) := by
  obtain ⟨identifier, silent, isSet, branches, span⟩ := fork
  rfl

theorem Node.rephrased_reference (reference : Reference) :
    (Node.reference reference).rephrased name texts =
      .reference (reference.rephrased name texts) := by
  obtain ⟨target, identifier, silent, mappings, fallback, reruns, span⟩ := reference
  rfl

namespace Fork

variable (fork : Fork)

@[simp]
theorem identifier_rephrased : (fork.rephrased name texts).identifier = fork.identifier := rfl

@[simp]
theorem silent_rephrased : (fork.rephrased name texts).silent = fork.silent := rfl

@[simp]
theorem isSet_rephrased : (fork.rephrased name texts).isSet = fork.isSet := rfl

@[simp]
theorem span_rephrased : (fork.rephrased name texts).span = fork.span := rfl

/-- The branches keep their weights. -/
theorem map_weight_rephrased :
    (fork.rephrased name texts).branches.map (·.weight) = fork.branches.map (·.weight) := by
  unfold rephrased
  dsimp only
  split
  · refine List.ext_getElem? fun place => ?_
    rw [List.getElem?_map, List.getElem?_mapIdx, Option.map_map, List.getElem?_map]
    rfl
  · rw [rephrasedBranches_eq_map, List.map_map]
    rfl

/-- So the fork is drawn from as before. -/
theorem deck_rephrased {W : Type} [WeightScale W] :
    (fork.rephrased name texts).deck = (fork.deck : Deck W) := by
  have same : ∀ fork : Fork, fork.written =
      (fork.branches.map (·.weight)).map fun weight =>
        weight.map (WeightScale.ofDecimal : _ → W) := fun fork => by
    rw [written, List.map_map]
    rfl
  rw [deck, deck, same, same, map_weight_rephrased]
  rfl

theorem getElem?_rephrased_of_ne (other : fork.identifier ≠ some name) (index : Nat) :
    (fork.rephrased name texts).branches[index]? =
      fork.branches[index]?.map fun branch =>
        ⟨branch.choice.rephrased name texts, branch.weight⟩ := by
  rw [rephrased, if_neg other, rephrasedBranches_eq_map, List.getElem?_map]

theorem getElem?_rephrased_of_eq (named : fork.identifier = some name) (index : Nat) :
    (fork.rephrased name texts).branches[index]? =
      fork.branches[index]?.map fun branch => ⟨.nodes [.text (texts index)], branch.weight⟩ := by
  rw [rephrased, if_pos named, List.getElem?_mapIdx]

end Fork

namespace Reference

variable (reference : Reference)

@[simp]
theorem target_rephrased : (reference.rephrased name texts).target = reference.target := rfl

@[simp]
theorem identifier_rephrased :
    (reference.rephrased name texts).identifier = reference.identifier := rfl

@[simp]
theorem silent_rephrased : (reference.rephrased name texts).silent = reference.silent := rfl

@[simp]
theorem reruns_rephrased : (reference.rephrased name texts).reruns = reference.reruns := rfl

@[simp]
theorem span_rephrased : (reference.rephrased name texts).span = reference.span := rfl

@[simp]
theorem fallback_rephrased : (reference.rephrased name texts).fallback =
    reference.fallback.map (Choice.rephrased name texts) :=
  rephrasedFallback_eq_map _

theorem isCopy_rephrased : (reference.rephrased name texts).isCopy = reference.isCopy := by
  rw [isCopy, isCopy, fallback_rephrased, rephrased, rephrasedMappings_eq_map, List.isEmpty_map,
    Option.isNone_map]

theorem answer_rephrased (index : Nat) :
    ((reference.rephrased name texts).mapping? index).or (reference.rephrased name texts).fallback =
      ((reference.mapping? index).or reference.fallback).map (Choice.rephrased name texts) := by
  simp only [mapping?, rephrased, rephrasedMappings_eq_map, rephrasedFallback_eq_map,
    List.find?_map, Option.map_map, Option.map_or, Function.comp_def]

end Reference

/-! ## Script blocks -/

mutual

/-- Other texts bring no script blocks. -/
theorem Choice.scripts_rephrased (choice : Choice) :
    (choice.rephrased name texts).scripts ⊆ choice.scripts := by
  match choice with
  | .nodes nodes => exact scriptsOfNodes_rephrased nodes
  | .script block => exact List.Subset.refl _
  | .call call => exact List.Subset.refl _

theorem Node.scripts_rephrased (node : Node) :
    (node.rephrased name texts).scripts ⊆ node.scripts := by
  match node with
  | .text content => exact List.Subset.refl _
  | .fork ⟨identifier, silent, isSet, branches, span⟩ =>
    rw [Node.rephrased, Node.scripts, Node.scripts]
    split
    · intro block listed
      have none : ∀ texts : List Branch, (∀ branch ∈ texts, branch.choice.scripts = []) →
          scriptsOfBranches texts = [] := by
        intro texts plain
        induction texts with
        | nil => rfl
        | cons branch rest ih =>
          obtain ⟨choice, weight⟩ := branch
          obtain ⟨here, later⟩ := List.forall_mem_cons.1 plain
          rw [scriptsOfBranches, ih later, here]
          rfl
      rw [none] at listed
      · cases listed
      · intro branch member
        obtain ⟨place, inside, rfl⟩ := List.mem_mapIdx.1 member
        rfl
    · exact scriptsOfBranches_rephrased branches
  | .reference ⟨target, identifier, silent, mappings, fallback, reruns, span⟩ =>
    rw [Node.rephrased, Node.scripts, Node.scripts]
    exact List.append_subset.2 ⟨List.subset_append_of_subset_left _ (scriptsOfMappings_rephrased mappings),
      List.subset_append_of_subset_right _ (scriptsOfFallback_rephrased fallback)⟩

theorem scriptsOfNodes_rephrased (nodes : List Node) :
    scriptsOfNodes (rephrasedNodes name texts nodes) ⊆ scriptsOfNodes nodes := by
  match nodes with
  | [] => exact List.Subset.refl _
  | node :: rest =>
    rw [rephrasedNodes, scriptsOfNodes, scriptsOfNodes]
    exact List.append_subset.2 ⟨List.subset_append_of_subset_left _ (Node.scripts_rephrased node),
      List.subset_append_of_subset_right _ (scriptsOfNodes_rephrased rest)⟩

theorem scriptsOfBranches_rephrased (branches : List Branch) :
    scriptsOfBranches (rephrasedBranches name texts branches) ⊆ scriptsOfBranches branches := by
  match branches with
  | [] => exact List.Subset.refl _
  | ⟨choice, weight⟩ :: rest =>
    rw [rephrasedBranches, scriptsOfBranches, scriptsOfBranches]
    exact List.append_subset.2 ⟨List.subset_append_of_subset_left _ (Choice.scripts_rephrased choice),
      List.subset_append_of_subset_right _ (scriptsOfBranches_rephrased rest)⟩

theorem scriptsOfMappings_rephrased (mappings : List Mapping) :
    scriptsOfMappings (rephrasedMappings name texts mappings) ⊆ scriptsOfMappings mappings := by
  match mappings with
  | [] => exact List.Subset.refl _
  | ⟨branch, choice⟩ :: rest =>
    rw [rephrasedMappings, scriptsOfMappings, scriptsOfMappings]
    exact List.append_subset.2 ⟨List.subset_append_of_subset_left _ (Choice.scripts_rephrased choice),
      List.subset_append_of_subset_right _ (scriptsOfMappings_rephrased rest)⟩

theorem scriptsOfFallback_rephrased (fallback : Option Choice) :
    scriptsOfFallback (rephrasedFallback name texts fallback) ⊆ scriptsOfFallback fallback := by
  match fallback with
  | none => exact List.Subset.refl _
  | some choice => exact Choice.scripts_rephrased choice

end

theorem Document.scripts_rephrased {document : Document} (none : document.scripts = []) :
    (document.rephrased name texts).scripts = [] := by
  have fewer := @scriptsOfNodes_rephrased name texts document.nodes
  rw [show scriptsOfNodes document.nodes = [] from none] at fewer
  exact List.eq_nil_of_subset_nil fewer

end Lemmas

end BranchText
