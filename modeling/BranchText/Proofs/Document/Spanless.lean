import BranchText.Document.Print

/-!
# Documents without their places

Two documents are the same up to spans if they are equal `withoutSpans`. What a reader gathers, be
it nodes, entries, mappings or declarations, is the same up to spans if it is gathered from parts
that are.
-/

namespace BranchText

/-! ## Lists -/

@[simp]
theorem nodesWithoutSpans_append (front back : List Node) :
    nodesWithoutSpans (front ++ back) = nodesWithoutSpans front ++ nodesWithoutSpans back := by
  induction front with
  | nil => rfl
  | cons node rest ih => simp [nodesWithoutSpans, ih]

@[simp]
theorem nodesWithoutSpans_reverse (nodes : List Node) :
    nodesWithoutSpans nodes.reverse = (nodesWithoutSpans nodes).reverse := by
  induction nodes with
  | nil => rfl
  | cons node rest ih => simp [nodesWithoutSpans, ih]

@[simp]
theorem branchesWithoutSpans_append (front back : List Branch) :
    branchesWithoutSpans (front ++ back)
      = branchesWithoutSpans front ++ branchesWithoutSpans back := by
  induction front with
  | nil => rfl
  | cons branch rest ih =>
    obtain ⟨choice, weight⟩ := branch
    simp [branchesWithoutSpans, ih]

@[simp]
theorem branchesWithoutSpans_reverse (branches : List Branch) :
    branchesWithoutSpans branches.reverse = (branchesWithoutSpans branches).reverse := by
  induction branches with
  | nil => rfl
  | cons branch rest ih =>
    obtain ⟨choice, weight⟩ := branch
    simp [branchesWithoutSpans, ih]

@[simp]
theorem mappingsWithoutSpans_append (front back : List Mapping) :
    mappingsWithoutSpans (front ++ back)
      = mappingsWithoutSpans front ++ mappingsWithoutSpans back := by
  induction front with
  | nil => rfl
  | cons mapping rest ih =>
    obtain ⟨branch, choice⟩ := mapping
    simp [mappingsWithoutSpans, ih]

theorem isEmpty_branchesWithoutSpans (branches : List Branch) :
    (branchesWithoutSpans branches).isEmpty = branches.isEmpty := by
  cases branches with
  | nil => rfl
  | cons branch rest =>
    obtain ⟨choice, weight⟩ := branch
    rfl

/-- Entries keep their weights. -/
theorem weights_branchesWithoutSpans (branches : List Branch) :
    (branchesWithoutSpans branches).map (·.weight) = branches.map (·.weight) := by
  induction branches with
  | nil => rfl
  | cons branch rest ih =>
    obtain ⟨choice, weight⟩ := branch
    simp [branchesWithoutSpans, ih]

/-- Mappings keep their indices. -/
theorem any_branch_mappingsWithoutSpans (mappings : List Mapping) (branch : Nat) :
    (mappingsWithoutSpans mappings).any (·.branch = branch) = mappings.any (·.branch = branch) := by
  induction mappings with
  | nil => rfl
  | cons mapping rest ih =>
    obtain ⟨branch, choice⟩ := mapping
    simp [mappingsWithoutSpans, ih]

theorem mappingsWithoutSpans_insertMapping (branch : Nat) (choice : Choice)
    (mappings : List Mapping) :
    mappingsWithoutSpans (Reader.insertMapping ⟨branch, choice⟩ mappings)
      = Reader.insertMapping ⟨branch, choice.withoutSpans⟩ (mappingsWithoutSpans mappings) := by
  induction mappings with
  | nil => rfl
  | cons mapping rest ih =>
    obtain ⟨other, chosen⟩ := mapping
    simp only [Reader.insertMapping, mappingsWithoutSpans]
    split
    · rfl
    · rw [mappingsWithoutSpans, ih]

/-! ## Documents -/

/-- The rule with all spans at the start. -/
def ModeRule.withoutSpans (rule : ModeRule) : ModeRule :=
  { rule with replacement := rule.replacement.withoutSpans }

/-- Rules that are the same up to spans are so in front of others. -/
theorem ModeRule.cons_alike {matcher pattern : String} {choice chosen : Choice}
    {rules found : List ModeRule} (matched : matcher = pattern)
    (replaced : choice.withoutSpans = chosen) (same : rules.map withoutSpans = found) :
    (⟨matcher, choice⟩ :: rules).map withoutSpans = ⟨pattern, chosen⟩ :: found := by
  rw [List.map_cons, same, withoutSpans, matched, replaced]

/-- The declaration with all spans at the start. -/
def ModeDeclaration.withoutSpans (mode : ModeDeclaration) : ModeDeclaration :=
  ⟨mode.name, mode.rules.map ModeRule.withoutSpans, default⟩

/-- The document with all spans at the start. -/
def Document.withoutSpans (document : Document) : Document :=
  ⟨nodesWithoutSpans document.nodes, document.modes.map ModeDeclaration.withoutSpans,
    document.modeSwitches⟩

namespace Legacy

/-- The declarations with all spans at the start. -/
def withoutSpans (legacy : Legacy) : Legacy :=
  ⟨legacy.modes.map ModeDeclaration.withoutSpans, legacy.switches⟩

theorem withoutSpans_append (first second : Legacy) :
    (first ++ second).withoutSpans = first.withoutSpans ++ second.withoutSpans := by
  change Legacy.mk _ _ = Legacy.mk _ _
  rw [Legacy.mk.injEq]
  exact ⟨List.map_append, rfl⟩

/-- Declarations that are the same up to spans are so in front of others. -/
theorem append_alike {first second seen others : Legacy} (same : first.withoutSpans = seen)
    (alike : second.withoutSpans = others) : (first ++ second).withoutSpans = seen ++ others := by
  rw [withoutSpans_append, same, alike]

end Legacy

namespace Passage

/-- The passage with all spans at the start. -/
def withoutSpans (passage : Passage) : Passage := ⟨nodesWithoutSpans passage.nodes, passage.text⟩

theorem flush_withoutSpans (passage : Passage) :
    passage.withoutSpans.flush = nodesWithoutSpans passage.flush := by
  obtain ⟨nodes, text⟩ := passage
  change flush ⟨nodesWithoutSpans nodes, text⟩ = _
  rw [flush, flush]
  by_cases empty : text.isEmpty = true
  · rw [if_pos empty, if_pos empty]
  rw [if_neg empty, if_neg empty]
  cases nodes with
  | nil => rfl
  | cons node rest =>
    cases node with
    | text before => simp [nodesWithoutSpans, Node.withoutSpans]
    | fork fork => cases fork; simp [nodesWithoutSpans, Node.withoutSpans]
    | reference reference => cases reference; simp [nodesWithoutSpans, Node.withoutSpans]

theorem addBlock_withoutSpans (passage : Passage) (node : Option Node) :
    passage.withoutSpans.addBlock (node.map Node.withoutSpans)
      = (passage.addBlock node).withoutSpans := by
  cases node with
  | none => rw [Option.map_none, addBlock, addBlock, flush_withoutSpans, withoutSpans]
  | some node =>
    rw [Option.map_some, addBlock, addBlock, flush_withoutSpans, withoutSpans, nodesWithoutSpans]

theorem close_withoutSpans (passage : Passage) :
    passage.withoutSpans.close = nodesWithoutSpans passage.close := by
  rw [close, close, flush_withoutSpans, nodesWithoutSpans_reverse]

end Passage

/-! ## What is made of parts -/

namespace Reader

/-- Adding mappings comes to the same up to spans. -/
theorem addMappings_withoutSpans (choice : Choice) (indices : List (Nat × Nat))
    (mappings : List Mapping) :
    (addMappings choice indices mappings).toOption.map mappingsWithoutSpans
      = (addMappings choice.withoutSpans (indices.map fun index => (index.1, 0))
          (mappingsWithoutSpans mappings)).toOption := by
  induction indices generalizing mappings with
  | nil => rfl
  | cons index rest ih =>
    obtain ⟨branch, offset⟩ := index
    rw [addMappings, List.map_cons, addMappings, any_branch_mappingsWithoutSpans,
      ← mappingsWithoutSpans_insertMapping]
    split
    · rfl
    · exact ih _

/-- Whether an index is among those that are mapped, or comes twice. -/
def clashes : List Nat → (Nat → Bool) → Bool
  | [], _ => false
  | branch :: rest, mapped => mapped branch || clashes rest fun other => branch = other || mapped other

theorem any_branch_insertMapping (mapping : Mapping) (mappings : List Mapping) (branch : Nat) :
    (insertMapping mapping mappings).any (·.branch = branch)
      = (mapping.branch = branch || mappings.any (·.branch = branch)) := by
  induction mappings with
  | nil => simp [insertMapping]
  | cons other rest ih =>
    rw [insertMapping]
    split
    · simp
    · rw [List.any_cons, ih, List.any_cons, Bool.or_left_comm]

/-- Whether mappings can be added depends on the indices alone. -/
theorem isNone_addMappings (choice : Choice) (indices : List (Nat × Nat))
    (mappings : List Mapping) :
    (addMappings choice indices mappings).toOption.isNone
      = clashes (indices.map Prod.fst) fun branch => mappings.any (·.branch = branch) := by
  induction indices generalizing mappings with
  | nil => rfl
  | cons index rest ih =>
    obtain ⟨branch, offset⟩ := index
    rw [addMappings, List.map_cons, clashes]
    split
    · rename_i mapped
      simp [mapped, Except.toOption]
    · rename_i fresh
      rw [Bool.not_eq_true] at fresh
      rw [ih, fresh, Bool.false_or]
      simp only [any_branch_insertMapping]

section Mappings

variable {choice : Choice} {indices : List (Nat × Nat)} {mappings found : List Mapping}
  {numbers : List Nat} (same : indices.map Prod.fst = numbers)
  (alike : mappingsWithoutSpans mappings = found)

theorem mapped_alike (alike : mappingsWithoutSpans mappings = found) (branch : Nat) :
    mappings.any (·.branch = branch) = found.any (·.branch = branch) := by
  rw [← alike, any_branch_mappingsWithoutSpans]

include same alike

/-- Indices that clash cannot be mapped, whatever they would be mapped to. -/
theorem addMappings_of_clashes
    (clash : clashes numbers (fun branch => found.any (·.branch = branch)) = true) :
    ∃ error, addMappings choice indices mappings = .error error := by
  have none := isNone_addMappings choice indices mappings
  simp only [same, mapped_alike alike, clash] at none
  cases outcome : addMappings choice indices mappings with
  | error error => exact ⟨error, rfl⟩
  | ok added =>
    rw [outcome] at none
    cases none

/-- Other indices can be mapped, and the same comes of it up to spans. -/
theorem addMappings_of_fresh
    (clash : clashes numbers (fun branch => found.any (·.branch = branch)) = false)
    {chosen : Choice} (sameChoice : choice.withoutSpans = chosen) :
    ∃ added, addMappings choice indices mappings = .ok added ∧ mappingsWithoutSpans added =
      (addMappings chosen (numbers.map fun number => (number, 0)) found).toOption.getD [] := by
  have some := isNone_addMappings choice indices mappings
  have view := addMappings_withoutSpans choice indices mappings
  have indexed : (indices.map fun index => (index.1, 0)) = numbers.map fun number => (number, 0) := by
    rw [← same, List.map_map]
    rfl
  simp only [same, mapped_alike alike, clash] at some
  rw [sameChoice, alike, indexed] at view
  cases outcome : addMappings choice indices mappings with
  | error error =>
    rw [outcome] at some
    cases some
  | ok added =>
    rw [outcome] at view
    exact ⟨added, rfl, by rw [← view]; rfl⟩

end Mappings

/-- Forks with the same weights are all too heavy, or none is. -/
theorem forkNode_cases {ι : Type} (identifier : Option String) (flags : Flags) (opening stop : ι → Nat)
    {branches : ι → List Branch} {seen : List Branch}
    (same : ∀ run, branchesWithoutSpans (branches run) = seen) :
    (∀ run, ∃ error,
      forkNode (opening run) identifier flags (branches run) (stop run) = .error error) ∨
      ∀ run, forkNode (opening run) identifier flags (branches run) (stop run) =
        .ok (.fork ⟨identifier, flags.silent, flags.isSet, branches run,
          ⟨opening run, stop run⟩⟩) := by
  have written : ∀ run, Fork.written (W := Float) ⟨identifier, flags.silent, flags.isSet,
      branches run, ⟨opening run, stop run⟩⟩ =
        seen.map fun branch => branch.weight.map WeightScale.ofDecimal := by
    intro run
    have weights := weights_branchesWithoutSpans (branches run)
    rw [same run] at weights
    simp only [Fork.written]
    have split : ∀ branches : List Branch, (branches.map fun branch =>
        branch.weight.map (WeightScale.ofDecimal (W := Float))) =
          (branches.map (·.weight)).map fun weight => weight.map WeightScale.ofDecimal := by
      intro branches
      rw [List.map_map]
      rfl
    rw [split, split, weights]
  unfold forkNode
  simp only [written]
  cases Deck.ofWritten (W := Float) flags.isSet
      (seen.map fun branch => branch.weight.map WeightScale.ofDecimal) with
  | error sum => exact .inl fun run => ⟨_, rfl⟩
  | ok deck => exact .inr fun run => rfl

end Reader

end BranchText
