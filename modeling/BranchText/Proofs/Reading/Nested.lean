import BranchText.Proofs.Document.References
import BranchText.Proofs.Reading.Written

/-!
# Everything in a written document is written

The forks and references within a passage, and their choices, are written between the places that
the passage is written between. So what the relations say of one node holds at any depth.
-/

namespace BranchText

/-- The place that a node was read at; text does not tell. -/
def Node.start? : Node → Option Nat
  | .text _ => none
  | .fork point => some point.span.start
  | .reference look => some look.span.start

/-- The choices that a node holds. -/
def Node.choices : Node → List Choice
  | .text _ => []
  | .fork point => point.branches.map (·.choice)
  | .reference look => look.choices

/-- The span of a node, unless it is text. -/
def Node.span? : Node → Option Span
  | .text _ => none
  | .fork point => some point.span
  | .reference look => some look.span

/-- A choice and all choices inside it. -/
def Choice.nested (choice : Choice) : List Choice :=
  choice :: choice.within.flatMap Node.choices

/-- Everything but text stands at a place. -/
theorem Node.text_or_start (node : Node) :
    (∃ content, node = .text content) ∨ ∃ place, node.start? = some place := by
  cases node with
  | text content => exact .inl ⟨content, rfl⟩
  | fork fork => exact .inr ⟨_, rfl⟩
  | reference reference => exact .inr ⟨_, rfl⟩

/-- The sequences of a document are the document itself and its choices that are sequences. -/
theorem mem_sequences {root nodes : List Node} : nodes ∈ sequences root ↔
    nodes = root ∨ ∃ node ∈ nodesWithin root, .nodes nodes ∈ node.choices := by
  have same : ∀ {choice : Choice}, choice.sequence? = some nodes ↔ choice = .nodes nodes := by
    intro choice
    cases choice <;> simp [Choice.sequence?]
  rw [sequences, List.mem_cons, List.mem_flatMap]
  refine or_congr_right (exists_congr fun node => and_congr_right fun _ => ?_)
  cases node with
  | text content => simp [Node.sequences, Node.choices]
  | fork point => simp [Node.sequences, Node.choices, same]
  | reference look => simp [Node.sequences, Node.choices, same]

/-! ## Nodes within lists -/

section Lists

variable {inner : Node}

theorem nodesWithin_eq (nodes : List Node) : nodesWithin nodes = nodes.flatMap Node.within := by
  induction nodes with
  | nil => rfl
  | cons node rest ih => rw [nodesWithin, ih, List.flatMap_cons]

theorem withinBranches_eq (branches : List Branch) :
    withinBranches branches = branches.flatMap (·.choice.within) := by
  induction branches with
  | nil => rfl
  | cons branch rest ih =>
    obtain ⟨choice, weight⟩ := branch
    rw [withinBranches, ih, List.flatMap_cons]

theorem withinMappings_eq (mappings : List Mapping) :
    withinMappings mappings = mappings.flatMap (·.choice.within) := by
  induction mappings with
  | nil => rfl
  | cons mapping rest ih =>
    obtain ⟨branch, choice⟩ := mapping
    rw [withinMappings, ih, List.flatMap_cons]

theorem mem_nodesWithin {nodes : List Node} :
    inner ∈ nodesWithin nodes ↔ ∃ node ∈ nodes, inner ∈ node.within := by
  rw [nodesWithin_eq, List.mem_flatMap]

theorem mem_withinBranches {branches : List Branch} :
    inner ∈ withinBranches branches ↔ ∃ branch ∈ branches, inner ∈ branch.choice.within := by
  rw [withinBranches_eq, List.mem_flatMap]

theorem mem_withinMappings {mappings : List Mapping} :
    inner ∈ withinMappings mappings ↔ ∃ mapping ∈ mappings, inner ∈ mapping.choice.within := by
  rw [withinMappings_eq, List.mem_flatMap]

end Lists

/-! ## Parts of readers -/

namespace Reader

theorem mem_flush {passage : Passage} {inner : Node} (member : inner ∈ nodesWithin passage.flush) :
    inner ∈ nodesWithin passage.nodes ∨ inner.start? = none := by
  have ofText : ∀ {content : String}, inner ∈ (Node.text content).within → inner.start? = none := by
    intro content same
    rw [Node.within, List.mem_singleton] at same
    rw [same]
    rfl
  unfold Passage.flush at member
  split at member
  · exact .inl member
  · split at member
    · rename_i before rest same
      rw [nodesWithin, List.mem_append] at member
      rw [same, nodesWithin, List.mem_append]
      exact member.elim (.inr ∘ ofText) (.inl ∘ .inr)
    · rw [nodesWithin, List.mem_append] at member
      exact member.elim (.inr ∘ ofText) .inl

theorem mem_insertMapping {extra mapping : Mapping} {mappings : List Mapping}
    (member : mapping ∈ insertMapping extra mappings) : mapping = extra ∨ mapping ∈ mappings := by
  induction mappings with
  | nil => exact .inl (List.mem_singleton.1 member)
  | cons other rest ih =>
    rw [insertMapping] at member
    split at member
    · exact List.mem_cons.1 member
    · rcases List.mem_cons.1 member with rfl | later
      · exact .inr (List.mem_cons_self ..)
      · exact (ih later).imp_right (List.mem_cons_of_mem _)

/-- What is mapped was mapped before, or is mapped to the choice. -/
theorem yields_mapped {choice : Choice} {indices : List (Nat × Nat)} {found : List Mapping} :
    Yields (addMappings choice indices found)
      fun mappings => ∀ mapping ∈ mappings, mapping.choice = choice ∨ mapping ∈ found := by
  induction indices generalizing found with
  | nil => exact .pure fun _ => .inr
  | cons entry rest ih =>
    rw [addMappings]
    split
    · exact .throw _
    · intro mappings read mapping member
      rcases ih mappings read mapping member with same | later
      · exact .inl same
      · exact (mem_insertMapping later).imp_left fun same => by rw [same]

end Reader

/-! ## Nodes between places -/

/-- The forks and references among the nodes are written between two places. -/
structure Placed (source : List Char) (nodes : List Node) (first last : Nat) : Prop where
  order : first ≤ last
  written : ∀ node ∈ nodes, ∀ place, node.start? = some place →
    ∃ stop, IsNode source node place stop ∧ first ≤ place ∧ stop ≤ last

section Placed

variable {source : List Char} {front back whole : List Node} {first middle start last : Nat}

theorem placed_nil (order : first ≤ last) : Placed source [] first last :=
  ⟨order, List.forall_mem_nil _⟩

/-- Nodes before and behind a place. Text may be added anywhere. -/
theorem Placed.union (before : Placed source front first middle)
    (behind : Placed source back start last) (order : middle ≤ start)
    (among : ∀ node ∈ whole, node ∈ front ∨ node ∈ back ∨ node.start? = none) :
    Placed source whole first last := by
  have forward := before.order
  have onward := behind.order
  refine ⟨by omega, fun node member place stands => ?_⟩
  rcases among node member with inFront | inBack | none
  · obtain ⟨stop, here, lower, upper⟩ := before.written node inFront place stands
    exact ⟨stop, here, lower, by omega⟩
  · obtain ⟨stop, here, lower, upper⟩ := behind.written node inBack place stands
    exact ⟨stop, here, by omega, upper⟩
  · rw [stands] at none
    cases none

/-- The same nodes, with or without text, between places that are no closer. -/
theorem Placed.among (before : Placed source front first middle) (order : middle ≤ last)
    (among : ∀ node ∈ whole, node ∈ front ∨ node.start? = none) :
    Placed source whole first last :=
  before.union (placed_nil order) (Nat.le_refl middle) fun node member =>
    (among node member).imp_right .inr

/-- Nodes between places that are further apart. -/
theorem Placed.mono (before : Placed source front middle last) (start : first ≤ middle)
    {later : Nat} (stop : last ≤ later) : Placed source front first later :=
  (placed_nil start).union (before.among stop fun _ => .inl) (Nat.le_refl middle)
    fun _ member => .inr (.inl member)

end Placed

section Relations

variable {source : List Char} {first last start stop : Nat}

theorem IsClosed.lt (closed : IsClosed source last stop) : last < stop := by
  obtain ⟨close, order, -, rfl⟩ := closed
  exact Nat.lt_succ_of_le order

theorem IsWeight.order {weight : Option Decimal} (weighed : IsWeight source weight first last) :
    first ≤ last := by
  cases weighed with
  | none order missing => exact order
  | written number stands behind before => omega

theorem IsNode.span?_eq {node : Node} (here : IsNode source node start stop) :
    node.span? = some ⟨start, stop⟩ := by
  cases here <;> rfl

theorem IsNode.start?_eq {node : Node} (here : IsNode source node start stop) :
    node.start? = some start := by
  cases here <;> rfl

/-- A node with what is within it. -/
theorem IsNode.placed {node : Node} (here : IsNode source node start stop) {inner : List Node}
    (inside : start < first) (placed : Placed source inner first last) (outside : last < stop) :
    Placed source (node :: inner) start stop := by
  have order := placed.order
  refine ⟨by omega, fun other member place stands => ?_⟩
  rcases List.mem_cons.1 member with rfl | within
  · obtain rfl := Option.some.inj (here.start?_eq.symm.trans stands)
    exact ⟨stop, here, Nat.le_refl _, Nat.le_refl _⟩
  · obtain ⟨close, written, lower, upper⟩ := placed.written other within place stands
    exact ⟨close, written, by omega, by omega⟩

/-- The order of entries does not matter. -/
theorem Placed.reverse {branches : List Branch}
    (placed : Placed source (withinBranches branches) first last) :
    Placed source (withinBranches branches.reverse) first last := by
  refine placed.among (Nat.le_refl last) fun inner member => .inl ?_
  obtain ⟨branch, listed, within⟩ := mem_withinBranches.1 member
  exact mem_withinBranches.2 ⟨branch, List.mem_reverse.1 listed, within⟩

mutual

theorem IsPassage.placed {passage : Passage} {first last : Nat} :
    IsPassage source passage first last → Placed source (nodesWithin passage.nodes) first last
  | .empty order => placed_nil order
  | .text before _ order => before.placed.mono (Nat.le_refl _) order
  | .nothing before order =>
    before.placed.among order fun _ member => Reader.mem_flush member
  | .node before behind here order => by
    refine before.placed.union (here.placedWithin.mono (Nat.le_refl _) order) behind
      fun inner member => ?_
    rw [Passage.addBlock, nodesWithin] at member
    rcases List.mem_append.1 member with inNode | inPassage
    · exact .inr (.inl inNode)
    · exact (Reader.mem_flush inPassage).imp_right .inr

theorem AreEntries.placed {branches : List Branch} {first last : Nat} :
    AreEntries source branches first last → Placed source (withinBranches branches) first last
  | .none order => placed_nil order
  | .entry before behind chosen weighed order => by
    refine before.placed.union
      (chosen.placed.mono (Nat.le_refl _) (Nat.le_trans weighed.order order)) behind
      fun inner member => ?_
    rw [withinBranches, List.mem_append] at member
    exact member.elim (.inr ∘ .inl) .inl

theorem AreMapped.placed {mappings : List Mapping} {fallback : Option Choice} {first last : Nat} :
    AreMapped source mappings fallback first last →
      Placed source (withinMappings mappings ++ withinFallback fallback) first last
  | .none order => placed_nil order
  | .mapped before behind chosen added order => by
    refine before.placed.union (chosen.placed.mono (Nat.le_refl _) order) behind
      fun inner member => ?_
    rw [withinFallback, List.append_nil] at member ⊢
    obtain ⟨mapping, listed, inside⟩ := mem_withinMappings.1 member
    rcases Reader.yields_mapped _ added mapping listed with same | earlier
    · rw [same] at inside
      exact .inr (.inl inside)
    · exact .inl (mem_withinMappings.2 ⟨mapping, earlier, inside⟩)
  | .fallback before behind chosen order => by
    refine before.placed.union (chosen.placed.mono (Nat.le_refl _) order) behind
      fun inner member => ?_
    rw [withinFallback, List.append_nil]
    exact (List.mem_append.1 member).imp_right .inl

theorem IsNode.placedWithin {node : Node} {start stop : Nat} :
    IsNode source node start stop → Placed source node.within start stop
  | .fork opens inside entries filled closes =>
    (IsNode.fork opens inside entries filled closes).placed inside entries.placed.reverse closes.lt
  | .reference opens inside mapped closes =>
    (IsNode.reference opens inside mapped closes).placed inside mapped.placed closes.lt

theorem IsChoice.placed {choice : Choice} {first last : Nat} :
    IsChoice source choice first last → Placed source choice.within first last
  | .nodes inside read => by
    refine (read.placed.mono inside (Nat.le_refl _)).among (Nat.le_refl _) fun inner member => ?_
    obtain ⟨node, listed, within⟩ := mem_nodesWithin.1 member
    exact Reader.mem_flush (mem_nodesWithin.2 ⟨node, List.mem_reverse.1 listed, within⟩)
  | .script behind stands measured => placed_nil (by omega)
  | .call behind filled => placed_nil (by omega)

end

/-- Every entry of a fork is a choice with a weight behind it. -/
theorem AreEntries.entries {branches : List Branch} {first last : Nat}
    (read : AreEntries source branches first last) :
    ∀ branch ∈ branches, ∃ start stop place,
      first ≤ start ∧ IsChoice source branch.choice start stop ∧
        IsWeight source branch.weight stop place ∧ place ≤ last := by
  induction read using AreEntries.along with
  | none => exact List.forall_mem_nil _
  | entry before behind chosen weighed order ih =>
    have forward := before.placed.order
    have onward := chosen.placed.order
    have weightOrder := weighed.order
    refine List.forall_mem_cons.2 ⟨⟨_, _, _, by omega, chosen, weighed, order⟩,
      fun branch member => ?_⟩
    obtain ⟨start, stop, place, lower, earlier, earlierWeight, upper⟩ := ih branch member
    exact ⟨start, stop, place, lower, earlier, earlierWeight, by omega⟩

/-- Everything that a reference may render is a choice. -/
theorem AreMapped.choices {mappings : List Mapping} {fallback : Option Choice}
    {first last : Nat} (read : AreMapped source mappings fallback first last) :
    ∀ choice ∈ mappings.map (·.choice) ++ fallback.toList, ∃ start stop,
      first ≤ start ∧ IsChoice source choice start stop ∧ stop ≤ last := by
  induction read using AreMapped.along with
  | none => exact List.forall_mem_nil _
  | mapped before behind chosen added order ih =>
    have forward := before.placed.order
    have onward := chosen.placed.order
    intro choice member
    rw [Option.toList_none, List.append_nil] at member
    obtain ⟨mapping, listed, rfl⟩ := List.mem_map.1 member
    rcases Reader.yields_mapped _ added mapping listed with same | earlier
    · exact ⟨_, _, by omega, same ▸ chosen, order⟩
    · obtain ⟨start, stop, lower, here, upper⟩ :=
        ih _ (List.mem_append_left _ (List.mem_map_of_mem earlier))
      exact ⟨start, stop, lower, here, by omega⟩
  | fallback before behind chosen order ih =>
    have forward := before.placed.order
    have onward := chosen.placed.order
    intro choice member
    rcases List.mem_append.1 member with mapped | fallen
    · obtain ⟨start, stop, lower, here, upper⟩ := ih _ (List.mem_append_left _ mapped)
      exact ⟨start, stop, lower, here, by omega⟩
    · rw [Option.toList_some, List.mem_singleton] at fallen
      exact ⟨_, _, by omega, fallen ▸ chosen, order⟩

/-- The choices of a node are written between its braces. -/
theorem IsNode.choices {node : Node} (here : IsNode source node start stop) :
    ∀ choice ∈ node.choices, ∃ first last,
      start < first ∧ IsChoice source choice first last ∧ last < stop := by
  intro choice member
  cases here with
  | fork opens inside entries filled closes =>
    obtain ⟨branch, listed, rfl⟩ := List.mem_map.1 member
    obtain ⟨first, last, place, lower, here, weighed, upper⟩ :=
      entries.entries branch (List.mem_reverse.1 listed)
    have weightOrder := weighed.order
    have outside := closes.lt
    exact ⟨first, last, by omega, here, by omega⟩
  | reference opens inside mapped closes =>
    obtain ⟨first, last, lower, here, upper⟩ := mapped.choices choice member
    have outside := closes.lt
    exact ⟨first, last, by omega, here, by omega⟩

/-- Choices are written, however deep they lie in one that is. -/
theorem IsChoice.nested {choice : Choice} (here : IsChoice source choice first last) :
    ∀ inner ∈ choice.nested, ∃ first last, IsChoice source inner first last := by
  refine List.forall_mem_cons.2 ⟨⟨first, last, here⟩, fun inner member => ?_⟩
  obtain ⟨node, within, listed⟩ := List.mem_flatMap.1 member
  rcases node.text_or_start with ⟨content, rfl⟩ | ⟨place, stands⟩
  · cases listed
  · obtain ⟨stop, there, -⟩ := here.placed.written node within place stands
    obtain ⟨first, last, -, written, -⟩ := there.choices inner listed
    exact ⟨first, last, written⟩

end Relations

/-! ## Documents -/

/-- Every fork among the nodes has a branch. -/
def Branching (nodes : List Node) : Prop := ∀ fork, .fork fork ∈ nodes → fork.branches ≠ []

theorem Branching.left {front back : List Node} (both : Branching (front ++ back)) :
    Branching front := fun fork member => both fork (List.mem_append_left _ member)

theorem Branching.right {front back : List Node} (both : Branching (front ++ back)) :
    Branching back := fun fork member => both fork (List.mem_append_right _ member)

namespace Document

variable {source : List Char} {document : Document}

/-- The nodes of a document are written as one choice from the start of the source to its end. -/
theorem isChoice_of_read (read : Document.read source = .ok document) :
    IsChoice source (.nodes document.nodes) 0 (byteLength source) := by
  obtain ⟨⟨passage, written, same⟩, -⟩ := isWritten_of_read read
  rw [same]
  exact .nodes (Nat.le_refl 0) written

/-- The forks and references of a document are written in its source, however deep they lie. -/
theorem isNode_of_read (read : Document.read source = .ok document) {node : Node}
    (within : node ∈ nodesWithin document.nodes) {span : Span} (member : span ∈ node.span?) :
    IsNode source node span.start span.stop := by
  have stands : node.start? = some span.start := by
    cases node <;> cases member <;> rfl
  obtain ⟨stop, here, -⟩ := (isChoice_of_read read).placed.written node within _ stands
  rw [here.span?_eq, Option.mem_some_iff] at member
  exact member ▸ here

/-- Every fork of a document has a branch, however deep it lies. -/
theorem branching_of_read (read : Document.read source = .ok document) :
    Branching (nodesWithin document.nodes) := by
  intro fork within none
  cases isNode_of_read read within (Option.mem_some_self _) with
  | fork opens inside entries filled closes => exact filled (List.reverse_eq_nil_iff.1 none)

/-- Every sequence of a document was read as a passage. -/
theorem isPassage_of_read (read : Document.read source = .ok document) {nodes : List Node}
    (member : nodes ∈ sequences document.nodes) : ∃ passage first last,
      IsPassage source passage first last ∧ nodes = passage.close := by
  rcases mem_sequences.1 member with rfl | ⟨node, within, listed⟩
  · obtain ⟨⟨passage, written, same⟩, -⟩ := isWritten_of_read read
    exact ⟨passage, 0, _, written, same⟩
  · obtain ⟨first, last, written⟩ := (isChoice_of_read read).nested _
      (List.mem_cons_of_mem _ (List.mem_flatMap.2 ⟨node, within, listed⟩))
    cases written with
    | nodes inside passage => exact ⟨_, _, _, passage, rfl⟩

end Document

end BranchText
