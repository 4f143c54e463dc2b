import BranchText.Proofs.Document.References

/-!
# Documents whose outcomes are accounted for

Counting adds what a mapping can give to the fork that the reference reads, and takes each fork and
each mapping once. This covers all renders where a mapping with several outcomes is rendered once
for each execution of that fork, and at most one of what belongs to a branch has several outcomes.
`Accountable` states this of a document. The first documents that fall outside map one branch in
two references to several outcomes each, or fall back on several outcomes where nothing was
declared.
-/

namespace BranchText

/-- Whether a node draws nothing and names nothing: text, and references that only look. -/
def Node.isLight : Node → Bool
  | .text _ => true
  | .fork _ => false
  | .reference look => look.identifier.isNone && !look.reruns

/-- Whether there is nothing to choose in a choice. -/
def Choice.isPlain (choice : Choice) : Bool := choice.within.all Node.isLight

/-- The reference that a node is, if it looks at what the name took and renders something for it. -/
def Node.reader? (name : String) : Node → Option Reference
  | .text _ => none
  | .fork _ => none
  | .reference look =>
    if look.target = name ∧ look.reruns = false ∧ look.isCopy = false then some look else none

theorem Node.reader?_eq_some_iff {name : String} {node : Node} {reference : Reference} :
    node.reader? name = some reference ↔ node = .reference reference ∧ reference.target = name ∧
      reference.reruns = false ∧ reference.isCopy = false := by
  cases node with
  | text content => simp [reader?]
  | fork fork => simp [reader?]
  | reference look =>
    rw [reader?, Option.ite_none_right_eq_some, Node.reference.injEq, Option.some.injEq]
    constructor
    · rintro ⟨reads, rfl⟩
      exact ⟨rfl, reads⟩
    · rintro ⟨rfl, reads⟩
      exact ⟨reads, rfl⟩

/-- The references among the nodes that look at what a name took, and render something for it. -/
def readersOf (name : String) (nodes : List Node) : List Reference :=
  nodes.filterMap (·.reader? name)

/-- The references among the nodes that look at what the fork took, if it has a name. -/
def Fork.readers (fork : Fork) (nodes : List Node) : List Reference :=
  match fork.identifier with
  | none => []
  | some name => readersOf name nodes

section PointsBack

mutual

/-- Whether the references in a choice that name or execute their target stand behind all nodes
that declare it. `later` are the names that are declared behind the choice. -/
def Choice.pointsBack (later : List String) : Choice → Bool
  | .nodes among => nodesPointBack later among
  | .script _ => true
  | .call _ => true

/-- Whether a node, and all within it, name and execute only what is not declared later. What a
reference may render counts as later than all of it, since it is rendered in no fixed order. -/
def Node.pointsBack (later : List String) : Node → Bool
  | .text _ => true
  | .fork ⟨identifier, _, _, branches, _⟩ =>
    branchesPointBack (identifier.toList ++ later) branches
  | .reference ⟨target, identifier, _, mappings, fallback, reruns, _⟩ =>
    let later := namesOf (withinMappings mappings ++ withinFallback fallback) ++
      identifier.toList ++ later
    (identifier.isNone && !reruns || !later.contains target) &&
      mappingsPointBack later mappings && fallbackPointsBack later fallback

/-- Whether nodes name and execute only what is not declared later. -/
def nodesPointBack (later : List String) : List Node → Bool
  | [] => true
  | node :: rest =>
    node.pointsBack (namesOf (nodesWithin rest) ++ later) && nodesPointBack later rest

/-- Whether branches name and execute only what is not declared later. -/
def branchesPointBack (later : List String) : List Branch → Bool
  | [] => true
  | ⟨choice, _⟩ :: rest =>
    choice.pointsBack (namesOf (withinBranches rest) ++ later) && branchesPointBack later rest

/-- Whether mappings name and execute only what is not declared later. -/
def mappingsPointBack (later : List String) : List Mapping → Bool
  | [] => true
  | ⟨_, choice⟩ :: rest => choice.pointsBack later && mappingsPointBack later rest

/-- Whether a fallback names and executes only what is not declared later. -/
def fallbackPointsBack (later : List String) : Option Choice → Bool
  | none => true
  | some choice => choice.pointsBack later

end

end PointsBack

/-- While the nodes are rendered, the name is neither declared nor executed again. -/
structure Quiet (root : List Node) (name : String) (nodes : List Node) : Prop where
  undeclared : ∀ node, Runs root nodes node → node.name? ≠ some name
  unrepeated : ∀ reference, Runs root nodes (.reference reference) → reference.reruns = true →
    reference.target ≠ name

/-- A document all of whose outcomes are counted. -/
structure Accountable (root : List Node) : Prop where
  /-- References that name or execute their target stand behind what declares it. -/
  behind : nodesPointBack [] root = true
  /-- A reference that looks at its target and adds something stands in one sequence with the fork
  it reads. -/
  beside : ∀ before reference after, before ++ .reference reference :: after ∈ sequences root →
    reference.reruns = false → (∀ choice ∈ reference.choices, choice.isPlain = true) ∨
      ∃ fork, .fork fork ∈ before ∧ fork.identifier = some reference.target
  /-- Then that fork is not declared or executed again behind it in the sequence. -/
  quiet : ∀ before fork after name, before ++ .fork fork :: after ∈ sequences root →
    fork.identifier = some name →
      (∀ reader ∈ readersOf name after, ∀ choice ∈ reader.choices, choice.isPlain = true) ∨
        Quiet root name after
  /-- At most one of a branch and of what the references in the sequence have for it adds
  something. -/
  single : ∀ before fork after name, before ++ .fork fork :: after ∈ sequences root →
    fork.identifier = some name → ∀ index branch, fork.branches[index]? = some branch →
      (branch.choice :: (readersOf name after).filterMap (·.answer? index)).countP (!·.isPlain) ≤ 1
  /-- The same holds for a reference that executes its target again. -/
  repeated : ∀ reference, .reference reference ∈ nodesWithin root → reference.reruns = true →
    ∀ fork, Denotes root reference.target fork → ∀ index branch choice,
      fork.branches[index]? = some branch → reference.answer? index = some choice →
        branch.choice.isPlain = true ∨ choice.isPlain = true

end BranchText
