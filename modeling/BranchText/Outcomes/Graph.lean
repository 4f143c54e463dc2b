import BranchText.Document.Basic

/-!
# The fork graph of a document

Counting outcomes needs to know which forks a reference reads. The graph numbers the forks of a
document in the order they are completed. A sequence of nodes becomes the list of its forks, a
fork the list of its branches, and a reference leaves its mappings with every fork that its target
may be. A reference that executes its target again adds a fork of its own, over all branches that
the target may have.
-/

namespace BranchText

namespace Outcomes

/-- The forks of a sequence of nodes; their outcomes combine freely. -/
abbrev Sequence := List Nat

/-- A fork in the graph. -/
structure ForkEntry where
  branches : List Sequence
  /-- What each reference that reads the fork maps its branches to. -/
  readers : List (List Sequence)
  deriving Repr, Inhabited

/-- The forks of a document and the names they were declared under. -/
structure Graph where
  forks : Array ForkEntry
  /-- The forks that each name may stand for. -/
  names : List (String × List Nat)
  forkNodes : Nat
  referenceNodes : Nat
  /-- Names that were referred to before, or without, being declared, each once. -/
  unresolved : List String
  deriving Repr

namespace Graph

/-- No forks. -/
def empty : Graph := ⟨#[], [], 0, 0, []⟩

/-- The forks that a name may stand for. -/
def named? (graph : Graph) (name : String) : Option (List Nat) := graph.names.lookup name

/-- The branches of a fork. -/
def branchesOf (graph : Graph) (fork : Nat) : List Sequence :=
  match graph.forks[fork]? with
  | some entry => entry.branches
  | none => []

/-- Adds a fork that nothing reads yet. -/
def addFork (graph : Graph) (branches : List Sequence) : Nat × Graph :=
  (graph.forks.size, { graph with forks := graph.forks.push ⟨branches, []⟩ })

/-- Adds the mappings of a reference to the fork it reads. -/
def addReader (graph : Graph) (fork : Nat) (mapped : List Sequence) : Graph :=
  { graph with
    forks := graph.forks.modify fork fun entry =>
      { entry with readers := entry.readers ++ [mapped] } }

/-- Makes a name stand for one more fork. -/
def declareIn (name : String) (fork : Nat) : List (String × List Nat) → List (String × List Nat)
  | [] => [(name, [fork])]
  | (other, forks) :: rest =>
    if other = name then (other, if forks.contains fork then forks else forks ++ [fork]) :: rest
    else (other, forks) :: declareIn name fork rest

/-- Makes a name, if there is one, stand for one more fork. -/
def declare (graph : Graph) (name : Option String) (fork : Nat) : Graph :=
  match name with
  | none => graph
  | some name => { graph with names := declareIn name fork graph.names }

/-- Notes a name that stands for nothing. -/
def noteUnresolved (graph : Graph) (name : String) : Graph :=
  if graph.unresolved.contains name then graph
  else { graph with unresolved := graph.unresolved ++ [name] }

end Graph

/-- Adds a part of a document to a graph and returns the forks it contributes. -/
abbrev Builder := Graph → Sequence × Graph

/-- What a reference renders for each branch: its mappings, and the fallback for the others. -/
structure Mapped where
  mappings : List (Nat × Builder)
  fallback : Option Builder

namespace Mapped

/-- Whether the reference repeats its target. -/
def isCopy (mapped : Mapped) : Bool := mapped.mappings.isEmpty && mapped.fallback.isNone

/-- Adds what the reference renders for `count` branches starting at `branch`; branches without a
mapping and without a fallback add nothing. -/
def build (mapped : Mapped) (branch : Nat) : Nat → Graph → List Sequence × Graph
  | 0, graph => ([], graph)
  | count + 1, graph =>
    match (mapped.mappings.lookup branch).or mapped.fallback with
    | none => mapped.build (branch + 1) count graph
    | some builder =>
      let (sequence, graph) := builder graph
      let (rest, graph) := mapped.build (branch + 1) count graph
      (sequence :: rest, graph)

/-- Lets the reference read each of the forks, and stand for it under its own name. -/
def read (mapped : Mapped) (name : Option String) : List Nat → Graph → Graph
  | [], graph => graph
  | fork :: rest, graph =>
    let graph :=
      if mapped.isCopy then graph
      else
        let (sequences, graph) := mapped.build 0 (graph.branchesOf fork).length graph
        graph.addReader fork sequences
    mapped.read name rest (graph.declare name fork)

/-- Adds a reference. Executing the target again is a fork of its own. -/
def buildReference (mapped : Mapped) (target : String) (name : Option String) (reruns : Bool) :
    Builder := fun graph =>
  let graph := { graph with referenceNodes := graph.referenceNodes + 1 }
  match graph.named? target with
  | none => ([], graph.noteUnresolved target)
  | some forks =>
    if reruns then
      let (again, graph) := graph.addFork (forks.flatMap graph.branchesOf)
      ([again], mapped.read name [again] graph)
    else ([], mapped.read name forks graph)

end Mapped

mutual

/-- Adds a choice. Scripts and calls are opaque and contribute no fork. -/
def ofChoice : Choice → Builder
  | .nodes nodes => ofNodes nodes
  | .script _ => fun graph => ([], graph)
  | .call _ => fun graph => ([], graph)

/-- Adds a node. -/
def ofNode : Node → Builder
  | .text _ => fun graph => ([], graph)
  | .fork ⟨identifier, _, _, branches, _⟩ => fun graph =>
    let graph := { graph with forkNodes := graph.forkNodes + 1 }
    let (sequences, graph) := ofBranches branches graph
    let (fork, graph) := graph.addFork sequences
    ([fork], graph.declare identifier fork)
  | .reference ⟨target, identifier, _, mappings, fallback, reruns, _⟩ =>
    Mapped.buildReference ⟨ofMappings mappings, ofFallback fallback⟩ target identifier reruns

/-- Adds a sequence of nodes. -/
def ofNodes : List Node → Builder
  | [] => fun graph => ([], graph)
  | node :: rest => fun graph =>
    let (first, graph) := ofNode node graph
    let (others, graph) := ofNodes rest graph
    (first ++ others, graph)

/-- Adds branches. -/
def ofBranches : List Branch → Graph → List Sequence × Graph
  | [] => fun graph => ([], graph)
  | ⟨choice, _⟩ :: rest => fun graph =>
    let (first, graph) := ofChoice choice graph
    let (others, graph) := ofBranches rest graph
    (first :: others, graph)

/-- The builders of mappings. -/
def ofMappings : List Mapping → List (Nat × Builder)
  | [] => []
  | ⟨branch, choice⟩ :: rest => (branch, ofChoice choice) :: ofMappings rest

/-- The builder of a fallback. -/
def ofFallback : Option Choice → Option Builder
  | none => none
  | some choice => some (ofChoice choice)

end

end Outcomes

end BranchText
