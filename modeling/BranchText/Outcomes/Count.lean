import BranchText.Outcomes.Graph

/-!
# Counting outcomes

How many texts a document can give, without drawing. Forks of a sequence multiply, branches of a
fork add up, and every mapping of a reference adds the outcomes it has beyond one.

`Graph.countFork` states the recursion plainly. `Graph.countForkCached` is the same recursion with
a cache of finished forks, and is the one that runs. Both take a bound on the nesting of forks and
have no answer when it is exceeded, which happens exactly where references form a cycle.
-/

namespace BranchText

namespace Outcomes

namespace Graph

/-- The sum of counts. -/
def addUp : List Nat → Nat
  | [] => 0
  | count :: rest => count + addUp rest

/-- The product of counts. -/
def multiply : List Nat → Nat
  | [] => 1
  | count :: rest => count * multiply rest

/-- The outcomes of a fork, from those of its branches and of the mappings that read it. -/
def combine (branches mapped : List Nat) : Nat :=
  addUp branches + addUp (mapped.map (· - 1))

/-- The outcomes of a fork with nesting below a bound. -/
def countFork (graph : Graph) : Nat → Nat → Option Nat
  | 0, _ => none
  | bound + 1, fork =>
    let countSequence (sequence : Sequence) : Option Nat :=
      (sequence.mapM (graph.countFork bound)).map multiply
    match graph.forks[fork]? with
    | none => some 0
    | some entry =>
      match entry.branches.mapM countSequence, entry.readers.flatten.mapM countSequence with
      | some branches, some mapped => some (combine branches mapped)
      | _, _ => none

/-- The outcomes of a sequence. -/
def countSequence (graph : Graph) (bound : Nat) (sequence : Sequence) : Option Nat :=
  (sequence.mapM (graph.countFork bound)).map multiply

/-- The counts of the forks that are finished. -/
abbrev Cache := Array (Option Nat)

/-- The outcomes of a fork with nesting below a bound, and the cache with everything counted on
the way. -/
def countForkCached (graph : Graph) : Nat → Nat → StateT Cache Option Nat
  | 0, _ => fun _ => none
  | bound + 1, fork => fun cache =>
    match cache[fork]? with
    | some (some count) => some (count, cache)
    | _ =>
      match graph.forks[fork]? with
      | none => some (0, cache)
      | some entry =>
        let countSequence (sequence : Sequence) : StateT Cache Option Nat := do
          return multiply (← sequence.mapM (graph.countForkCached bound))
        let count : StateT Cache Option Nat := do
          let branches ← entry.branches.mapM countSequence
          let mapped ← entry.readers.flatten.mapM countSequence
          let count := combine branches mapped
          modify (·.setIfInBounds fork (some count))
          return count
        count cache

/-- The outcomes of a sequence, counted with a cache that starts empty. -/
def countSequenceCached (graph : Graph) (bound : Nat) (sequence : Sequence) : Option Nat :=
  let counts := sequence.mapM (graph.countForkCached bound)
  (counts (Array.replicate graph.forks.size none)).map fun result => multiply result.1

/-- A bound on nesting that only a cycle can exceed: each level is a different fork. -/
def nestingBound (graph : Graph) : Nat := graph.forks.size + 1

end Graph

end Outcomes

/-- What can be said of a document without rendering it. -/
structure Analysis where
  /-- How many texts the document can give; no answer if its references form a cycle. -/
  possibleOutcomes : Option Nat
  forks : Nat
  references : Nat
  /-- The identifiers that are referred to but not declared before. -/
  unresolved : List String
  deriving Repr

/-- Analyzes a document. -/
def Document.analyze (document : Document) : Analysis :=
  let (root, graph) := Outcomes.ofNodes document.nodes .empty
  { possibleOutcomes := graph.countSequenceCached graph.nestingBound root
    forks := graph.forkNodes
    references := graph.referenceNodes
    unresolved := graph.unresolved }

end BranchText
