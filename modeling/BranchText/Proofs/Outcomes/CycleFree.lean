import BranchText.Document.Reader
import BranchText.Proofs.Document.Ordered
import BranchText.Proofs.Outcomes.Covering
import BranchText.Proofs.Outcomes.Depth

/-!
# Documents whose counting ends

Building a graph shares branches: a reference that executes its target again has the branches of
the target, and what a reference renders is attached to forks that were built long before. So the
number of a fork says nothing of what it is counted for.

Each fork is given a mark when it is built. Its level is an upper bound for the heights of the names
that are counted with it, and its start is the size of the graph when building it began. Counting a
fork leads to forks of a lower level, or of the same level that were begun later, or that were begun
at the same place and are inside the fork. Where names have heights, building keeps the marks in
that order, so no fork is counted for itself.
-/

namespace BranchText

namespace Outcomes

open Graph
open Relation (TransGen)

/-- Where a fork stands among those that are counted with it. -/
structure Mark where
  /-- An upper bound for the heights of the names that are counted with the fork. -/
  level : Nat
  /-- The number of forks before the fork was begun. -/
  start : Nat

/-- The marks allow that one fork is counted for another. -/
def Falls (marks : Nat → Mark) (fork part : Nat) : Prop :=
  (marks part).level < (marks fork).level ∨
    (marks part).level ≤ (marks fork).level ∧ ((marks fork).start < (marks part).start ∨
      (marks fork).start ≤ (marks part).start ∧ part < fork)

theorem Falls.trans {marks : Nat → Mark} {fork part inner : Nat} (first : Falls marks fork part)
    (second : Falls marks part inner) : Falls marks fork inner := by
  unfold Falls at *
  omega

theorem not_falls_self {marks : Nat → Mark} {fork : Nat} : ¬ Falls marks fork fork := by
  unfold Falls
  omega

variable {root : List Node} {height : String → Nat}

/-- The nodes are nodes of the document, and their names are below the level. -/
structure Fits (root : List Node) (height : String → Nat) (level : Nat) (nodes : List Node) :
    Prop where
  subset : nodes ⊆ nodesWithin root
  below : ∀ node ∈ nodes, ∀ name, node.enters? = some name → height name < level

/-- A name stands for a fork that is marked above a fork of the document, and whose branches are
marked below the name. -/
structure Denoted (root : List Node) (height : String → Nat) (graph : Graph) (marks : Nat → Mark)
    (name : String) (id : Nat) : Prop where
  valid : id < graph.forks.size
  above : ∃ fork own, Denotes root name fork ∧ fork.identifier = some own ∧
    height own < (marks id).level
  branches : ∀ sequence ∈ graph.branchesOf id, ∀ part ∈ sequence,
    part < graph.forks.size ∧ (marks part).level ≤ height name

/-- The marks are in order. -/
structure Marked (root : List Node) (height : String → Nat) (graph : Graph) (marks : Nat → Mark) :
    Prop where
  start : ∀ id < graph.forks.size, (marks id).start ≤ id
  falls : ∀ id part, graph.Leads id part → part < graph.forks.size ∧ Falls marks id part
  names : ∀ name ids, graph.named? name = some ids →
    ids ≠ [] ∧ ∀ id ∈ ids, Denoted root height graph marks name id

/-- The forks of the graph have kept their marks and their branches. -/
structure Retains (before : Graph) (marks : Nat → Mark) (after : Graph) (later : Nat → Mark) :
    Prop where
  size : before.forks.size ≤ after.forks.size
  branches : ∀ id < before.forks.size, after.branchesOf id = before.branchesOf id
  marks : ∀ id < before.forks.size, later id = marks id

/-- The forks that are added to a marked graph can be marked, up to a level. -/
def Settles (root : List Node) (height : String → Nat) (level : Nat) (before : Graph)
    (marks : Nat → Mark) (added : List Nat) (after : Graph) : Prop :=
  ∃ later, Marked root height after later ∧ Retains before marks after later ∧
    ∀ id ∈ added, before.forks.size ≤ (later id).start ∧ id < after.forks.size ∧
      (later id).level ≤ level

/-- Whatever level the choice fits, the forks that are built for it can be marked up to it. -/
def Fitting (root : List Node) (height : String → Nat) (choice : Choice) : Prop :=
  ∀ level, Fits root height level choice.within → ∀ before marks,
    Marked root height before marks →
      Settles root height level before marks (ofChoice choice before).1 (ofChoice choice before).2

theorem Marked.cycleFree {graph : Graph} {marks : Nat → Mark}
    (marked : Marked root height graph marks) : graph.CycleFree := by
  have falls : ∀ {fork part : Nat}, TransGen graph.Leads fork part → Falls marks fork part := by
    intro fork part counted
    induction counted with
    | single leads => exact (marked.falls _ _ leads).2
    | tail _ leads ih => exact ih.trans (marked.falls _ _ leads).2
  exact fun fork cycle => not_falls_self (falls cycle)

/-! ## Marks along the way -/

section Retains

variable {before between after : Graph} {marks later last : Nat → Mark} {level : Nat}
  {added more : List Nat}

theorem Retains.of_eq (forks : after.forks = before.forks) : Retains before marks after marks where
  size := forks.symm ▸ Nat.le_refl _
  branches id _ := by rw [branchesOf, branchesOf, forks]
  marks _ _ := rfl

theorem Retains.trans (early : Retains before marks between later)
    (late : Retains between later after last) : Retains before marks after last where
  size := early.size.trans late.size
  branches id valid :=
    (late.branches id (Nat.lt_of_lt_of_le valid early.size)).trans (early.branches id valid)
  marks id valid :=
    (late.marks id (Nat.lt_of_lt_of_le valid early.size)).trans (early.marks id valid)

theorem Denoted.keep {name : String} {id : Nat} (denoted : Denoted root height before marks name id)
    (keeps : Retains before marks after later) : Denoted root height after later name id where
  valid := Nat.lt_of_lt_of_le denoted.valid keeps.size
  above := by
    rw [keeps.marks id denoted.valid]
    exact denoted.above
  branches := by
    rw [keeps.branches id denoted.valid]
    intro sequence member part listed
    obtain ⟨valid, below⟩ := denoted.branches sequence member part listed
    rw [keeps.marks part valid]
    exact ⟨Nat.lt_of_lt_of_le valid keeps.size, below⟩

theorem Marked.of_eq (marked : Marked root height before marks) (forks : after.forks = before.forks)
    (named : after.names = before.names) : Marked root height after marks where
  start := by
    rw [forks]
    exact marked.start
  falls := by
    unfold Leads
    rw [forks]
    exact marked.falls
  names := by
    intro name ids found
    rw [named?, named] at found
    obtain ⟨nonempty, denoted⟩ := marked.names name ids found
    exact ⟨nonempty, fun id member => (denoted id member).keep (.of_eq forks)⟩

theorem Settles.of_eq (marked : Marked root height before marks)
    (forks : after.forks = before.forks) (named : after.names = before.names) :
    Settles root height level before marks [] after :=
  ⟨marks, marked.of_eq forks named, .of_eq forks, fun _ member => absurd member List.not_mem_nil⟩

theorem Settles.noteUnresolved {name : String} (marked : Marked root height before marks) :
    Settles root height level before marks [] (before.noteUnresolved name) := by
  unfold Graph.noteUnresolved
  split
  · exact .of_eq marked rfl rfl
  · exact .of_eq marked rfl rfl

theorem Settles.trans (first : Settles root height level before marks added between)
    (second : ∀ later, Marked root height between later →
      Settles root height level between later more after) :
    Settles root height level before marks (added ++ more) after := by
  obtain ⟨later, marked, early, mine⟩ := first
  obtain ⟨last, marked, late, others⟩ := second later marked
  refine ⟨last, marked, early.trans late, fun id member => ?_⟩
  rcases List.mem_append.1 member with here | there
  · obtain ⟨start, valid, below⟩ := mine id here
    rw [late.marks id valid]
    exact ⟨start, Nat.lt_of_lt_of_le valid late.size, below⟩
  · obtain ⟨start, valid, below⟩ := others id there
    exact ⟨early.size.trans start, valid, below⟩

theorem Fits.mono {nodes inner : List Node} (fits : Fits root height level nodes)
    (subset : inner ⊆ nodes) : Fits root height level inner :=
  ⟨List.Subset.trans subset fits.subset, fun node member => fits.below node (subset member)⟩

end Retains

/-! ## Primitive additions -/

section Primitives

variable {graph : Graph} {marks : Nat → Mark}

theorem branchesOf_addFork {branches : List Sequence} :
    (graph.addFork branches).2.branchesOf graph.forks.size = branches := by
  have found : (graph.addFork branches).2.forks[graph.forks.size]? = some ⟨branches, []⟩ := by
    rw [getElem?_addFork, if_pos rfl]
  exact branchesOf_of_found found

/-- A fork that is added can be marked in any way that its branches are in order with. -/
theorem Marked.addFork (marked : Marked root height graph marks) (mark : Mark)
    {branches : List Sequence} (start : mark.start ≤ graph.forks.size)
    (falls : ∀ sequence ∈ branches, ∀ part ∈ sequence, part < graph.forks.size ∧
      ((marks part).level < mark.level ∨
        (marks part).level ≤ mark.level ∧ mark.start ≤ (marks part).start)) :
    Marked root height (graph.addFork branches).2 (Function.update marks graph.forks.size mark) ∧
      Retains graph marks (graph.addFork branches).2
        (Function.update marks graph.forks.size mark) := by
  have older : ∀ id < graph.forks.size,
      Function.update marks graph.forks.size mark id = marks id :=
    fun id valid => Function.update_of_ne (Nat.ne_of_lt valid) ..
  have keeps : Retains graph marks (graph.addFork branches).2
      (Function.update marks graph.forks.size mark) :=
    ⟨by rw [size_addFork]; exact Nat.le_succ _, fun id => (grows_addFork graph branches).branchesOf,
      older⟩
  refine ⟨⟨fun id valid => ?_, fun id part leads => ?_, fun name ids found => ?_⟩, keeps⟩
  · rcases Nat.lt_or_eq_of_le (Nat.le_of_lt_succ (size_addFork graph branches ▸ valid)) with
      old | rfl
    · rw [older id old]
      exact marked.start id old
    · rw [Function.update_self]
      exact start
  · rw [size_addFork]
    obtain ⟨entry, found, sequence, member, listed⟩ := leads
    rw [getElem?_addFork] at found
    split at found
    · rename_i same
      subst same
      cases found
      rw [List.flatten_nil, List.append_nil] at member
      obtain ⟨valid, order⟩ := falls sequence member part listed
      refine ⟨Nat.lt_succ_of_lt valid, ?_⟩
      rw [Falls, older part valid, Function.update_self]
      exact order.imp_right fun ⟨level, later⟩ => ⟨level, .inr ⟨later, valid⟩⟩
    · have leads : graph.Leads id part := ⟨entry, found, sequence, member, listed⟩
      obtain ⟨valid, order⟩ := marked.falls id part leads
      refine ⟨Nat.lt_succ_of_lt valid, ?_⟩
      rw [Falls, older part valid, older id leads.lt_size]
      exact order
  · obtain ⟨nonempty, denoted⟩ := marked.names name ids found
    exact ⟨nonempty, fun id member => (denoted id member).keep keeps⟩

theorem Retains.addReader (fork : Nat) (mapped : List Sequence) :
    Retains graph marks (graph.addReader fork mapped) marks where
  size := (Array.size_modify ..).ge
  branches _ := (grows_addReader graph fork mapped).branchesOf
  marks _ _ := rfl

theorem Marked.addReader (marked : Marked root height graph marks) {fork : Nat}
    {mapped : List Sequence} (falls : ∀ sequence ∈ mapped, ∀ part ∈ sequence,
      part < graph.forks.size ∧ Falls marks fork part) :
    Marked root height (graph.addReader fork mapped) marks := by
  have size : (graph.addReader fork mapped).forks.size = graph.forks.size := Array.size_modify ..
  refine ⟨?start, fun id part leads => ?_, fun name ids found => ?_⟩
  case start =>
    rw [size]
    exact marked.start
  · rw [size]
    obtain ⟨entry, found, sequence, member, listed⟩ := leads
    rw [getElem?_addReader] at found
    obtain ⟨entry, before, rfl⟩ := Option.map_eq_some_iff.1 found
    have old (member : sequence ∈ entry.branches ++ entry.readers.flatten) :=
      marked.falls id part ⟨entry, before, sequence, member, listed⟩
    split at member
    · rename_i same
      subst same
      rw [List.flatten_append, List.flatten_singleton, ← List.append_assoc,
        List.mem_append] at member
      exact member.elim old fun added => falls sequence added part listed
    · exact old member
  · obtain ⟨nonempty, denoted⟩ := marked.names name ids found
    exact ⟨nonempty, fun id member => (denoted id member).keep (.addReader ..)⟩

theorem Marked.declare (marked : Marked root height graph marks) {name : Option String} {id : Nat}
    (denoted : ∀ own, name = some own → Denoted root height graph marks own id) :
    Marked root height (graph.declare name id) marks := by
  cases name with
  | none => exact marked
  | some name =>
    refine ⟨marked.start, marked.falls, fun other ids found => ?_⟩
    rw [named?_declare] at found
    split at found
    · rename_i same
      subst same
      cases found
      refine ⟨List.ne_nil_of_mem (mem_joined.2 (.inl rfl)), fun id member => ?_⟩
      rcases mem_joined.1 member with rfl | ⟨ids, known, listed⟩
      · exact (denoted _ rfl).keep (.of_eq rfl)
      · exact ((marked.names _ ids known).2 id listed).keep (.of_eq rfl)
    · obtain ⟨nonempty, denoted⟩ := marked.names other ids found
      exact ⟨nonempty, fun id member => (denoted id member).keep (.of_eq rfl)⟩

theorem marked_empty (marks : Nat → Mark) : Marked root height empty marks where
  start _ valid := absurd valid (Nat.not_lt_zero _)
  falls _ _ leads := absurd leads.lt_size (Nat.not_lt_zero _)
  names _ _ found := nomatch found

end Primitives

/-! ## References -/

section References

variable {reference : Reference} (heights : Heights root height)
  (within : .reference reference ∈ nodesWithin root)
  (each : ∀ choice ∈ reference.choices, Fitting root height choice)

omit heights within in
include each in
theorem settles_build {level : Nat} (fits : Fits root height level reference.nested)
    (start count : Nat) {before : Graph} {marks : Nat → Mark}
    (marked : Marked root height before marks) :
    Settles root height level before marks
      ((mappedOf reference).build start count before).1.flatten
      ((mappedOf reference).build start count before).2 := by
  induction count generalizing start before marks with
  | zero => exact .of_eq marked rfl rfl
  | succ count ih =>
    cases found : reference.answer? start with
    | none =>
      rw [build_none _ found]
      exact ih _ marked
    | some choice =>
      rw [build_some _ found]
      have member := Reference.mem_choices_of_answer? found
      exact (each choice member level (fits.mono (Reference.choice_nested member)) before marks
        marked).trans fun later marked => ih _ marked

include within in
omit each in
/-- Everything that a reference renders fits in with a fork that the reference reads. -/
theorem fits_nested {fork : Fork} {own : String} (denotes : Denotes root reference.target fork)
    (identifier : fork.identifier = some own) (heights : Heights root height) :
    Fits root height (height own + 1) reference.nested where
  subset := by
    refine List.Subset.trans ?_ (within_subset_nodesWithin root _ within)
    rw [Reference.within_reference]
    exact List.subset_cons_self ..
  below node member name enters :=
    Nat.lt_succ_of_le (heights.readers within denotes identifier member enters)

include heights within in
omit each in
/-- A reference stands for whatever its target stands for. -/
theorem Denoted.named {graph : Graph} {marks : Nat → Mark} {id : Nat} {name : String}
    (denoted : Denoted root height graph marks reference.target id)
    (declares : reference.identifier = some name) : Denoted root height graph marks name id where
  valid := denoted.valid
  above := by
    obtain ⟨fork, own, denotes, identifier, above⟩ := denoted.above
    exact ⟨fork, own, .named within declares denotes, identifier, above⟩
  branches sequence member part listed := by
    obtain ⟨valid, below⟩ := denoted.branches sequence member part listed
    exact ⟨valid, below.trans (heights.targets within declares).le⟩

include heights within each

/-- A reference that reads a fork is begun behind the fork, and is not above it. -/
theorem settles_withReader {before : Graph} {marks : Nat → Mark}
    (marked : Marked root height before marks) {id : Nat}
    (denoted : Denoted root height before marks reference.target id) :
    ∃ later, Marked root height (withReader reference id before) later ∧
      Retains before marks (withReader reference id before) later := by
  unfold withReader
  split
  · exact ⟨marks, marked, .of_eq rfl⟩
  · obtain ⟨fork, own, denotes, identifier, above⟩ := denoted.above
    obtain ⟨later, marked, keeps, added⟩ := settles_build each
      (fits_nested within denotes identifier heights) 0 (before.branchesOf id).length marked
    refine ⟨later, marked.addReader fun sequence member part listed => ?_,
      keeps.trans (.addReader ..)⟩
    obtain ⟨start, valid, below⟩ := added part (List.mem_flatten.2 ⟨sequence, member, listed⟩)
    refine ⟨valid, .inr ?_⟩
    rw [keeps.marks id denoted.valid]
    have begun := (keeps.marks id denoted.valid ▸
      marked.start id (Nat.lt_of_lt_of_le denoted.valid keeps.size) : (marks id).start ≤ id)
    exact ⟨below.trans above, .inl (by have valid := denoted.valid; omega)⟩

theorem settles_read {ids : List Nat} {before : Graph} {marks : Nat → Mark}
    (marked : Marked root height before marks)
    (denoted : ∀ id ∈ ids, Denoted root height before marks reference.target id) :
    ∃ later, Marked root height ((mappedOf reference).read reference.identifier ids before) later ∧
      Retains before marks ((mappedOf reference).read reference.identifier ids before) later := by
  induction ids generalizing before marks with
  | nil => exact ⟨marks, marked, .of_eq rfl⟩
  | cons id rest ih =>
    rw [read_cons]
    have here := denoted id (List.mem_cons_self ..)
    obtain ⟨later, markedRead, keeps⟩ := settles_withReader heights within each marked here
    have markedNow : Marked root height (reading reference id before) later :=
      markedRead.declare fun name declares => (here.keep keeps).named heights within declares
    have keepsNow : Retains before marks (reading reference id before) later :=
      keeps.trans (.of_eq (forks_declare ..))
    obtain ⟨last, marked, others⟩ := ih markedNow fun id member =>
      (denoted id (List.mem_cons_of_mem _ member)).keep keepsNow
    exact ⟨last, marked, keepsNow.trans others⟩

omit within each in
/-- A reference that executes its target again adds a fork which its target stands for as well. -/
theorem exists_again {graph : Graph} {marks : Nat → Mark}
    (marked : Marked root height graph marks) {ids : List Nat} {target : String}
    (found : graph.named? target = some ids) {level : Nat} (below : height target < level) :
    ∃ later, Marked root height (graph.addFork (ids.flatMap graph.branchesOf)).2 later ∧
      Retains graph marks (graph.addFork (ids.flatMap graph.branchesOf)).2 later ∧
      Denoted root height (graph.addFork (ids.flatMap graph.branchesOf)).2 later target
        graph.forks.size ∧
      later graph.forks.size = ⟨level, graph.forks.size⟩ := by
  obtain ⟨nonempty, denoted⟩ := marked.names target ids found
  -- The branches of the new fork are those of the target, and are not above the target.
  have shared : ∀ sequence ∈ ids.flatMap graph.branchesOf, ∀ part ∈ sequence,
      part < graph.forks.size ∧ (marks part).level ≤ height target := by
    intro sequence member
    obtain ⟨id, known, listed⟩ := List.mem_flatMap.1 member
    exact (denoted id known).branches sequence listed
  obtain ⟨markedAgain, keeps⟩ := marked.addFork ⟨level, graph.forks.size⟩ (Nat.le_refl _)
    fun sequence member part listed =>
      have known := shared sequence member part listed
      ⟨known.1, .inl (Nat.lt_of_le_of_lt known.2 below)⟩
  refine ⟨_, markedAgain, keeps, ⟨?valid, ?above, ?branches⟩, Function.update_self ..⟩
  case valid =>
    rw [size_addFork]
    exact Nat.lt_succ_self _
  case above =>
    obtain ⟨id, member⟩ := List.exists_mem_of_ne_nil ids nonempty
    obtain ⟨fork, own, denotes, identifier, -⟩ := (denoted id member).above
    rw [Function.update_self]
    exact ⟨fork, own, denotes, identifier,
      Nat.lt_of_le_of_lt (heights.le_of_denotes denotes identifier) below⟩
  case branches =>
    rw [branchesOf_addFork, size_addFork]
    intro sequence member part listed
    obtain ⟨valid, below⟩ := shared sequence member part listed
    rw [keeps.marks part valid]
    exact ⟨Nat.lt_succ_of_lt valid, below⟩

theorem settles_reference {level : Nat}
    (fits : Fits root height level (Node.reference reference).within) {before : Graph}
    {marks : Nat → Mark} (marked : Marked root height before marks) :
    Settles root height level before marks (ofNode (.reference reference) before).1
      (ofNode (.reference reference) before).2 := by
  have markedEntered : Marked root height (entered before) marks := marked.of_eq rfl rfl
  have enters : Retains before marks (entered before) marks := .of_eq rfl
  cases found : before.named? reference.target with
  | none =>
    rw [ofNode_unknown found]
    obtain ⟨later, marked, keeps, -⟩ : Settles root height level (entered before) marks []
      ((entered before).noteUnresolved reference.target) := .noteUnresolved markedEntered
    exact ⟨later, marked, enters.trans keeps, fun _ member => absurd member List.not_mem_nil⟩
  | some ids =>
    have named : (entered before).named? reference.target = some ids := found
    cases reruns : reference.reruns with
    | false =>
      rw [ofNode_look reruns found]
      obtain ⟨later, marked, keeps⟩ := settles_read heights within each markedEntered
        (markedEntered.names reference.target ids named).2
      exact ⟨later, marked, enters.trans keeps, fun _ member => absurd member List.not_mem_nil⟩
    | true =>
      rw [ofNode_again reruns found]
      have target : height reference.target < level :=
        fits.below _ (Node.self_mem_within _) _ (by rw [Node.enters?, reruns]; rfl)
      obtain ⟨between, markedAgain, keepsAgain, again, mark⟩ :=
        exists_again heights markedEntered named target
      obtain ⟨later, marked, keeps⟩ := settles_read heights within each markedAgain
        (List.forall_mem_singleton.2 again)
      refine ⟨later, marked, enters.trans (keepsAgain.trans keeps),
        List.forall_mem_singleton.2 ?_⟩
      have kept : later before.forks.size = ⟨level, before.forks.size⟩ :=
        (keeps.marks _ again.valid).trans mark
      rw [kept]
      exact ⟨Nat.le_refl _, Nat.lt_of_lt_of_le again.valid keeps.size, Nat.le_refl _⟩

end References

/-! ## Documents -/

/-- The forks in the branches of a fork are below it, if it has a name, and like it otherwise. -/
theorem exists_inside (heights : Heights root height) {fork : Fork} {level : Nat}
    (fits : Fits root height level (Node.fork fork).within) :
    ∃ inside outside, Fits root height inside (withinBranches fork.branches) ∧
      inside ≤ outside ∧ outside ≤ level ∧ ∀ own, fork.identifier = some own →
        inside ≤ height own ∧ height own < outside := by
  have itself : .fork fork ∈ nodesWithin root := fits.subset (Node.self_mem_within _)
  have subset : withinBranches fork.branches ⊆ (Node.fork fork).within := by
    cases fork
    exact List.subset_cons_self ..
  cases declares : fork.identifier with
  | none => exact ⟨level, level, fits.mono subset, Nat.le_refl _, Nat.le_refl _, by simp⟩
  | some own =>
    refine ⟨height own, height own + 1, ⟨List.Subset.trans subset fits.subset,
      fun node member name enters => heights.branches itself declares member enters⟩,
      Nat.le_succ _, fits.below _ (Node.self_mem_within _) own declares, ?_⟩
    rintro _ ⟨⟩
    exact ⟨Nat.le_refl _, Nat.lt_succ_self _⟩

theorem settles_fork (heights : Heights root height) {fork : Fork}
    (each : ∀ level, Fits root height level (withinBranches fork.branches) → ∀ before marks,
      Marked root height before marks → Settles root height level before marks
        (ofBranches fork.branches before).1.flatten (ofBranches fork.branches before).2)
    {level : Nat} (fits : Fits root height level (Node.fork fork).within) {before : Graph}
    {marks : Nat → Mark} (marked : Marked root height before marks) :
    Settles root height level before marks (ofNode (.fork fork) before).1
      (ofNode (.fork fork) before).2 := by
  obtain ⟨inside, outside, fitsInside, wider, le, names⟩ := exists_inside heights fits
  let start : Graph := { before with forkNodes := before.forkNodes + 1 }
  have enters : Retains before marks start marks := .of_eq rfl
  obtain ⟨between, marked, keeps, added⟩ : Settles root height inside start marks
      (withBranches before fork).1.flatten (withBranches before fork).2 :=
    each inside fitsInside start marks (marked.of_eq rfl rfl)
  have order : ∀ sequence ∈ (withBranches before fork).1, ∀ part ∈ sequence,
      before.forks.size ≤ (between part).start ∧
        part < (withBranches before fork).2.forks.size ∧ (between part).level ≤ inside :=
    fun sequence member part listed => added part (List.mem_flatten.2 ⟨sequence, member, listed⟩)
  rw [ofNode_fork]
  obtain ⟨markedFork, keepsFork⟩ := marked.addFork ⟨outside, before.forks.size⟩ keeps.size
    fun sequence member part listed =>
      have ⟨begun, valid, below⟩ := order sequence member part listed
      ⟨valid, .inr ⟨below.trans wider, begun⟩⟩
  refine ⟨_, markedFork.declare fun own declares => ⟨?valid, ?above, ?branches⟩,
    (enters.trans (keeps.trans keepsFork)).trans (.of_eq (forks_declare ..)),
    List.forall_mem_singleton.2 ⟨?start, ?size, ?level⟩⟩
  case valid =>
    rw [size_addFork]
    exact Nat.lt_succ_self _
  case above =>
    rw [Function.update_self]
    exact ⟨fork, own, .declared (fits.subset (Node.self_mem_within _)) declares, declares,
      (names own declares).2⟩
  case branches =>
    rw [branchesOf_addFork, size_addFork]
    intro sequence member part listed
    obtain ⟨-, valid, below⟩ := order sequence member part listed
    rw [keepsFork.marks part valid]
    exact ⟨Nat.lt_succ_of_lt valid, below.trans (names own declares).1⟩
  case start =>
    rw [Function.update_self]
  case size =>
    rw [forks_declare, size_addFork]
    exact Nat.lt_succ_self _
  case level =>
    rw [Function.update_self]
    exact le

mutual

theorem settles_ofNodes (heights : Heights root height) (nodes : List Node) {level : Nat}
    (fits : Fits root height level (nodesWithin nodes)) (before : Graph) (marks : Nat → Mark)
    (marked : Marked root height before marks) :
    Settles root height level before marks (ofNodes nodes before).1 (ofNodes nodes before).2 := by
  match nodes with
  | [] => exact .of_eq marked rfl rfl
  | node :: rest =>
    rw [nodesWithin] at fits
    rw [ofNodes_cons]
    exact (settles_ofNode heights node (fits.mono (List.subset_append_left ..)) before marks
      marked).trans (settles_ofNodes heights rest (fits.mono (List.subset_append_right ..)) _)

theorem settles_ofNode (heights : Heights root height) (node : Node) {level : Nat}
    (fits : Fits root height level node.within) (before : Graph) (marks : Nat → Mark)
    (marked : Marked root height before marks) :
    Settles root height level before marks (ofNode node before).1 (ofNode node before).2 := by
  match node with
  | .text content => exact .of_eq marked rfl rfl
  | .fork ⟨identifier, silent, isSet, branches, span⟩ =>
    exact settles_fork heights (fun level => settles_ofBranches heights branches) fits marked
  | .reference ⟨target, identifier, silent, mappings, fallback, reruns, span⟩ =>
    have each : ∀ choice ∈ Reference.choices
        ⟨target, identifier, silent, mappings, fallback, reruns, span⟩,
        Fitting root height choice := by
      intro choice member
      rcases List.mem_append.1 member with mapped | fallen
      · obtain ⟨mapping, listed, rfl⟩ := List.mem_map.1 mapped
        exact settles_ofMappings heights mappings mapping listed
      · exact settles_ofFallback heights fallback choice (Option.mem_toList.1 fallen)
    exact settles_reference heights (fits.subset (Node.self_mem_within _)) each fits marked

theorem settles_ofChoice (heights : Heights root height) (choice : Choice) :
    Fitting root height choice := by
  match choice with
  | .nodes nodes => exact fun level => settles_ofNodes heights nodes
  | .script _ => exact fun _ _ _ _ marked => .of_eq marked rfl rfl
  | .call _ => exact fun _ _ _ _ marked => .of_eq marked rfl rfl

theorem settles_ofBranches (heights : Heights root height) (branches : List Branch) {level : Nat}
    (fits : Fits root height level (withinBranches branches)) (before : Graph)
    (marks : Nat → Mark) (marked : Marked root height before marks) :
    Settles root height level before marks (ofBranches branches before).1.flatten
      (ofBranches branches before).2 := by
  match branches with
  | [] => exact .of_eq marked rfl rfl
  | ⟨choice, weight⟩ :: rest =>
    rw [withinBranches] at fits
    rw [ofBranches_cons]
    exact (settles_ofChoice heights choice level (fits.mono (List.subset_append_left ..)) before
      marks marked).trans
        (settles_ofBranches heights rest (fits.mono (List.subset_append_right ..)) _)

theorem settles_ofMappings (heights : Heights root height) (mappings : List Mapping) :
    ∀ mapping ∈ mappings, Fitting root height mapping.choice := by
  match mappings with
  | [] => exact fun _ member => absurd member List.not_mem_nil
  | ⟨branch, choice⟩ :: rest =>
    intro mapping member
    rcases List.mem_cons.1 member with rfl | later
    · exact settles_ofChoice heights choice
    · exact settles_ofMappings heights rest mapping later

theorem settles_ofFallback (heights : Heights root height) (fallback : Option Choice) :
    ∀ choice ∈ fallback, Fitting root height choice := by
  match fallback with
  | none => exact fun _ member => nomatch member
  | some choice =>
    rintro _ ⟨⟩
    exact settles_ofChoice heights choice

end

/-- Where the names of a document have heights, no fork of its graph is counted for itself. -/
theorem cycleFree_ofNodes (heights : Heights root height) {bound : Nat}
    (bounded : ∀ name, height name < bound) : (ofNodes root empty).2.CycleFree := by
  obtain ⟨marks, marked, -⟩ := settles_ofNodes heights root
    ⟨List.Subset.refl _, fun _ _ name _ => bounded name⟩ empty (fun _ => ⟨0, 0⟩) (marked_empty _)
  exact marked.cycleFree

end Outcomes

namespace Document

/-- A fork that its readers execute again, and one of them holds a fork with a name. -/
def againWithin : Document :=
  ⟨[.fork ⟨some "N", false, false, [⟨.nodes [.text "a"], none⟩], ⟨0, 8⟩⟩,
    .reference ⟨"N", none, false, [⟨0, .nodes [.reference ⟨"N", none, false, [], none, true,
      ⟨19, 28⟩⟩]⟩], none, false, ⟨8, 30⟩⟩,
    .reference ⟨"N", none, false, [⟨0, .nodes [.fork ⟨some "X", false, false,
      [⟨.nodes [.text "x"], none⟩], ⟨46, 54⟩⟩]⟩], none, true, ⟨30, 56⟩⟩], [], []⟩

/-- A fork in a branch of another one, and a reader of it that executes the other one again. -/
def againAround : Document :=
  ⟨[.fork ⟨some "A", false, false, [⟨.nodes [.fork ⟨some "B", false, false,
      [⟨.nodes [.text "b"], none⟩], ⟨5, 13⟩⟩], none⟩], ⟨0, 15⟩⟩,
    .reference ⟨"B", none, false, [⟨0, .nodes [.reference ⟨"A", none, false, [], none, true,
      ⟨26, 35⟩⟩]⟩], none, false, ⟨15, 37⟩⟩], [], []⟩

end Document

end BranchText
