import BranchText.Proofs.Outcomes.Accountable
import BranchText.Proofs.Outcomes.Growth
import Mathlib.Data.List.Forall2

/-!
# What the graph says of a document

A sequence of the graph covers a choice of the document if it was built for it on the way to the
whole graph, and only names that are declared later have come to stand for more since. What a
sequence covers can be taken apart: its forks have the branches of the forks of the document, and
are read by what the references that look at them render.
-/

namespace BranchText

namespace Outcomes

open Graph
open List (Forall₂)

variable {graph : Graph}

/-- The sequence was built for the choice on the way to the graph. -/
def Covers (graph : Graph) (choice : Choice) (sequence : Sequence) : Prop :=
  ∃ before later, before.Solid ∧ Branching choice.within ∧ choice.pointsBack later = true ∧
    (ofChoice choice before).1 = sequence ∧ Grows later (ofChoice choice before).2 graph

/-- The sequences are those of what the reference renders for the branches from one on. -/
inductive MapsTo (graph : Graph) (reference : Reference) : Nat → Nat → List Sequence → Prop
  | done (start : Nat) : MapsTo graph reference start 0 []
  | unmapped {start count : Nat} {mapped : List Sequence}
    (none : reference.answer? start = none)
    (rest : MapsTo graph reference (start + 1) count mapped) :
    MapsTo graph reference start (count + 1) mapped
  | mapped {start count : Nat} {choice : Choice} {sequence : Sequence} {mapped : List Sequence}
    (found : reference.answer? start = some choice) (covers : Covers graph choice sequence)
    (rest : MapsTo graph reference (start + 1) count mapped) :
    MapsTo graph reference start (count + 1) (sequence :: mapped)

/-- Among the readers of a fork with so many branches are those for the references. -/
def ReadBy (graph : Graph) (count : Nat) (readers : List (List Sequence))
    (references : List Reference) : Prop :=
  ∃ lists : List (List Sequence), lists.Sublist readers ∧
    Forall₂ (fun reference mapped => MapsTo graph reference 0 count mapped) references lists

/-- The branches of the fork with the number include those of the fork. -/
def Serves (graph : Graph) (id : Nat) (fork : Fork) : Prop :=
  ∃ front middle back, graph.branchesOf id = front ++ middle ++ back ∧
    Forall₂ (fun branch sequence => Covers graph branch.choice sequence) fork.branches middle

/-- The name is known to stand for the fork. -/
def Known (graph : Graph) (name : String) (fork : Fork) : Prop :=
  ∃ ids, graph.named? name = some ids ∧ ∃ id ∈ ids, Serves graph id fork

/-! ## References -/

section References

variable {reference : Reference} {names later : List String}

/-- What has to be known of the choices of a reference that is built. -/
structure Placed (reference : Reference) (names later : List String) : Prop where
  adds : ∀ choice ∈ reference.choices, Adds names choice
  branching : ∀ choice ∈ reference.choices, Branching choice.within
  behind : ∀ choice ∈ reference.choices, choice.pointsBack later = true
  subset : names ⊆ later

variable (placed : Placed reference names later)
include placed

theorem mapsTo_build {before : Graph} (solid : before.Solid) {start count : Nat}
    (grows : Grows later ((mappedOf reference).build start count before).2 graph) :
    MapsTo graph reference start count ((mappedOf reference).build start count before).1 := by
  induction count generalizing start before with
  | zero => exact .done start
  | succ count ih =>
    cases found : reference.answer? start with
    | none =>
      rw [build_none _ found] at grows ⊢
      exact .unmapped found (ih solid grows)
    | some choice =>
      rw [build_some _ found] at grows ⊢
      have member := Reference.mem_choices_of_answer? found
      have others := builds_build placed.adds (start + 1) count (ofChoice choice before).2
      refine .mapped found ⟨before, later, solid, placed.branching _ member,
        placed.behind _ member, rfl, ?_⟩ (ih ((placed.adds _ member before).solid solid).1 grows)
      exact (others.grows.trans grows).mono (List.append_subset.2 ⟨placed.subset,
        List.Subset.refl _⟩)

/-- A reference that reads forks is among the readers of each of them. -/
theorem exists_reader (renders : reference.isCopy = false)
    (declares : reference.identifier.toList ⊆ later) {ids : List Nat} {before : Graph}
    (solid : before.Solid) (below : ∀ id ∈ ids, id < before.forks.size) {id : Nat}
    (member : id ∈ ids) {entry : ForkEntry} (found : before.forks[id]? = some entry)
    (grows : Grows later ((mappedOf reference).read reference.identifier ids before) graph) :
    ∃ mapped, ∃ last : ForkEntry,
      ((mappedOf reference).read reference.identifier ids before).forks[id]? = some last ∧
        last.branches = entry.branches ∧ (entry.readers ++ [mapped]).Sublist last.readers ∧
          MapsTo graph reference 0 entry.branches.length mapped := by
  have inLater : names ++ reference.identifier.toList ⊆ later :=
    List.append_subset.2 ⟨placed.subset, declares⟩
  induction ids generalizing before entry with
  | nil => cases member
  | cons fork rest ih =>
    rw [read_cons] at grows ⊢
    have valid := below fork (List.mem_cons_self ..)
    have first := grows_reading placed.adds fork before
    have others := grows_read placed.adds rest (reading reference fork before)
    by_cases here : fork = id
    -- The reference is noted now, and every later reader behind it.
    · subst here
      let built := (mappedOf reference).build 0 (before.branchesOf fork).length before
      have builds : Builds names before built.2 built.1.flatten := builds_build placed.adds ..
      have same : reading reference fork before =
          (built.2.addReader fork built.1).declare reference.identifier fork := by
        rw [reading, withReader, renders]
        rfl
      obtain ⟨then', foundThen, sameThen, readersThen⟩ := builds.grows.forks fork entry found
      have foundNow : (reading reference fork before).forks[fork]? =
          some { then' with readers := then'.readers ++ [built.1] } := by
        rw [same, forks_declare, getElem?_addReader, foundThen, Option.map_some, if_pos rfl]
      obtain ⟨last, foundLast, sameLast, readersLast⟩ := others.forks fork _ foundNow
      refine ⟨built.1, last, foundLast, sameLast.trans sameThen,
        (readersThen.append_right [built.1]).trans readersLast, ?_⟩
      have toEnd : Grows later built.2 graph := by
        have added := (grows_addReader built.2 fork built.1).trans
          (grows_declare _ reference.identifier fork)
        rw [← same] at added
        exact ((added.trans others).trans grows).mono (by
          rw [List.nil_append]
          exact List.append_subset.2 ⟨List.append_subset.2 ⟨declares, inLater⟩,
            List.Subset.refl _⟩)
      rw [← branchesOf_of_found found]
      exact mapsTo_build placed solid toEnd
    · obtain ⟨then', foundThen, sameBranches, readersThen⟩ := first.forks id entry found
      have inRest : id ∈ rest := List.mem_of_ne_of_mem (Ne.symm here) member
      obtain ⟨mapped, last, foundLast, sameLast, readersLast, mapsTo⟩ := ih
        (solid_reading placed.adds solid valid)
        (fun id member => first.lt_size (below id (List.mem_cons_of_mem _ member))) inRest foundThen
        grows
      exact ⟨mapped, last, foundLast, sameLast.trans sameBranches,
        (readersThen.append_right [mapped]).trans readersLast, sameBranches ▸ mapsTo⟩

end References

section Equations

variable {reference : Reference} {before : Graph}

/-- The graph in which a reference has been counted. -/
def entered (before : Graph) : Graph :=
  { before with referenceNodes := before.referenceNodes + 1 }

theorem ofNode_unknown (unknown : before.named? reference.target = none) :
    ofNode (.reference reference) before =
      ([], (entered before).noteUnresolved reference.target) := by
  rw [ofNode_reference, Mapped.buildReference]
  have same : (entered before).named? reference.target = none := unknown
  unfold entered at same
  rw [same]
  rfl

theorem ofNode_look (looks : reference.reruns = false) {ids : List Nat}
    (named : before.named? reference.target = some ids) :
    ofNode (.reference reference) before =
      ([], (mappedOf reference).read reference.identifier ids (entered before)) := by
  rw [ofNode_reference, Mapped.buildReference, looks]
  have same : (entered before).named? reference.target = some ids := named
  unfold entered at same
  rw [same]
  rfl

theorem ofNode_again (reruns : reference.reruns = true) {ids : List Nat}
    (named : before.named? reference.target = some ids) :
    ofNode (.reference reference) before =
      ([before.forks.size], (mappedOf reference).read reference.identifier [before.forks.size]
        ((entered before).addFork (ids.flatMap before.branchesOf)).2) := by
  rw [ofNode_reference, Mapped.buildReference, reruns]
  have same : (entered before).named? reference.target = some ids := named
  unfold entered at same
  rw [same]
  rfl

theorem pointsBack_reference (later : List String) :
    (Node.reference reference).pointsBack later =
      let later := namesOf reference.nested ++ reference.identifier.toList ++ later
      ((reference.identifier.isNone && !reference.reruns || !later.contains reference.target) &&
        mappingsPointBack later reference.mappings &&
          fallbackPointsBack later reference.fallback) := by
  cases reference
  rfl

theorem pointsBack_fork (fork : Fork) (later : List String) :
    (Node.fork fork).pointsBack later =
      branchesPointBack (fork.identifier.toList ++ later) fork.branches := by
  cases fork
  rfl

theorem pointsBack_of_mapping {later : List String} {mappings : List Mapping}
    (behind : mappingsPointBack later mappings = true) :
    ∀ mapping ∈ mappings, mapping.choice.pointsBack later = true := by
  induction mappings with
  | nil => exact fun _ member => absurd member List.not_mem_nil
  | cons mapping rest ih =>
    obtain ⟨branch, choice⟩ := mapping
    rw [mappingsPointBack, Bool.and_eq_true] at behind
    exact List.forall_mem_cons.2 ⟨behind.1, ih behind.2⟩

end Equations

theorem namesOf_subset {front back : List Node} (subset : front ⊆ back) :
    namesOf front ⊆ namesOf back := by
  intro name member
  obtain ⟨node, listed, declares⟩ := mem_namesOf.1 member
  exact mem_namesOf.2 ⟨node, subset listed, declares⟩

/-- The names behind which a reference has to stand. -/
def laterOf (reference : Reference) (later : List String) : List String :=
  namesOf reference.nested ++ reference.identifier.toList ++ later

/-- A reference of a document that points back is placed. -/
theorem placed_of_pointsBack {reference : Reference} {later : List String}
    (branching : Branching (Node.reference reference).within)
    (behind : (Node.reference reference).pointsBack later = true) :
    Placed reference (namesOf reference.nested) (laterOf reference later) := by
  have inside : ∀ choice ∈ reference.choices, Branching choice.within := fun choice member =>
    fun fork listed => branching fork (Reference.choice_within member listed)
  constructor
  case branching => exact inside
  case adds =>
    exact fun choice member graph => (builds_ofChoice choice (inside choice member) graph).mono
      (namesOf_subset (Reference.choice_nested member)) (List.Subset.refl _)
  case behind =>
    rw [pointsBack_reference] at behind
    simp only [Bool.and_eq_true] at behind
    intro choice member
    rcases List.mem_append.1 member with mapped | fallen
    · obtain ⟨mapping, listed, rfl⟩ := List.mem_map.1 mapped
      exact pointsBack_of_mapping behind.1.2 mapping listed
    · have last := behind.2
      rw [Option.mem_toList.1 fallen] at last
      exact last
  case subset => exact fun name member => List.mem_append_left _ (List.mem_append_left _ member)

/-! ## Sequences -/

/-- The nodes were built from a graph on the way to the whole graph. -/
structure Started (graph : Graph) (nodes : List Node) (before : Graph) (later : List String) :
    Prop where
  solid : before.Solid
  branching : Branching (nodesWithin nodes)
  behind : nodesPointBack later nodes = true
  grows : Grows later (ofNodes nodes before).2 graph

theorem covers_nodes_iff {nodes : List Node} {sequence : Sequence} :
    Covers graph (.nodes nodes) sequence ↔
      ∃ before later, Started graph nodes before later ∧ (ofNodes nodes before).1 = sequence := by
  constructor
  · rintro ⟨before, later, solid, branching, behind, same, grows⟩
    exact ⟨before, later, ⟨solid, branching, behind, grows⟩, same⟩
  · rintro ⟨before, later, started, same⟩
    exact ⟨before, later, started.solid, started.branching, started.behind, same, started.grows⟩

namespace Started

variable {node : Node} {rest : List Node} {before : Graph} {later : List String}
  (started : Started graph (node :: rest) before later)
include started

theorem headBranching : Branching node.within := by
  have branching := started.branching
  rw [nodesWithin] at branching
  exact branching.left

theorem headBehind : node.pointsBack (namesOf (nodesWithin rest) ++ later) = true := by
  have behind := started.behind
  rw [nodesPointBack, Bool.and_eq_true] at behind
  exact behind.1

theorem builds :
    Builds (namesOf node.within) before (ofNode node before).2 (ofNode node before).1 :=
  builds_ofNode node started.headBranching before

theorem tail : Started graph rest (ofNode node before).2 later where
  solid := (started.builds.solid started.solid).1
  branching := by
    have branching := started.branching
    rw [nodesWithin] at branching
    exact branching.right
  behind := by
    have behind := started.behind
    rw [nodesPointBack, Bool.and_eq_true] at behind
    exact behind.2
  grows := started.grows

/-- Behind a node only the names that are declared there come to stand for more. -/
theorem restGrows : Grows (namesOf (nodesWithin rest) ++ later) (ofNode node before).2 graph :=
  (builds_ofNodes rest started.tail.branching _).grows.trans started.grows

theorem covers_rest : Covers graph (.nodes rest) (ofNodes rest (ofNode node before).2).1 :=
  covers_nodes_iff.2 ⟨_, later, started.tail, rfl⟩

end Started

/-- Everything a fork is read by in a sequence is kept with it, in the order of the sequence. -/
theorem exists_readers {nodes : List Node} {before : Graph} {later : List String}
    (started : Started graph nodes before later) {name : String} {ids : List Nat}
    (named : before.named? name = some ids) {id : Nat} (member : id ∈ ids) {entry : ForkEntry}
    (found : before.forks[id]? = some entry) :
    ∃ lists, ∃ last : ForkEntry, (ofNodes nodes before).2.forks[id]? = some last ∧
      (entry.readers ++ lists).Sublist last.readers ∧
        Forall₂ (fun reference mapped => MapsTo graph reference 0 entry.branches.length mapped)
          (readersOf name nodes) lists := by
  induction nodes generalizing before ids entry with
  | nil =>
    refine ⟨[], entry, found, ?_, .nil⟩
    rw [List.append_nil]
  | cons node rest ih =>
    obtain ⟨ids', named', subset⟩ := started.builds.grows.known name ids named
    rw [ofNodes_cons, readersOf, List.filterMap_cons]
    cases reads : node.reader? name with
    | none =>
      obtain ⟨between, foundBetween, same, readers⟩ := started.builds.grows.forks id entry found
      obtain ⟨lists, last, foundLast, readersLast, each⟩ := ih started.tail named' (subset member)
        foundBetween
      exact ⟨lists, last, foundLast, (readers.append_right lists).trans readersLast, same ▸ each⟩
    | some reference =>
      obtain ⟨rfl, rfl, looks, renders⟩ := Node.reader?_eq_some_iff.1 reads
      have placed := placed_of_pointsBack started.headBranching started.headBehind
      have restGrows := started.restGrows
      have built := ofNode_look looks named
      rw [built] at restGrows
      have solidEntered : (entered before).Solid := started.solid.of_eq rfl rfl
      have foundEntered : (entered before).forks[id]? = some entry := found
      obtain ⟨mapped, between, foundBetween, same, readers, mapsTo⟩ := exists_reader placed renders
        (fun name member => List.mem_append_left _ (List.mem_append_right _ member))
        solidEntered (started.solid.names _ ids named).2 member foundEntered
        (restGrows.mono (List.subset_append_right ..))
      obtain ⟨lists, last, foundLast, readersLast, each⟩ := ih started.tail named' (subset member)
        (by rw [built]; exact foundBetween)
      refine ⟨mapped :: lists, last, foundLast, ?_, .cons mapsTo (same ▸ each)⟩
      rw [List.append_cons]
      exact (readers.append_right lists).trans readersLast

/-! ## Forks -/

theorem covers_of_ofBranches {branches : List Branch} {before : Graph} {later : List String}
    (solid : before.Solid) (branching : Branching (withinBranches branches))
    (behind : branchesPointBack later branches = true)
    (grows : Grows later (ofBranches branches before).2 graph) :
    Forall₂ (fun branch sequence => Covers graph branch.choice sequence) branches
      (ofBranches branches before).1 := by
  induction branches generalizing before with
  | nil => exact .nil
  | cons branch rest ih =>
    obtain ⟨choice, weight⟩ := branch
    rw [withinBranches] at branching
    rw [branchesPointBack, Bool.and_eq_true] at behind
    rw [ofBranches_cons] at grows ⊢
    have first := builds_ofChoice choice branching.left before
    have others := builds_ofBranches rest branching.right (ofChoice choice before).2
    refine .cons ⟨before, _, solid, branching.left, behind.1, rfl, others.grows.trans grows⟩ ?_
    exact ih (first.solid solid).1 branching.right behind.2 grows

/-- A fork in a sequence has a number there; under it are its branches, and what the references
behind it that look at its name render. -/
theorem Covers.fork {fork : Fork} {rest : List Node} {sequence : Sequence}
    (covers : Covers graph (.nodes (.fork fork :: rest)) sequence) :
    ∃ id tail, ∃ entry : ForkEntry, sequence = id :: tail ∧ graph.forks[id]? = some entry ∧
      Forall₂ (fun branch sequence => Covers graph branch.choice sequence) fork.branches
        entry.branches ∧
      Covers graph (.nodes rest) tail ∧
      ∀ name, fork.identifier = some name →
        (∃ ids, graph.named? name = some ids ∧ id ∈ ids) ∧
          ReadBy graph fork.branches.length entry.readers (readersOf name rest) := by
  obtain ⟨before, later, started, rfl⟩ := covers_nodes_iff.1 covers
  let built := withBranches before fork
  have branching := started.headBranching
  have behind := started.headBehind
  rw [pointsBack_fork] at behind
  have inside : Branching (withinBranches fork.branches) := by
    obtain ⟨_, _, _, _, _⟩ := fork
    exact fun other member => branching other (List.mem_cons_of_mem _ member)
  have enteredSolid : Solid { before with forkNodes := before.forkNodes + 1 } :=
    started.solid.of_eq rfl rfl
  have made : (ofNode (.fork fork) before).1 = [built.2.forks.size] := by
    rw [ofNode_fork]
  have after : (ofNode (.fork fork) before).2 =
      (built.2.addFork built.1).2.declare fork.identifier built.2.forks.size := by
    rw [ofNode_fork]
  have added : (ofNode (.fork fork) before).2.forks[built.2.forks.size]? =
      some ⟨built.1, []⟩ := by
    rw [after, forks_declare, getElem?_addFork, if_pos rfl]
  have restGrows := started.restGrows
  obtain ⟨entry, found, same, -⟩ := restGrows.forks _ _ added
  have declared : ∀ name, fork.identifier = some name →
      ∃ ids, (ofNode (.fork fork) before).2.named? name = some ids ∧
        built.2.forks.size ∈ ids := by
    intro name identifier
    rw [after, identifier]
    exact mem_named?_declare ..
  refine ⟨built.2.forks.size, (ofNodes rest (ofNode (.fork fork) before).2).1, entry, ?_, found, ?_,
    started.covers_rest, fun name identifier => ⟨?_, ?_⟩⟩
  · rw [ofNodes_cons, made]
    rfl
  · rw [same]
    have toEnd : Grows (fork.identifier.toList ++ (namesOf (nodesWithin rest) ++ later)) built.2
        graph := by
      have declaring := (grows_addFork built.2 built.1).trans
        (grows_declare _ fork.identifier built.2.forks.size)
      rw [← after] at declaring
      exact declaring.trans restGrows
    exact covers_of_ofBranches enteredSolid inside behind toEnd
  · obtain ⟨ids, named, member⟩ := declared name identifier
    obtain ⟨whole, namedWhole, subset⟩ := restGrows.known name ids named
    exact ⟨whole, namedWhole, subset member⟩
  · obtain ⟨ids, named, member⟩ := declared name identifier
    obtain ⟨lists, last, foundLast, readers, each⟩ :=
      exists_readers started.tail named member added
    obtain ⟨whole, foundWhole, -, readersWhole⟩ := started.grows.forks _ last foundLast
    cases found.symm.trans foundWhole
    rw [show built.1.length = fork.branches.length from length_ofBranches ..] at each
    exact ⟨lists, readers.trans readersWhole, each⟩

/-! ## References in a sequence -/

/-- A name that a reference declares stands for the forks it reads. -/
theorem mem_named?_read {reference : Reference} {names : List String}
    (each : ∀ choice ∈ reference.choices, Adds names choice) {name : String}
    (identifier : reference.identifier = some name) {ids : List Nat} (before : Graph) {id : Nat}
    (member : id ∈ ids) :
    ∃ own, ((mappedOf reference).read reference.identifier ids before).named? name = some own ∧
      id ∈ own := by
  induction ids generalizing before with
  | nil => cases member
  | cons fork rest ih =>
    rw [read_cons]
    rcases List.mem_cons.1 member with rfl | later
    · obtain ⟨own, named, listed⟩ := mem_named?_declare (withReader reference id before) name id
      have declared : (reading reference id before).named? name = some own := by
        rw [reading, identifier, named]
      obtain ⟨whole, namedWhole, subset⟩ := (grows_read each rest _).known name own declared
      exact ⟨whole, namedWhole, subset listed⟩
    · exact ih _ later

section References

variable {reference : Reference} {rest : List Node} {before : Graph} {later : List String}
  (started : Started graph (.reference reference :: rest) before later)
include started

/-- What a reference names or executes is not declared later. -/
theorem Started.named?_target (heavy : (Node.reference reference).isLight = false) :
    graph.named? reference.target = before.named? reference.target := by
  have behind := started.headBehind
  rw [pointsBack_reference] at behind
  simp only [Bool.and_eq_true] at behind
  have absent : reference.target ∉ laterOf reference (namesOf (nodesWithin rest) ++ later) := by
    have light : (reference.identifier.isNone && !reference.reruns) = false := heavy
    rw [light, Bool.false_or, Bool.not_eq_true', ← Bool.not_eq_true, List.contains_iff_mem]
      at behind
    exact behind.1.1
  rw [laterOf, List.mem_append, not_or, List.mem_append, not_or] at absent
  rw [started.restGrows.others _ absent.2]
  refine started.builds.grows.others _ ?_
  rw [Reference.within_reference, namesOf_cons, List.mem_append, not_or]
  exact ⟨absent.1.2, absent.1.1⟩

end References

/-- A reference that looks at its target leaves nothing in a sequence. If it has a name, the name
stands for everything that its target stands for. -/
theorem Covers.look {reference : Reference} (looks : reference.reruns = false) {rest : List Node}
    {sequence : Sequence} (covers : Covers graph (.nodes (.reference reference :: rest)) sequence) :
    Covers graph (.nodes rest) sequence ∧ ∀ name, reference.identifier = some name →
      ∀ ids, graph.named? reference.target = some ids → ∀ id ∈ ids,
        ∃ own, graph.named? name = some own ∧ id ∈ own := by
  obtain ⟨before, later, started, rfl⟩ := covers_nodes_iff.1 covers
  have none : (ofNode (.reference reference) before).1 = [] := by
    cases named : before.named? reference.target with
    | none => rw [ofNode_unknown named]
    | some ids => rw [ofNode_look looks named]
  rw [ofNodes_cons, none]
  refine ⟨started.covers_rest, fun name identifier ids named id member => ?_⟩
  have heavy : (Node.reference reference).isLight = false := by
    rw [Node.isLight, identifier]
    rfl
  rw [started.named?_target heavy] at named
  have placed := placed_of_pointsBack started.headBranching started.headBehind
  obtain ⟨own, declared, listed⟩ :=
    mem_named?_read placed.adds identifier (entered before) member
  have built := congrArg Prod.snd (ofNode_look looks named)
  obtain ⟨whole, known, subset⟩ := started.restGrows.known name own
    ((congrArg (·.named? name) built).trans declared)
  exact ⟨whole, known, subset listed⟩

/-- A reference that executes its target again has a number in a sequence, if its target was
declared. Under it are the branches of everything that the target stands for. -/
theorem Covers.again {reference : Reference} (reruns : reference.reruns = true)
    {rest : List Node} {sequence : Sequence}
    (covers : Covers graph (.nodes (.reference reference :: rest)) sequence) :
    (graph.named? reference.target = none ∧ Covers graph (.nodes rest) sequence) ∨
      ∃ ids id tail, ∃ entry : ForkEntry, graph.named? reference.target = some ids ∧
        sequence = id :: tail ∧ graph.forks[id]? = some entry ∧
        entry.branches = ids.flatMap graph.branchesOf ∧ Covers graph (.nodes rest) tail ∧
        (reference.isCopy = false → ReadBy graph entry.branches.length entry.readers [reference]) ∧
        ∀ name, reference.identifier = some name →
          ∃ own, graph.named? name = some own ∧ id ∈ own := by
  obtain ⟨before, later, started, rfl⟩ := covers_nodes_iff.1 covers
  have heavy : (Node.reference reference).isLight = false := by
    rw [Node.isLight, reruns]
    exact Bool.and_false _
  have target := started.named?_target heavy
  cases named : before.named? reference.target with
  | none =>
    refine .inl ⟨target.trans named, ?_⟩
    rw [ofNodes_cons, ofNode_unknown named]
    have rest := started.covers_rest
    rw [ofNode_unknown named] at rest
    exact rest
  | some ids =>
    have placed := placed_of_pointsBack started.headBranching started.headBehind
    let added := ((entered before).addFork (ids.flatMap before.branchesOf)).2
    have made : (ofNode (.reference reference) before).1 = [before.forks.size] := by
      rw [ofNode_again reruns named]
    have after : (ofNode (.reference reference) before).2 =
        (mappedOf reference).read reference.identifier [before.forks.size] added := by
      rw [ofNode_again reruns named]
    have enteredSolid : (entered before).Solid := started.solid.of_eq rfl rfl
    have found : added.forks[before.forks.size]? = some ⟨ids.flatMap before.branchesOf, []⟩ :=
      (getElem?_addFork _ _ _).trans (if_pos rfl)
    obtain ⟨nonempty, below⟩ := flatMap_branchesOf started.solid named
    have addedSolid : added.Solid := enteredSolid.addFork nonempty below
    have reads := grows_read placed.adds [before.forks.size] added
    rw [← after] at reads
    have restGrows := started.restGrows
    obtain ⟨then', foundThen, sameThen, -⟩ := reads.forks _ _ found
    obtain ⟨entry, foundEntry, same, readers⟩ := restGrows.forks _ _ foundThen
    refine .inr ⟨ids, before.forks.size, (ofNodes rest (ofNode (.reference reference) before).2).1,
      entry, target.trans named, ?_, foundEntry, ?_, started.covers_rest, fun renders => ?_,
      fun name identifier => ?_⟩
    · rw [ofNodes_cons, made]
      rfl
    · have whole := started.builds.grows.trans restGrows
      rw [same, sameThen]
      refine List.flatMap_congr fun id member => ?_
      exact (whole.branchesOf ((started.solid.names _ ids named).2 id member)).symm
    · have valid : ∀ id ∈ [before.forks.size], id < added.forks.size := by
        intro id member
        rw [List.mem_singleton.1 member]
        exact (Array.getElem?_eq_some_iff.1 found).1
      obtain ⟨mapped, last, foundLast, -, readersLast, mapsTo⟩ := exists_reader placed renders
        (fun name member => List.mem_append_left _ (List.mem_append_right _ member)) addedSolid
        valid (List.mem_singleton_self _) found (by
          rw [← after]
          exact restGrows.mono (List.subset_append_right ..))
      rw [← after] at foundLast
      cases foundLast.symm.trans foundThen
      refine ⟨[mapped], readersLast.trans readers, .cons ?_ .nil⟩
      rw [same, sameThen]
      exact mapsTo
    · obtain ⟨own, declared, listed⟩ := mem_named?_read placed.adds identifier added
        (List.mem_singleton_self _)
      rw [← after] at declared
      obtain ⟨whole, known, subset⟩ := restGrows.known name own declared
      exact ⟨whole, known, subset listed⟩

end Outcomes

end BranchText
