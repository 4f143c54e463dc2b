import BranchText.Document.Reader
import BranchText.Outcomes.Count
import BranchText.Proofs.Document.InOrder
import BranchText.Proofs.Outcomes.Covering

/-!
# Forks, references and unresolved names

Building a document counts forks and references and notes names that it does not know. In a document
that is in order it comes by every fork and every reference once, and knows every name that the
document declares when it is referred to. What it has noted are then the numbers of forks and
references, and the names that are referred to and not declared.

Where a reference has a choice for several branches of its target, or for none, building comes by
that choice several times, or not at all.
-/

namespace BranchText

namespace Outcomes

open Graph

variable {root : List Node}

/-- What has been noted when building has come by the marks. -/
structure Tallied (root marks : List Node) (graph : Graph) : Prop where
  forkNodes : graph.forkNodes = marks.countP Node.isFork
  referenceNodes : graph.referenceNodes = marks.countP Node.isReference
  nodup : graph.unresolved.Nodup
  unresolved : ∀ name, name ∈ graph.unresolved ↔ name ∉ namesOf (nodesWithin root) ∧
    ∃ reference, .reference reference ∈ marks ∧ reference.target = name
  named : ∀ name ids, graph.named? name = some ids → name ∈ namesOf marks
  sole : ∀ name count ids, Sole root name count → graph.named? name = some ids →
    ∃ id, ids = [id] ∧ (graph.branchesOf id).length = count

/-- All the names stand for forks. -/
def Knows (graph : Graph) (names : List String) : Prop :=
  ∀ name ∈ names, ∃ ids, graph.named? name = some ids

theorem Knows.grows {names added : List String} {before after : Graph} (knows : Knows before names)
    (grows : Grows added before after) : Knows after names := by
  intro name member
  obtain ⟨ids, named⟩ := knows name member
  obtain ⟨later, named, -⟩ := grows.known name ids named
  exact ⟨later, named⟩

theorem Knows.append {graph : Graph} {first second : List String} (one : Knows graph first)
    (other : Knows graph second) : Knows graph (first ++ second) := fun name member =>
  (List.mem_append.1 member).elim (one name) (other name)

namespace Tallied

variable {marks : List Node} {graph : Graph}

/-- In which order the marks come does not matter. -/
theorem perm {others : List Node} (tallied : Tallied root marks graph) (same : marks.Perm others) :
    Tallied root others graph where
  forkNodes := tallied.forkNodes.trans (same.countP_eq _)
  referenceNodes := tallied.referenceNodes.trans (same.countP_eq _)
  nodup := tallied.nodup
  unresolved name := by simpa only [same.mem_iff] using tallied.unresolved name
  named name ids named := (same.filterMap _).mem_iff.1 (tallied.named name ids named)
  sole := tallied.sole

/-- A change to the forks that leaves their branches is not noted. -/
theorem of_grows {after : Graph} (tallied : Tallied root marks graph) (solid : graph.Solid)
    (grows : Grows [] graph after) (forkNodes : after.forkNodes = graph.forkNodes)
    (referenceNodes : after.referenceNodes = graph.referenceNodes)
    (unresolved : after.unresolved = graph.unresolved) : Tallied root marks after where
  forkNodes := forkNodes.trans tallied.forkNodes
  referenceNodes := referenceNodes.trans tallied.referenceNodes
  nodup := unresolved ▸ tallied.nodup
  unresolved := unresolved ▸ tallied.unresolved
  named name ids named := by
    rw [grows.others name List.not_mem_nil] at named
    exact tallied.named name ids named
  sole name count ids sole named := by
    rw [grows.others name List.not_mem_nil] at named
    obtain ⟨id, rfl, length⟩ := tallied.sole name count ids sole named
    have valid := (solid.names name _ named).2 id (List.mem_singleton_self id)
    exact ⟨id, rfl, by rw [grows.branchesOf valid, length]⟩

/-- Coming by one more fork or reference. -/
theorem enter {after : Graph} (tallied : Tallied root marks graph) (node : Node)
    (forks : after.forks = graph.forks) (names : after.names = graph.names)
    (forkNodes : after.forkNodes = graph.forkNodes + [node].countP Node.isFork)
    (referenceNodes : after.referenceNodes = graph.referenceNodes + [node].countP Node.isReference)
    (nodup : after.unresolved.Nodup)
    (unresolved : ∀ name, name ∈ after.unresolved ↔ name ∈ graph.unresolved ∨
      name ∉ namesOf (nodesWithin root) ∧ ∃ reference, node = .reference reference ∧
        reference.target = name) : Tallied root (marks ++ [node]) after where
  forkNodes := by rw [forkNodes, tallied.forkNodes, List.countP_append]
  referenceNodes := by rw [referenceNodes, tallied.referenceNodes, List.countP_append]
  nodup := nodup
  unresolved name := by
    simp only [unresolved, tallied.unresolved, List.mem_append, List.mem_singleton, or_and_right,
      exists_or, ← and_or_left, eq_comm]
  named name ids named := by
    rw [named?, names] at named
    rw [namesOf_append]
    exact List.mem_append_left _ (tallied.named name ids named)
  sole name count ids sole named := by
    rw [named?, names] at named
    obtain ⟨id, rfl, length⟩ := tallied.sole name count ids sole named
    refine ⟨id, rfl, ?_⟩
    rw [branchesOf, forks]
    exact length

theorem enter_fork (tallied : Tallied root marks graph) (fork : Fork) :
    Tallied root (marks ++ [.fork fork]) { graph with forkNodes := graph.forkNodes + 1 } :=
  tallied.enter _ rfl rfl rfl rfl tallied.nodup fun name => by simp

theorem enter_reference (tallied : Tallied root marks graph) {reference : Reference}
    (declared : reference.target ∈ namesOf (nodesWithin root)) :
    Tallied root (marks ++ [.reference reference]) (entered graph) := by
  refine tallied.enter _ rfl rfl rfl rfl tallied.nodup fun name => (or_iff_left ?_).symm
  rintro ⟨absent, other, same, rfl⟩
  cases same
  exact absent declared

/-- A reference to a name that is not declared is noted, if none was before. -/
theorem enter_undeclared (tallied : Tallied root marks graph) {reference : Reference}
    (absent : reference.target ∉ namesOf (nodesWithin root)) :
    Tallied root (marks ++ [.reference reference])
      ((entered graph).noteUnresolved reference.target) := by
  have here : ∀ name, (name ∉ namesOf (nodesWithin root) ∧ ∃ other,
      Node.reference reference = .reference other ∧ other.target = name) ↔
        name = reference.target := by
    intro name
    constructor
    · rintro ⟨-, other, same, rfl⟩
      cases same
      rfl
    · rintro rfl
      exact ⟨absent, reference, rfl, rfl⟩
  by_cases listed : reference.target ∈ (entered graph).unresolved
  · rw [noteUnresolved, if_pos (List.contains_iff_mem.2 listed)]
    refine tallied.enter _ rfl rfl rfl rfl tallied.nodup fun name => ?_
    rw [here]
    exact ⟨.inl, fun either => either.elim id fun same => same ▸ listed⟩
  · rw [noteUnresolved, if_neg (mt List.contains_iff_mem.1 listed)]
    refine tallied.enter _ rfl rfl rfl rfl ?_ fun name => ?_
    · exact List.nodup_append.2 ⟨tallied.nodup, List.nodup_singleton _, by
        rintro name member _ last rfl
        exact listed (List.mem_singleton.1 last ▸ member)⟩
    · rw [here]
      exact List.mem_append.trans (or_congr_right List.mem_singleton)

/-- A name, if there is one, comes to stand for one more fork. -/
theorem declare (tallied : Tallied root marks graph) (name : Option String)
    (listed : ∀ own ∈ name, own ∈ namesOf marks) (fork : Nat)
    (sole : ∀ own ∈ name, ∀ count, Sole root own count → graph.named? own = none ∧
      (graph.branchesOf fork).length = count) : Tallied root marks (graph.declare name fork) := by
  cases name with
  | none => exact tallied
  | some name =>
    refine ⟨tallied.forkNodes, tallied.referenceNodes, tallied.nodup, tallied.unresolved,
      fun other ids named => ?_, fun other count ids soleOther named => ?_⟩
    · rw [named?_declare] at named
      split at named
      · rename_i same
        exact same ▸ listed name rfl
      · exact tallied.named other ids named
    · have branches : (graph.declare (some name) fork).branchesOf = graph.branchesOf := rfl
      rw [branches]
      rw [named?_declare] at named
      split at named
      · rename_i same
        subst same
        obtain ⟨fresh, length⟩ := sole other rfl count soleOther
        rw [fresh] at named
        cases named
        exact ⟨fork, rfl, length⟩
      · exact tallied.sole other count ids soleOther named

end Tallied

/-! ## Building -/

/-- Building comes by the nodes, where the names are known. -/
def Notes (root : List Node) (known : List String) (nodes : List Node) (build : Graph → Graph) :
    Prop :=
  ∀ (marks : List Node) (graph : Graph), graph.Solid → Tallied root marks graph →
    Knows graph known → (marks ++ marksOf nodes).Subperm (marksOf (nodesWithin root)) →
      Tallied root (marks ++ marksOf nodes) (build graph) ∧ Knows (build graph) (namesOf nodes)

/-- Building a choice comes by what is within it. -/
abbrev Passes (root : List Node) (known : List String) (choice : Choice) : Prop :=
  Notes root known choice.within fun graph => (ofChoice choice graph).2

/-- Where there is room for the marks among some nodes, their forks are those of the document. -/
theorem branching_of_room (branching : Branching (nodesWithin root)) {marks nodes : List Node}
    (room : (marks ++ marksOf nodes).Subperm (marksOf (nodesWithin root))) : Branching nodes :=
  fun fork member => branching fork
    (mem_of_room room (List.mem_append_right _ (List.mem_filter.2 ⟨member, rfl⟩)))

section Building

variable (branching : Branching (nodesWithin root)) {known : List String} {marks : List Node}
  {graph : Graph}
include branching

/-- What is built behind other nodes knows what they declare. -/
theorem Notes.append {front back : List Node} {build next : Graph → Graph}
    {names more : List String} {added others : Graph → List Nat}
    (first : Notes root known front build)
    (second : Notes root (known ++ namesOf front) back next)
    (builds : Branching front → ∀ graph, Builds names graph (build graph) (added graph))
    (buildsNext : Branching back → ∀ graph, Builds more graph (next graph) (others graph)) :
    Notes root known (front ++ back) fun graph => next (build graph) := by
  intro marks graph solid tallied knows room
  rw [marksOf_append, ← List.append_assoc] at room ⊢
  have here := (List.sublist_append_left ..).subperm.trans room
  have built := builds (branching_of_room branching here) graph
  obtain ⟨tallied, knowsHere⟩ := first marks graph solid tallied knows here
  obtain ⟨tallied, knowsOthers⟩ := second _ _ (built.solid solid).1 tallied
    ((knows.grows built.grows).append knowsHere) room
  have later := buildsNext (branching_of_room branching room) (build graph)
  rw [namesOf_append]
  exact ⟨tallied, (knowsHere.grows later.grows).append knowsOthers⟩

omit branching in
/-- More names may be known. -/
theorem Notes.mono {more : List String} {nodes : List Node} {build : Graph → Graph}
    (notes : Notes root known nodes build) (subset : known ⊆ more) :
    Notes root more nodes build := fun marks graph solid tallied knows =>
  notes marks graph solid tallied fun name member => knows name (subset member)

omit branching in
/-- Without nodes there is nothing to come by. -/
theorem notes_nil : Notes root known [] id := by
  intro marks graph _ tallied _ _
  rw [marksOf, List.filter_nil, List.append_nil]
  exact ⟨tallied, fun _ member => absurd member List.not_mem_nil⟩

theorem notes_branches {branches : List Branch}
    (each : ∀ front branch back, branches = front ++ branch :: back →
      Passes root (known ++ namesOf (withinBranches front)) branch.choice) :
    Notes root known (withinBranches branches) fun graph => (ofBranches branches graph).2 := by
  induction branches generalizing known with
  | nil => exact notes_nil
  | cons branch rest ih =>
    obtain ⟨choice, weight⟩ := branch
    have here : Passes root known choice := by
      have passes := each [] _ rest rfl
      rwa [withinBranches, namesOf, List.filterMap_nil, List.append_nil] at passes
    have others : ∀ front branch back, rest = front ++ branch :: back →
        Passes root (known ++ namesOf choice.within ++ namesOf (withinBranches front))
          branch.choice := by
      rintro front other back rfl
      have passes := each (_ :: front) other back rfl
      rwa [withinBranches, namesOf_append, ← List.append_assoc] at passes
    exact here.append branching (ih others) (builds_ofChoice choice) (builds_ofBranches rest)

omit branching in
/-- What is built for a reference declares at most what is declared within it. -/
theorem adds_of_branching {reference : Reference} (nested : Branching reference.nested) :
    ∀ choice ∈ reference.choices, Adds (namesOf reference.nested) choice := by
  intro choice member graph
  have within := Reference.choice_nested member
  exact (builds_ofChoice choice (fun fork inside => nested fork (within inside)) graph).mono
    (namesOf_subset within) (List.Subset.refl _)

/-! ### References -/

section References

variable {reference : Reference}
  (inside : ∀ choice ∈ reference.choices, Passes root known choice)
  (nested : Branching reference.nested)
include inside nested

theorem notes_build (start count : Nat) :
    Notes root known (((List.range' start count).filterMap reference.answer?).flatMap Choice.within)
      fun graph => ((mappedOf reference).build start count graph).2 := by
  induction count generalizing start with
  | zero => exact notes_nil
  | succ count ih =>
    rw [List.range'_succ, List.filterMap_cons]
    cases found : reference.answer? start with
    | none =>
      simp only [build_none _ found]
      exact ih (start + 1)
    | some choice =>
      simp only [build_some _ found, List.flatMap_cons]
      have here := inside choice (Reference.mem_choices_of_answer? found)
      exact here.append branching ((ih (start + 1)).mono (List.subset_append_left ..))
        (builds_ofChoice choice) fun _ => builds_build (adds_of_branching nested) (start + 1) count

/-- A reference that reads a fork comes by what it takes for the branches of the fork. -/
theorem Tallied.reader (fork : Nat) (solid : graph.Solid) (tallied : Tallied root marks graph)
    (knows : Knows graph known)
    (room : (marks ++ (reference.taken (graph.branchesOf fork).length).flatMap
      Choice.marks).Subperm (marksOf (nodesWithin root))) :
    Tallied root (marks ++ (reference.taken (graph.branchesOf fork).length).flatMap Choice.marks)
        (withReader reference fork graph) ∧
      Knows (withReader reference fork graph)
        (namesOf ((reference.taken (graph.branchesOf fork).length).flatMap Choice.marks)) := by
  unfold withReader
  split
  · rename_i copies
    have nothing : reference.taken (graph.branchesOf fork).length = [] :=
      List.filterMap_eq_nil_iff.2 fun index _ => Reference.answer?_of_isCopy copies index
    rw [nothing, List.flatMap_nil, List.append_nil]
    exact ⟨tallied, fun _ member => absurd member List.not_mem_nil⟩
  · rw [Reference.taken, List.range_eq_range', flatMap_marks] at room ⊢
    rw [namesOf_marksOf]
    obtain ⟨tallied, knows⟩ :=
      notes_build branching inside nested 0 _ marks graph solid tallied knows room
    have built := builds_build (adds_of_branching nested) 0 (graph.branchesOf fork).length graph
    have grows := grows_addReader
      ((mappedOf reference).build 0 (graph.branchesOf fork).length graph).2 fork
      ((mappedOf reference).build 0 (graph.branchesOf fork).length graph).1
    exact ⟨tallied.of_grows (built.solid solid).1 grows rfl rfl rfl, knows.grows grows⟩

/-- A reference that reads a fork, and stands for it under its own name. -/
theorem Tallied.reads {fork : Nat} (valid : fork < graph.forks.size) (solid : graph.Solid)
    (tallied : Tallied root marks graph) (knows : Knows graph known)
    (room : (marks ++ (reference.taken (graph.branchesOf fork).length).flatMap
      Choice.marks).Subperm (marksOf (nodesWithin root)))
    (listed : ∀ own ∈ reference.identifier, own ∈ namesOf marks)
    (sole : ∀ own ∈ reference.identifier, ∀ count, Sole root own count →
      graph.named? own = none ∧ own ∉ namesOf reference.nested ∧
        (graph.branchesOf fork).length = count) :
    Tallied root (marks ++ (reference.taken (graph.branchesOf fork).length).flatMap Choice.marks)
        (reading reference fork graph) ∧
      Knows (reading reference fork graph) (reference.identifier.toList ++
        namesOf ((reference.taken (graph.branchesOf fork).length).flatMap Choice.marks)) := by
  have grows := (builds_withReader (adds_of_branching nested) fork graph).grows
  obtain ⟨read, knowsTaken⟩ := tallied.reader branching inside nested fork solid knows room
  constructor
  · refine read.declare _ (fun own named => ?_) fork fun own named count soleOwn => ?_
    · rw [namesOf_append]
      exact List.mem_append_left _ (listed own named)
    · obtain ⟨fresh, apart, length⟩ := sole own named count soleOwn
      exact ⟨(grows.others own apart).trans fresh,
        (congrArg _ (grows.branchesOf valid)).trans length⟩
  · refine Knows.append (fun own named => ?_) (knowsTaken.grows (grows_declare _ _ fork))
    obtain ⟨ids, stands, -⟩ :=
      (withReader reference fork graph).mem_named?_declare own fork
    refine ⟨ids, ?_⟩
    rw [reading, Option.mem_toList.1 named]
    exact stands

/-- A reference in which there are neither forks nor references may read any forks. -/
theorem Tallied.read_flat (flat : ∀ choice ∈ reference.choices, choice.marks = [])
    {forks : List Nat} (valid : ∀ fork ∈ forks, fork < graph.forks.size) (solid : graph.Solid)
    (tallied : Tallied root marks graph) (knows : Knows graph known)
    (room : marks.Subperm (marksOf (nodesWithin root)))
    (listed : ∀ own ∈ reference.identifier, own ∈ namesOf marks)
    (several : ∀ own ∈ reference.identifier, ∀ count, ¬ Sole root own count) :
    Tallied root marks ((mappedOf reference).read reference.identifier forks graph) := by
  induction forks generalizing graph with
  | nil => exact tallied
  | cons fork rest ih =>
    obtain ⟨here, others⟩ := List.forall_mem_cons.1 valid
    have adds := adds_of_branching nested
    have nothing := Reference.flatMap_taken_eq_nil flat (graph.branchesOf fork).length
    have step := (tallied.reads branching inside nested here solid knows
      (by rwa [nothing, List.append_nil]) listed
      fun own named count sole => absurd sole (several own named count)).1
    rw [nothing, List.append_nil] at step
    have grows := grows_reading adds fork graph
    rw [read_cons]
    exact ih (fun other member => grows.lt_size (others other member))
      (solid_reading adds solid here) step (knows.grows grows)

/-- A reference that takes each of its choices for one branch of a fork comes by all that is within
them. -/
theorem Tallied.read_one {fork : Nat} (valid : fork < graph.forks.size) (solid : graph.Solid)
    (tallied : Tallied root (marks ++ [.reference reference]) graph)
    (fresh : ∀ name ids, graph.named? name = some ids → name ∈ namesOf marks)
    (knows : Knows graph known)
    (length : ∀ count, Sole root reference.target count → (graph.branchesOf fork).length = count)
    (once : ((reference.taken (graph.branchesOf fork).length).flatMap Choice.marks).Perm
      (marksOf reference.nested))
    (room : (marks ++ .reference reference :: marksOf reference.nested).Subperm
      (marksOf (nodesWithin root))) :
    Tallied root (marks ++ .reference reference :: marksOf reference.nested)
        (reading reference fork graph) ∧
      Knows (reading reference fork graph)
        (reference.identifier.toList ++ namesOf reference.nested) := by
  have all : (marks ++ [Node.reference reference] ++ (reference.taken
      (graph.branchesOf fork).length).flatMap Choice.marks).Perm
        (marks ++ Node.reference reference :: marksOf reference.nested) := by
    rw [List.append_assoc]
    exact (once.cons _).append_left _
  obtain ⟨read, knows⟩ := tallied.reads branching inside nested valid solid knows
    (all.subperm.trans room)
    (fun own named => mem_namesOf.2 ⟨_, List.mem_append_right _ (List.mem_singleton_self _), named⟩)
    fun own named count sole => by
      obtain ⟨before, apart, target⟩ := sole.apart_of_reference named room
      exact ⟨Option.eq_none_iff_forall_ne_some.2 fun ids stands => before (fresh own ids stands),
        apart, length count target⟩
  refine ⟨read.perm all, fun name member => knows name ?_⟩
  rw [← namesOf_marksOf reference.nested] at member
  exact (List.mem_append.1 member).elim (List.mem_append_left _) fun within =>
    List.mem_append_right _ ((once.filterMap _).mem_iff.2 within)

/-- What a reference that is met in order comes by, if it reads the forks. -/
theorem Tallied.read {forks : List Nat} (some : forks ≠ [])
    (valid : ∀ fork ∈ forks, fork < graph.forks.size) (solid : graph.Solid)
    (tallied : Tallied root (marks ++ [.reference reference]) graph)
    (fresh : ∀ name ids, graph.named? name = Option.some ids → name ∈ namesOf marks)
    (knows : Knows graph known) (once : TakenOnce root reference)
    (one : ∀ count, Sole root reference.target count →
      ∃ fork, forks = [fork] ∧ (graph.branchesOf fork).length = count)
    (room : (marks ++ .reference reference :: marksOf reference.nested).Subperm
      (marksOf (nodesWithin root))) :
    Tallied root (marks ++ .reference reference :: marksOf reference.nested)
        ((mappedOf reference).read reference.identifier forks graph) ∧
      Knows ((mappedOf reference).read reference.identifier forks graph)
        (reference.identifier.toList ++ namesOf reference.nested) := by
  rcases once.perm_or_flat with ⟨count, sole, perm⟩ | ⟨several, nothing, flat⟩
  · obtain ⟨fork, rfl, rfl⟩ := one count sole
    rw [read_cons]
    refine tallied.read_one branching inside nested (valid fork (List.mem_singleton_self _)) solid
      fresh knows (fun count sole => ?_) perm room
    obtain ⟨_, same, length⟩ := one count sole
    cases same
    exact length
  · have unnamed : ∀ own ∈ reference.identifier, ∀ count, ¬ Sole root own count :=
      fun own named count sole => several count (sole.apart_of_reference named room).2.2
    rw [nothing] at room ⊢
    have listed : ∀ own ∈ reference.identifier, own ∈ namesOf (marks ++ [.reference reference]) :=
      fun own named => mem_namesOf.2
        ⟨_, List.mem_append_right _ (List.mem_singleton_self _), named⟩
    refine ⟨tallied.read_flat branching inside nested flat valid solid knows room listed unnamed,
      Knows.append (fun own named => ?_) fun own within => ?_⟩
    · obtain ⟨first, member⟩ := List.exists_mem_of_ne_nil forks some
      obtain ⟨ids, stands, -⟩ := mem_named?_read (adds_of_branching nested)
        (Option.mem_toList.1 named) graph member
      exact ⟨ids, stands⟩
    · rw [← namesOf_marksOf, nothing] at within
      cases within

end References

/-! ### Nodes -/

theorem notes_nodes {node : Node} {rest : List Node}
    (first : Notes root known node.within fun graph => (ofNode node graph).2)
    (second : Passes root (known ++ namesOf node.within) (.nodes rest)) :
    Passes root known (.nodes (node :: rest)) :=
  first.append branching second (builds_ofNode node) (builds_ofNodes rest)

theorem notes_fork {fork : Fork}
    (inside : ∀ front branch back, fork.branches = front ++ branch :: back →
      Passes root (known ++ namesOf (withinBranches front)) branch.choice) :
    Notes root known (Node.fork fork).within fun graph => (ofNode (.fork fork) graph).2 := by
  intro marks graph solid tallied knows room
  have within : (Node.fork fork).within = .fork fork :: withinBranches fork.branches := by
    cases fork
    rfl
  rw [marksOf_fork] at room ⊢
  have last : marks ++ Node.fork fork :: marksOf (withinBranches fork.branches) =
      marks ++ [.fork fork] ++ marksOf (withinBranches fork.branches) := by
    rw [List.append_assoc]
    rfl
  have roomInside := last ▸ room
  have built := builds_ofBranches fork.branches (branching_of_room branching roomInside)
    { graph with forkNodes := graph.forkNodes + 1 }
  obtain ⟨tallied', knowsInside⟩ := notes_branches branching inside _
    { graph with forkNodes := graph.forkNodes + 1 } (solid.of_eq rfl rfl)
    (tallied.enter_fork fork) knows roomInside
  have solid' := (built.solid (solid.of_eq rfl rfl)).1
  -- While the branches are built, a name that only the fork declares stands for nothing.
  have sole : ∀ own ∈ fork.identifier, ∀ count, Sole root own count →
      (withBranches graph fork).2.named? own = none ∧
        (withBranches graph fork).1.length = count := by
    intro own named count sole
    obtain ⟨before, apart, length⟩ := sole.apart_of_fork named room
    refine ⟨(built.grows.others own apart).trans ?_, (length_ofBranches ..).trans length⟩
    exact Option.eq_none_iff_forall_ne_some.2 fun ids stands =>
      before (tallied.named own ids stands)
  have listed : ∀ own ∈ fork.identifier, own ∈ namesOf (marks ++ [Node.fork fork] ++
      marksOf (withinBranches fork.branches)) := fun own named => mem_namesOf.2 ⟨.fork fork,
    List.mem_append_left _ (List.mem_append_right _ (List.mem_singleton_self _)), named⟩
  have grows := grows_addFork (withBranches graph fork).2 (withBranches graph fork).1
  have branches : (((withBranches graph fork).2.addFork (withBranches graph fork).1).2.branchesOf
      (withBranches graph fork).2.forks.size) = (withBranches graph fork).1 :=
    branchesOf_of_found ((getElem?_addFork ..).trans (if_pos rfl))
  rw [last, within, namesOf_cons]
  dsimp only
  rw [ofNode_fork]
  refine ⟨(tallied'.of_grows solid' grows rfl rfl rfl).declare _ listed _
    fun own named count soleOwn => branches.symm ▸ sole own named count soleOwn,
    Knows.append (fun own named => ?_)
      ((knowsInside.grows grows).grows (grows_declare _ fork.identifier _))⟩
  have declares : fork.identifier = some own := Option.mem_toList.1 named
  obtain ⟨ids, stands, -⟩ := mem_named?_declare
    ((withBranches graph fork).2.addFork (withBranches graph fork).1).2 own
    (withBranches graph fork).2.forks.size
  exact ⟨ids, declares ▸ stands⟩

omit branching in
theorem notes_undeclared {reference : Reference}
    (absent : reference.target ∉ namesOf (nodesWithin root)) (unnamed : reference.identifier = none)
    (flat : ∀ choice ∈ reference.choices, choice.marks = []) :
    Notes root known (Node.reference reference).within
      fun graph => (ofNode (.reference reference) graph).2 := by
  intro marks graph solid tallied knows room
  have nothing : marksOf reference.nested = [] := by
    rw [marksOf_nested, flatMap_marks_eq_nil flat]
  have unknown : graph.named? reference.target = none :=
    Option.eq_none_iff_forall_ne_some.2 fun ids stands => absent (namesOf_subset
      (fun node member => mem_of_room room (List.mem_append_left _ member))
      (tallied.named _ ids stands))
  dsimp only
  rw [ofNode_unknown unknown, marksOf_reference, nothing, Reference.within_reference, namesOf_cons,
    Node.name?, unnamed, ← namesOf_marksOf, nothing]
  exact ⟨tallied.enter_undeclared absent, fun _ member => absurd member List.not_mem_nil⟩

theorem notes_reference {reference : Reference} (declared : reference.target ∈ known)
    (once : TakenOnce root reference)
    (inside : ∀ choice ∈ reference.choices, Passes root known choice) :
    Notes root known (Node.reference reference).within
      fun graph => (ofNode (.reference reference) graph).2 := by
  intro marks graph solid tallied knows room
  obtain ⟨ids, named⟩ := knows _ declared
  have target : reference.target ∈ namesOf (nodesWithin root) := namesOf_subset
    (fun node member => mem_of_room room (List.mem_append_left _ member))
    (tallied.named _ ids named)
  obtain ⟨some, valid⟩ := solid.names _ ids named
  have entering := tallied.enter_reference target
  have solidEntering : (entered graph).Solid := solid.of_eq rfl rfl
  rw [marksOf_reference] at room ⊢
  have last : (marks ++ [Node.reference reference] ++ marksOf reference.nested).Subperm
      (marksOf (nodesWithin root)) := by
    rw [List.append_assoc]
    exact room
  have nested := branching_of_room branching last
  rw [Reference.within_reference, namesOf_cons]
  dsimp only
  cases reruns : reference.reruns with
  | false =>
    rw [ofNode_look reruns named]
    refine entering.read branching inside nested some valid solidEntering tallied.named knows once
      (fun count sole => ?_) room
    obtain ⟨id, same, length⟩ := tallied.sole _ count ids sole named
    exact ⟨id, same, length⟩
  | true =>
    rw [ofNode_again reruns named]
    have grows := grows_addFork (entered graph) (ids.flatMap graph.branchesOf)
    obtain ⟨branches, below⟩ := flatMap_branchesOf solid named
    have found : ((entered graph).addFork (ids.flatMap graph.branchesOf)).2.branchesOf
        graph.forks.size = ids.flatMap graph.branchesOf :=
      branchesOf_of_found ((getElem?_addFork ..).trans (if_pos rfl))
    refine (entering.of_grows solidEntering grows rfl rfl rfl).read branching inside nested
      (List.cons_ne_nil _ _) (fun id member => ?_) (solidEntering.addFork branches below)
      tallied.named knows once (fun count sole => ⟨_, rfl, ?_⟩) room
    · rw [List.mem_singleton.1 member, size_addFork]
      exact Nat.lt_succ_self _
    · obtain ⟨id, rfl, length⟩ := tallied.sole _ count ids sole named
      rw [found, List.flatMap_singleton, length]

/-- Building a choice that is in order comes by what is within it. -/
theorem passes_of_metInOrder {choice : Choice} (inOrder : MetInOrder root known choice) :
    Passes root known choice := by
  induction inOrder with
  | script block => exact notes_nil
  | call call => exact notes_nil
  | nil => exact notes_nil
  | text content _ ih => exact fun marks graph solid => ih marks graph solid
  | fork _ _ inside later => exact notes_nodes branching (notes_fork branching inside) later
  | undeclared absent unnamed flat _ later =>
    exact notes_nodes branching (notes_undeclared absent unnamed flat)
      (later.mono (List.subset_append_left ..))
  | reference declared once _ _ inside later =>
    exact notes_nodes branching (notes_reference branching declared once inside) later

end Building

theorem tallied_empty : Tallied root [] .empty where
  forkNodes := rfl
  referenceNodes := rfl
  nodup := List.nodup_nil
  unresolved name := by
    refine ⟨fun listed => absurd listed List.not_mem_nil, ?_⟩
    rintro ⟨-, _, member, -⟩
    cases member
  named _ _ named := by cases named
  sole _ _ _ _ named := by cases named

end Outcomes

open Outcomes Graph in
/-- Of a document in order the analysis gives the number of forks and of references, nested ones
included, and every name that is referred to and not declared, once. -/
theorem Document.analyze_of_metInOrder {source : List Char} {document : Document}
    (read : Document.read source = .ok document)
    (inOrder : MetInOrder document.nodes [] (.nodes document.nodes)) :
    document.analyze.forks = (nodesWithin document.nodes).countP Node.isFork ∧
      document.analyze.references = (nodesWithin document.nodes).countP Node.isReference ∧
      document.analyze.unresolved.Nodup ∧
      ∀ name, name ∈ document.analyze.unresolved ↔
        (∃ reference, .reference reference ∈ nodesWithin document.nodes ∧
          reference.target = name) ∧ name ∉ namesOf (nodesWithin document.nodes) := by
  obtain ⟨tallied, -⟩ := passes_of_metInOrder (Document.branching_of_read read) inOrder [] .empty
    solid_empty tallied_empty (fun _ member => absurd member List.not_mem_nil) (.refl _)
  rw [List.nil_append] at tallied
  refine ⟨tallied.forkNodes.trans (countP_marksOf ?_ _),
    tallied.referenceNodes.trans (countP_marksOf ?_ _), tallied.nodup, fun name => ?_⟩
  · rintro (_ | _ | _) here <;> first | rfl | cases here
  · rintro (_ | _ | _) here <;> first | rfl | cases here
  · refine (tallied.unresolved name).trans (and_comm.trans (and_congr_left fun _ => ?_))
    refine exists_congr fun reference => and_congr_left fun _ => ?_
    exact ⟨List.mem_of_mem_filter, fun within => List.mem_filter.2 ⟨within, rfl⟩⟩

/-- A fork of two branches, with a name. -/
def twoWays : Fork :=
  ⟨some "N", false, false, [⟨.nodes [.text "a"], none⟩, ⟨.nodes [.text "b"], none⟩], ⟨0, 13⟩⟩

/-- A reference that has a fork for one branch, and another fork as fallback for the other one; a
reference to a name that is not declared; and one that executes the first again. -/
def onceEach : Document :=
  ⟨[.fork twoWays,
    .reference ⟨"N", some "M", false,
      [⟨1, .nodes [.fork ⟨none, false, false,
          [⟨.nodes [.text "1"], none⟩, ⟨.nodes [.text "2"], none⟩], ⟨27, 37⟩⟩,
        .reference ⟨"N", none, false, [], none, false, ⟨37, 41⟩⟩]⟩],
      some (.nodes [.fork ⟨none, false, false, [⟨.nodes [.text "x"], none⟩], ⟨45, 50⟩⟩]), false,
      ⟨13, 52⟩⟩,
    .reference ⟨"Z", none, false, [⟨5, .nodes [.text "z"]⟩], none, false, ⟨52, 66⟩⟩,
    .reference ⟨"M", none, false, [], none, true, ⟨66, 75⟩⟩], [], []⟩

theorem metInOrder_onceEach : MetInOrder onceEach.nodes [] (.nodes onceEach.nodes) := by
  have flat : ∀ {known : List String} {branches : List Branch},
      (∀ branch ∈ branches, branch.choice.marks = []) → ∀ front branch back,
        branches = front ++ branch :: back → MetInOrder onceEach.nodes
          (known ++ namesOf (withinBranches front)) branch.choice := by
    rintro known _ each front branch back rfl
    exact .of_marks (each branch (List.mem_append_right _ (List.mem_cons_self ..)))
  have once : (nodesWithin onceEach.nodes).filter (·.name? = some "N") = [.fork twoWays] := rfl
  have sole : Sole onceEach.nodes "N" 2 := .fork once
  refine .fork (flat (by decide)) (.reference (by decide) (.inr ⟨2, sole, .swap ..⟩) ?inside
    (.undeclared (by decide) rfl (by decide) (.reference (by decide) (.inl (by decide))
      (List.forall_mem_nil _) .nil)))
  case inside =>
    refine List.forall_mem_cons.2 ⟨?_, List.forall_mem_singleton.2 ?_⟩
    · exact .fork (flat (by decide))
        (.reference (by decide) (.inl (by decide)) (List.forall_mem_nil _) .nil)
    · exact .fork (flat (by decide)) .nil

set_option maxRecDepth 100000 in
/-- The name that is not declared is noted, and everything else is met once. -/
theorem Document.analyze_of_metInOrder_nested :
    Document.read ("\x7bN: (a), (b)\x7d\x7bM: @N: 1 -> (\x7b(1), (2)\x7d\x7b@N\x7d), " ++
        "(\x7b(x)\x7d)\x7d\x7b@Z: 5 -> (z)\x7d\x7beval @M\x7d").toList = .ok onceEach ∧
      MetInOrder onceEach.nodes [] (.nodes onceEach.nodes) ∧
      onceEach.analyze.forks = 3 ∧ onceEach.analyze.references = 4 ∧
      onceEach.analyze.unresolved.Nodup ∧
      ∀ name, name ∈ onceEach.analyze.unresolved ↔
        (∃ reference, .reference reference ∈ nodesWithin onceEach.nodes ∧
          reference.target = name) ∧ name ∉ ["N", "M"] := by
  have read : Document.read ("\x7bN: (a), (b)\x7d\x7bM: @N: 1 -> (\x7b(1), (2)\x7d\x7b@N\x7d), " ++
      "(\x7b(x)\x7d)\x7d\x7b@Z: 5 -> (z)\x7d\x7beval @M\x7d").toList = .ok onceEach := by
    with_unfolding_all exact rfl
  exact ⟨read, metInOrder_onceEach, Document.analyze_of_metInOrder read metInOrder_onceEach⟩

/-- A reference whose fallback, which holds a fork, is for both branches of the target. -/
def fallbackTwice : Document :=
  ⟨[.fork twoWays,
    .reference ⟨"N", none, false, [], some (.nodes [.fork ⟨none, false, false,
      [⟨.nodes [.text "x"], none⟩, ⟨.nodes [.text "y"], none⟩], ⟨19, 29⟩⟩]), false, ⟨13, 31⟩⟩],
    [], []⟩

set_option maxRecDepth 100000 in
/-- The fork in a fallback is counted for each branch that the fallback is for. -/
theorem Document.not_analyze_fallbackTwice :
    ¬ ∀ (source : List Char) (document : Document), Document.read source = .ok document →
      document.analyze.forks = (nodesWithin document.nodes).countP Node.isFork ∧
        document.analyze.references = (nodesWithin document.nodes).countP Node.isReference ∧
        document.analyze.unresolved.Nodup ∧
        ∀ name, name ∈ document.analyze.unresolved ↔
          (∃ reference, .reference reference ∈ nodesWithin document.nodes ∧
            reference.target = name) ∧ name ∉ namesOf (nodesWithin document.nodes) := by
  intro claim
  have read : Document.read "\x7bN: (a), (b)\x7d\x7b@N: (\x7b(x), (y)\x7d)\x7d".toList =
      .ok fallbackTwice := by with_unfolding_all exact rfl
  have counted : fallbackTwice.analyze.forks = 3 := by decide +kernel
  have forks := (claim _ _ read).1
  rw [counted] at forks
  exact absurd forks (by decide)

end BranchText
