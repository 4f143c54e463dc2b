import BranchText.Outcomes.Graph
import BranchText.Proofs.Document.References
import BranchText.Proofs.Reading.Nested

/-!
# How the fork graph grows

Building only adds to a graph: forks keep their numbers and their branches, and may be read by more
references; names come to stand for more forks, and only those that are declared by what is built.
In a graph that was built from forks with branches, all numbers are those of forks, and every fork
has a branch.
-/

namespace BranchText

namespace Outcomes

namespace Graph

/-- The graph has become another one, in which at most the given names stand for more. -/
structure Grows (names : List String) (before after : Graph) : Prop where
  forks : ∀ (id : Nat) (entry : ForkEntry), before.forks[id]? = some entry →
    ∃ later : ForkEntry, after.forks[id]? = some later ∧ later.branches = entry.branches ∧
      entry.readers.Sublist later.readers
  known : ∀ name ids, before.named? name = some ids →
    ∃ later, after.named? name = some later ∧ ids ⊆ later
  others : ∀ name, name ∉ names → after.named? name = before.named? name

/-- All numbers are those of forks, and all forks have branches. -/
structure Solid (graph : Graph) : Prop where
  branches : ∀ (id : Nat) (entry : ForkEntry), graph.forks[id]? = some entry →
    entry.branches ≠ []
  below : ∀ (id : Nat) (entry : ForkEntry), graph.forks[id]? = some entry →
    ∀ sequence ∈ entry.branches ++ entry.readers.flatten, ∀ fork ∈ sequence,
      fork < graph.forks.size
  names : ∀ name ids, graph.named? name = some ids →
    ids ≠ [] ∧ ∀ id ∈ ids, id < graph.forks.size

/-- What building does to a graph, with the forks that it contributes. -/
structure Builds (names : List String) (before after : Graph) (added : List Nat) : Prop where
  grows : Grows names before after
  solid : before.Solid → after.Solid ∧ ∀ id ∈ added, id < after.forks.size

section Grows

variable {names more : List String} {before between after graph : Graph} {first second : List Nat}

theorem Grows.of_eq (forks : after.forks = before.forks) (named : after.names = before.names) :
    Grows names before after where
  forks id entry found := ⟨entry, by rw [forks]; exact found, rfl, .refl _⟩
  known name ids found := ⟨ids, by rw [named?, named]; exact found, List.Subset.refl _⟩
  others name _ := by rw [named?, named?, named]

theorem Grows.refl (graph : Graph) : Grows names graph graph := .of_eq rfl rfl

theorem Grows.trans (early : Grows names before between) (late : Grows more between after) :
    Grows (names ++ more) before after where
  forks id entry found := by
    obtain ⟨entry', found', same', readers'⟩ := early.forks id entry found
    obtain ⟨later, there, same, readers⟩ := late.forks id entry' found'
    exact ⟨later, there, same.trans same', readers'.trans readers⟩
  known name ids found := by
    obtain ⟨ids', found', subset'⟩ := early.known name ids found
    obtain ⟨later, there, subset⟩ := late.known name ids' found'
    exact ⟨later, there, List.Subset.trans subset' subset⟩
  others name absent := by
    rw [List.mem_append, not_or] at absent
    exact (late.others name absent.2).trans (early.others name absent.1)

theorem Grows.mono (grows : Grows names before after) (subset : names ⊆ more) :
    Grows more before after :=
  { grows with others := fun name absent => grows.others name fun member => absent (subset member) }

theorem Grows.lt_size (grows : Grows names before after) {id : Nat}
    (valid : id < before.forks.size) : id < after.forks.size := by
  obtain ⟨later, there, -⟩ := grows.forks id before.forks[id] (Array.getElem?_eq_getElem valid)
  exact (Array.getElem?_eq_some_iff.1 there).1

theorem branchesOf_of_found {id : Nat} {entry : ForkEntry} (found : graph.forks[id]? = some entry) :
    graph.branchesOf id = entry.branches := by
  rw [branchesOf, found]

/-- The branches of a fork stay what they are. -/
theorem Grows.branchesOf (grows : Grows names before after) {id : Nat}
    (valid : id < before.forks.size) : after.branchesOf id = before.branchesOf id := by
  have found := Array.getElem?_eq_getElem valid
  obtain ⟨later, there, same, -⟩ := grows.forks id _ found
  rw [branchesOf_of_found there, branchesOf_of_found found, same]

theorem Solid.branchesOf_ne (solid : graph.Solid) {id : Nat} (valid : id < graph.forks.size) :
    graph.branchesOf id ≠ [] := by
  have found := Array.getElem?_eq_getElem valid
  rw [branchesOf_of_found found]
  exact solid.branches id _ found

theorem Solid.lt_of_branchesOf (solid : graph.Solid) {id : Nat} {sequence : Sequence}
    (member : sequence ∈ graph.branchesOf id) : ∀ fork ∈ sequence, fork < graph.forks.size := by
  unfold Graph.branchesOf at member
  split at member
  · rename_i entry found
    exact solid.below id entry found sequence (List.mem_append_left _ member)
  · cases member

theorem solid_empty : empty.Solid where
  branches _ _ found := by cases found
  below _ _ found := by cases found
  names _ _ found := by cases found

theorem Solid.of_eq (solid : before.Solid) (forks : after.forks = before.forks)
    (named : after.names = before.names) : after.Solid where
  branches := by rw [forks]; exact solid.branches
  below := by rw [forks]; exact solid.below
  names := by
    intro name ids found
    rw [forks]
    exact solid.names name ids (by rw [named?, ← named]; exact found)

theorem Builds.trans (early : Builds names before between first)
    (late : Builds more between after second) :
    Builds (names ++ more) before after (first ++ second) where
  grows := early.grows.trans late.grows
  solid solid := by
    obtain ⟨solidBetween, below⟩ := early.solid solid
    obtain ⟨solidAfter, below'⟩ := late.solid solidBetween
    refine ⟨solidAfter, fun id member => ?_⟩
    rcases List.mem_append.1 member with early | later
    · exact late.grows.lt_size (below id early)
    · exact below' id later

theorem Builds.mono (builds : Builds names before after first) (subset : names ⊆ more)
    (fewer : second ⊆ first) : Builds more before after second where
  grows := builds.grows.mono subset
  solid solid := ⟨(builds.solid solid).1, fun id member => (builds.solid solid).2 id (fewer member)⟩

/-- Parts of a graph that matter to no statement about forks. -/
theorem Builds.of_eq (forks : after.forks = before.forks) (named : after.names = before.names) :
    Builds names before after [] where
  grows := .of_eq forks named
  solid solid := ⟨solid.of_eq forks named, fun _ member => absurd member List.not_mem_nil⟩

end Grows

/-! ## Primitive additions -/

section Primitives

variable (graph : Graph)

theorem builds_noteUnresolved (name : String) :
    Builds [] graph (graph.noteUnresolved name) [] := by
  unfold noteUnresolved
  split
  · exact .of_eq rfl rfl
  · exact .of_eq rfl rfl

theorem getElem?_addFork (branches : List Sequence) (id : Nat) :
    (graph.addFork branches).2.forks[id]? =
      if id = graph.forks.size then some ⟨branches, []⟩ else graph.forks[id]? :=
  Array.getElem?_push

theorem size_addFork (branches : List Sequence) :
    (graph.addFork branches).2.forks.size = graph.forks.size + 1 := Array.size_push ..

theorem grows_addFork (branches : List Sequence) : Grows [] graph (graph.addFork branches).2 := by
  refine ⟨fun id entry found => ⟨entry, ?_, rfl, .refl _⟩,
    fun name ids found => ⟨ids, found, List.Subset.refl _⟩, fun _ _ => rfl⟩
  have valid := (Array.getElem?_eq_some_iff.1 found).1
  rw [getElem?_addFork, if_neg (Nat.ne_of_lt valid)]
  exact found

variable {graph} in
theorem Solid.addFork (solid : graph.Solid) {branches : List Sequence} (nonempty : branches ≠ [])
    (below : ∀ sequence ∈ branches, ∀ fork ∈ sequence, fork < graph.forks.size) :
    (graph.addFork branches).2.Solid := by
  refine ⟨fun id entry found => ?_, fun id entry found sequence member fork listed => ?_,
    fun name ids found => ?_⟩
  · rw [getElem?_addFork] at found
    split at found
    · cases found
      exact nonempty
    · exact solid.branches id entry found
  · rw [size_addFork]
    rw [getElem?_addFork] at found
    split at found
    · cases found
      rw [List.flatten_nil, List.append_nil] at member
      exact Nat.lt_succ_of_lt (below sequence member fork listed)
    · exact Nat.lt_succ_of_lt (solid.below id entry found sequence member fork listed)
  · rw [size_addFork]
    obtain ⟨nonempty, below⟩ := solid.names name ids found
    exact ⟨nonempty, fun id member => Nat.lt_succ_of_lt (below id member)⟩

theorem getElem?_addReader (fork : Nat) (mapped : List Sequence) (id : Nat) :
    (graph.addReader fork mapped).forks[id]? = graph.forks[id]?.map fun entry =>
      if fork = id then { entry with readers := entry.readers ++ [mapped] } else entry := by
  rw [addReader, Array.getElem?_modify]
  split
  · rfl
  · exact (Option.map_id' ..).symm

theorem grows_addReader (fork : Nat) (mapped : List Sequence) :
    Grows [] graph (graph.addReader fork mapped) := by
  refine ⟨fun id entry found => ?_, fun name ids found => ⟨ids, found, List.Subset.refl _⟩,
    fun _ _ => rfl⟩
  rw [getElem?_addReader, found]
  refine ⟨_, rfl, ?_, ?_⟩
  · split <;> rfl
  · split
    · exact List.sublist_append_left ..
    · exact .refl _

variable {graph} in
theorem Solid.addReader (solid : graph.Solid) (fork : Nat) {mapped : List Sequence}
    (below : ∀ sequence ∈ mapped, ∀ id ∈ sequence, id < graph.forks.size) :
    (graph.addReader fork mapped).Solid := by
  have size : (graph.addReader fork mapped).forks.size = graph.forks.size :=
    Array.size_modify ..
  refine ⟨fun id entry found => ?_, fun id entry found sequence member other listed => ?_,
    fun name ids found => ?_⟩
  · rw [getElem?_addReader] at found
    obtain ⟨entry, before, rfl⟩ := Option.map_eq_some_iff.1 found
    split
    · exact solid.branches id entry before
    · exact solid.branches id entry before
  · rw [size]
    rw [getElem?_addReader] at found
    obtain ⟨entry, there, rfl⟩ := Option.map_eq_some_iff.1 found
    have before := solid.below id entry there sequence
    split at member
    · rw [List.flatten_append, List.flatten_singleton, ← List.append_assoc,
        List.mem_append] at member
      rcases member with earlier | added
      · exact before earlier other listed
      · exact below sequence added other listed
    · exact before member other listed
  · rw [size]
    exact solid.names name ids found

theorem lookup_cons_ite {α β : Type} [BEq α] [LawfulBEq α] [DecidableEq α] (name other : α)
    (forks : β) (rest : List (α × β)) :
    ((name, forks) :: rest).lookup other = if other = name then some forks
      else rest.lookup other := by
  rw [List.lookup_cons]
  by_cases same : other = name
  · rw [if_pos same, beq_iff_eq.2 same]
  · rw [if_neg same, beq_eq_false_iff_ne.2 same]

/-- The forks that a name stands for once it stands for one more. -/
def joined (fork : Nat) : Option (List Nat) → List Nat
  | none => [fork]
  | some forks => if forks.contains fork then forks else forks ++ [fork]

theorem mem_joined {fork id : Nat} {before : Option (List Nat)} :
    id ∈ joined fork before ↔ id = fork ∨ ∃ forks, before = some forks ∧ id ∈ forks := by
  cases before with
  | none => simp [joined]
  | some forks =>
    rw [joined]
    split
    · rename_i listed
      rw [List.contains_iff_mem] at listed
      simp only [Option.some.injEq, exists_eq_left', iff_or_self]
      exact fun same => same ▸ listed
    · simp [or_comm]

theorem named?_declare (name other : String) (fork : Nat) :
    (graph.declare (some name) fork).named? other =
      if other = name then some (joined fork (graph.named? name)) else graph.named? other := by
  change (declareIn name fork graph.names).lookup other = if other = name then
    some (joined fork (graph.names.lookup name)) else graph.names.lookup other
  induction graph.names with
  | nil => exact lookup_cons_ite ..
  | cons entry rest ih =>
    obtain ⟨first, forks⟩ := entry
    rw [declareIn]
    by_cases here : first = name
    · subst here
      simp only [lookup_cons_ite, if_true, joined]
      split <;> rfl
    · rw [if_neg here, lookup_cons_ite, ih, lookup_cons_ite, lookup_cons_ite,
        if_neg (Ne.symm here)]
      by_cases same : other = first
      · subst same
        rw [if_pos rfl, if_neg here, if_pos rfl]
      · rw [if_neg same, if_neg same]

/-- A name that is declared stands for the fork. -/
theorem mem_named?_declare (name : String) (fork : Nat) :
    ∃ ids, (graph.declare (some name) fork).named? name = some ids ∧ fork ∈ ids :=
  ⟨_, (graph.named?_declare name name fork).trans (if_pos rfl), mem_joined.2 (.inl rfl)⟩

theorem grows_declare (name : Option String) (fork : Nat) :
    Grows name.toList graph (graph.declare name fork) := by
  cases name with
  | none => exact .refl _
  | some name =>
    refine ⟨fun id entry found => ⟨entry, found, rfl, .refl _⟩, fun other ids found => ?_,
      fun other absent => ?_⟩
    · rw [named?_declare]
      split
      · rename_i same
        subst same
        exact ⟨_, rfl, fun id member => mem_joined.2 (.inr ⟨ids, found, member⟩)⟩
      · exact ⟨ids, found, List.Subset.refl _⟩
    · rw [named?_declare, if_neg (List.ne_of_not_mem_cons absent)]

theorem forks_declare (name : Option String) (fork : Nat) :
    (graph.declare name fork).forks = graph.forks := by
  cases name <;> rfl

variable {graph} in
theorem Solid.declare (solid : graph.Solid) (name : Option String) {fork : Nat}
    (valid : fork < graph.forks.size) : (graph.declare name fork).Solid := by
  cases name with
  | none => exact solid
  | some name =>
    refine ⟨solid.branches, solid.below, fun other ids found => ?_⟩
    rw [named?_declare] at found
    split at found
    · cases found
      refine ⟨List.ne_nil_of_mem (mem_joined.2 (.inl rfl)), fun id member => ?_⟩
      rcases mem_joined.1 member with rfl | ⟨before, there, listed⟩
      · exact valid
      · exact (solid.names name before there).2 id listed
    · exact solid.names other ids found

end Primitives

end Graph

open Graph

/-! ## Builders -/

/-- What a reference renders for each branch, as the graph takes it. -/
def mappedOf (reference : Reference) : Mapped :=
  ⟨ofMappings reference.mappings, ofFallback reference.fallback⟩

section Equations

variable (graph : Graph)

theorem ofNodes_cons (node : Node) (rest : List Node) :
    ofNodes (node :: rest) graph =
      ((ofNode node graph).1 ++ (ofNodes rest (ofNode node graph).2).1,
        (ofNodes rest (ofNode node graph).2).2) := rfl

theorem ofBranches_cons (branch : Branch) (rest : List Branch) :
    ofBranches (branch :: rest) graph =
      ((ofChoice branch.choice graph).1 :: (ofBranches rest (ofChoice branch.choice graph).2).1,
        (ofBranches rest (ofChoice branch.choice graph).2).2) := by
  cases branch
  rfl

/-- The graph with the branches of a fork, which is about to be added. -/
def withBranches (fork : Fork) : List Sequence × Graph :=
  ofBranches fork.branches { graph with forkNodes := graph.forkNodes + 1 }

theorem ofNode_fork (fork : Fork) :
    ofNode (.fork fork) graph =
      ([(withBranches graph fork).2.forks.size],
        ((withBranches graph fork).2.addFork (withBranches graph fork).1).2.declare fork.identifier
          (withBranches graph fork).2.forks.size) := by
  cases fork
  rfl

theorem ofNode_reference (reference : Reference) :
    ofNode (.reference reference) graph =
      (mappedOf reference).buildReference reference.target reference.identifier reference.reruns
        graph := by
  cases reference
  rfl

theorem lookup_ofMappings (mappings : List Mapping) (index : Nat) :
    (ofMappings mappings).lookup index =
      ((mappings.find? (·.branch = index)).map (·.choice)).map ofChoice := by
  induction mappings with
  | nil => rfl
  | cons mapping rest ih =>
    obtain ⟨branch, choice⟩ := mapping
    rw [ofMappings, lookup_cons_ite, List.find?_cons]
    by_cases same : index = branch
    · subst same
      simp
    · simp [same, Ne.symm same, ih]

/-- What is built for a branch is what the reference renders for it. -/
theorem builder?_mappedOf (reference : Reference) (index : Nat) :
    ((mappedOf reference).mappings.lookup index).or (mappedOf reference).fallback =
      (reference.answer? index).map ofChoice := by
  have fallback : (mappedOf reference).fallback = reference.fallback.map ofChoice := by
    obtain ⟨_, _, _, _, fallback, _, _⟩ := reference
    cases fallback <;> rfl
  rw [Reference.answer?, Option.map_or, fallback, Reference.mapping?]
  exact congrArg (Option.or · _) (lookup_ofMappings ..)

theorem build_none {reference : Reference} {start : Nat} (none : reference.answer? start = none)
    (count : Nat) :
    (mappedOf reference).build start (count + 1) graph =
      (mappedOf reference).build (start + 1) count graph := by
  rw [Mapped.build, builder?_mappedOf, none]
  rfl

theorem build_some {reference : Reference} {start : Nat} {choice : Choice}
    (found : reference.answer? start = some choice) (count : Nat) :
    (mappedOf reference).build start (count + 1) graph =
      ((ofChoice choice graph).1 ::
          ((mappedOf reference).build (start + 1) count (ofChoice choice graph).2).1,
        ((mappedOf reference).build (start + 1) count (ofChoice choice graph).2).2) := by
  rw [Mapped.build, builder?_mappedOf, found]
  rfl

theorem isCopy_mappedOf (reference : Reference) :
    (mappedOf reference).isCopy = reference.isCopy := by
  obtain ⟨_, _, _, mappings, fallback, _, _⟩ := reference
  have first : (ofMappings mappings).isEmpty = mappings.isEmpty := by
    rcases mappings with _ | ⟨⟨_, _⟩, _⟩ <;> rfl
  have second : (ofFallback fallback).isNone = fallback.isNone := by
    cases fallback <;> rfl
  rw [Mapped.isCopy, Reference.isCopy]
  exact congrArg₂ (· && ·) first second

end Equations

/-- Building the choice changes at most what the names stand for. -/
def Adds (names : List String) (choice : Choice) : Prop :=
  ∀ graph, Builds names graph (ofChoice choice graph).2 (ofChoice choice graph).1

section References

variable {reference : Reference} {names : List String}
  (each : ∀ choice ∈ reference.choices, Adds names choice)
include each

theorem builds_build (start count : Nat) (graph : Graph) :
    Builds names graph ((mappedOf reference).build start count graph).2
      ((mappedOf reference).build start count graph).1.flatten := by
  induction count generalizing start graph with
  | zero => exact .of_eq rfl rfl
  | succ count ih =>
    cases found : reference.answer? start with
    | none =>
      rw [build_none _ found]
      exact ih ..
    | some choice =>
      rw [build_some _ found]
      have first := each choice (Reference.mem_choices_of_answer? found) graph
      exact (first.trans (ih (start + 1) _)).mono (List.append_subset.2 ⟨List.Subset.refl _,
        List.Subset.refl _⟩) (List.Subset.refl _)

/-- The graph once a reference reads a fork. -/
def withReader (reference : Reference) (fork : Nat) (graph : Graph) : Graph :=
  if reference.isCopy then graph
  else
    let built := (mappedOf reference).build 0 (graph.branchesOf fork).length graph
    built.2.addReader fork built.1

theorem builds_withReader (fork : Nat) (graph : Graph) :
    Builds names graph (withReader reference fork graph) [] := by
  unfold withReader
  split
  · exact .of_eq rfl rfl
  · have built := builds_build each 0 (graph.branchesOf fork).length graph
    refine ⟨(built.grows.trans (grows_addReader _ fork _)).mono (by simp), fun solid => ?_⟩
    obtain ⟨solid, below⟩ := built.solid solid
    refine ⟨solid.addReader fork fun sequence member id listed => ?_,
      fun _ member => absurd member List.not_mem_nil⟩
    exact below id (List.mem_flatten.2 ⟨sequence, member, listed⟩)

/-- The graph once a reference reads a fork, and stands for it. -/
def reading (reference : Reference) (fork : Nat) (graph : Graph) : Graph :=
  (withReader reference fork graph).declare reference.identifier fork

omit each in
theorem read_cons (fork : Nat) (rest : List Nat) (graph : Graph) :
    (mappedOf reference).read reference.identifier (fork :: rest) graph =
      (mappedOf reference).read reference.identifier rest (reading reference fork graph) := by
  rw [Mapped.read, isCopy_mappedOf]
  rfl

theorem grows_reading (fork : Nat) (graph : Graph) :
    Grows (names ++ reference.identifier.toList) graph (reading reference fork graph) :=
  (builds_withReader each fork graph).grows.trans (grows_declare _ reference.identifier fork)

theorem solid_reading {fork : Nat} {graph : Graph} (solid : graph.Solid)
    (valid : fork < graph.forks.size) : (reading reference fork graph).Solid := by
  have built := builds_withReader each fork graph
  exact (built.solid solid).1.declare _ (built.grows.lt_size valid)

theorem grows_read (ids : List Nat) (graph : Graph) :
    Grows (names ++ reference.identifier.toList) graph
      ((mappedOf reference).read reference.identifier ids graph) := by
  induction ids generalizing graph with
  | nil => exact .refl _
  | cons fork rest ih =>
    rw [read_cons]
    exact ((grows_reading each fork graph).trans (ih _)).mono (List.append_subset.2
      ⟨List.Subset.refl _, List.Subset.refl _⟩)

theorem solid_read {ids : List Nat} {graph : Graph} (solid : graph.Solid)
    (below : ∀ id ∈ ids, id < graph.forks.size) :
    ((mappedOf reference).read reference.identifier ids graph).Solid := by
  induction ids generalizing graph with
  | nil => exact solid
  | cons fork rest ih =>
    rw [read_cons]
    refine ih (solid_reading each solid (below fork (List.mem_cons_self ..))) fun id member => ?_
    exact (grows_reading each fork graph).lt_size (below id (List.mem_cons_of_mem _ member))

omit each in
/-- The branches of all forks that a name stands for. -/
theorem flatMap_branchesOf {graph : Graph} (solid : graph.Solid) {name : String} {ids : List Nat}
    (found : graph.named? name = some ids) :
    ids.flatMap graph.branchesOf ≠ [] ∧ ∀ sequence ∈ ids.flatMap graph.branchesOf,
      ∀ fork ∈ sequence, fork < graph.forks.size := by
  obtain ⟨nonempty, below⟩ := solid.names name ids found
  constructor
  · obtain ⟨first, member⟩ := List.exists_mem_of_ne_nil ids nonempty
    obtain ⟨branch, listed⟩ :=
      List.exists_mem_of_ne_nil _ (solid.branchesOf_ne (below first member))
    exact List.ne_nil_of_mem (List.mem_flatMap.2 ⟨first, member, listed⟩)
  · intro sequence member
    obtain ⟨id, -, listed⟩ := List.mem_flatMap.1 member
    exact solid.lt_of_branchesOf listed

theorem builds_reference (graph : Graph) :
    Builds (names ++ reference.identifier.toList) graph (ofNode (.reference reference) graph).2
      (ofNode (.reference reference) graph).1 := by
  let entered : Graph := { graph with referenceNodes := graph.referenceNodes + 1 }
  have enters : Builds [] graph entered [] := .of_eq rfl rfl
  rw [ofNode_reference]
  unfold Mapped.buildReference
  dsimp only
  split
  · exact (enters.trans (builds_noteUnresolved ..)).mono (List.nil_subset _) (List.nil_subset _)
  · rename_i ids found
    have found : entered.named? reference.target = some ids := found
    split
    · have added := grows_addFork entered (ids.flatMap entered.branchesOf)
      refine ⟨((enters.grows.trans added).trans (grows_read each _ _)).mono (by simp),
        fun solid => ?_⟩
      have solid : entered.Solid := (enters.solid solid).1
      obtain ⟨nonempty, below⟩ := flatMap_branchesOf solid found
      have one : ∀ id ∈ [entered.forks.size],
          id < (entered.addFork (ids.flatMap entered.branchesOf)).2.forks.size := by
        intro id member
        rw [List.mem_singleton.1 member, size_addFork]
        exact Nat.lt_succ_self _
      exact ⟨solid_read each (solid.addFork nonempty below) one,
        fun id member => (grows_read each _ _).lt_size (one id member)⟩
    · refine ⟨(enters.grows.trans (grows_read each _ _)).mono (by simp), fun solid => ?_⟩
      have solid : entered.Solid := (enters.solid solid).1
      exact ⟨solid_read each solid (solid.names _ _ found).2,
        fun _ member => absurd member List.not_mem_nil⟩

end References

theorem length_ofBranches (branches : List Branch) (graph : Graph) :
    (ofBranches branches graph).1.length = branches.length := by
  induction branches generalizing graph with
  | nil => rfl
  | cons branch rest ih =>
    rw [ofBranches_cons]
    exact congrArg (· + 1) (ih _)

theorem builds_fork {fork : Fork} {names : List String} (some : fork.branches ≠ [])
    (each : ∀ graph, Builds names graph (ofBranches fork.branches graph).2
      (ofBranches fork.branches graph).1.flatten) (graph : Graph) :
    Builds (names ++ fork.identifier.toList) graph (ofNode (.fork fork) graph).2
      (ofNode (.fork fork) graph).1 := by
  have enters : Builds [] graph { graph with forkNodes := graph.forkNodes + 1 } [] :=
    .of_eq rfl rfl
  have built : Builds names graph (withBranches graph fork).2 (withBranches graph fork).1.flatten :=
    enters.trans (each { graph with forkNodes := graph.forkNodes + 1 })
  rw [ofNode_fork]
  refine ⟨((built.grows.trans (grows_addFork _ _)).trans (grows_declare _ _ _)).mono (by simp),
    fun solid => ?_⟩
  obtain ⟨solid, below⟩ := built.solid solid
  have nonempty : (withBranches graph fork).1 ≠ [] := by
    refine List.ne_nil_of_length_pos ?_
    rw [withBranches, length_ofBranches]
    exact List.length_pos_iff.2 some
  have added := solid.addFork nonempty fun sequence member id listed =>
    below id (List.mem_flatten.2 ⟨sequence, member, listed⟩)
  have valid : (withBranches graph fork).2.forks.size <
      ((withBranches graph fork).2.addFork (withBranches graph fork).1).2.forks.size := by
    rw [size_addFork]
    exact Nat.lt_succ_self _
  refine ⟨added.declare _ valid, fun id member => ?_⟩
  rw [List.mem_singleton.1 member, forks_declare]
  exact valid

mutual

/-- Building nodes declares at most the names within them. -/
theorem builds_ofNodes (nodes : List Node) (branching : Branching (nodesWithin nodes))
    (graph : Graph) : Builds (namesOf (nodesWithin nodes)) graph (ofNodes nodes graph).2
      (ofNodes nodes graph).1 := by
  match nodes with
  | [] => exact .of_eq rfl rfl
  | node :: rest =>
    rw [nodesWithin] at branching
    rw [nodesWithin, namesOf_append, ofNodes_cons]
    exact (builds_ofNode node branching.left graph).trans (builds_ofNodes rest branching.right _)

theorem builds_ofNode (node : Node) (branching : Branching node.within) (graph : Graph) :
    Builds (namesOf node.within) graph (ofNode node graph).2 (ofNode node graph).1 := by
  match node with
  | .text content => exact .of_eq rfl rfl
  | .fork ⟨identifier, silent, isSet, branches, span⟩ =>
    rw [Node.within] at branching
    have inside : Branching (withinBranches branches) :=
      fun fork member => branching fork (List.mem_cons_of_mem _ member)
    refine (builds_fork (branching _ (List.mem_cons_self ..))
      (builds_ofBranches branches inside) graph).mono ?_ (List.Subset.refl _)
    rw [Node.within, namesOf_cons]
    exact List.append_subset.2 ⟨List.subset_append_right .., List.subset_append_left ..⟩
  | .reference ⟨target, identifier, silent, mappings, fallback, reruns, span⟩ =>
    rw [Node.within] at branching
    have inside : Branching (withinMappings mappings ++ withinFallback fallback) :=
      fun fork member => branching fork (List.mem_cons_of_mem _ member)
    have each : ∀ choice ∈ Reference.choices
        ⟨target, identifier, silent, mappings, fallback, reruns, span⟩,
        Adds (namesOf (withinMappings mappings ++ withinFallback fallback)) choice := by
      intro choice member graph
      rw [namesOf_append]
      rcases List.mem_append.1 member with mapped | fallen
      · obtain ⟨mapping, listed, rfl⟩ := List.mem_map.1 mapped
        exact (builds_ofMappings mappings inside.left mapping listed graph).mono
          (List.subset_append_left ..) (List.Subset.refl _)
      · exact (builds_ofFallback fallback inside.right choice (Option.mem_toList.1 fallen)
          graph).mono (List.subset_append_right ..) (List.Subset.refl _)
    refine (builds_reference each graph).mono ?_ (List.Subset.refl _)
    rw [Node.within, namesOf_cons]
    exact List.append_subset.2 ⟨List.subset_append_right .., List.subset_append_left ..⟩

theorem builds_ofChoice (choice : Choice) (branching : Branching choice.within) :
    Adds (namesOf choice.within) choice := by
  match choice with
  | .nodes nodes => exact fun graph => builds_ofNodes nodes branching graph
  | .script _ => exact fun _ => .of_eq rfl rfl
  | .call _ => exact fun _ => .of_eq rfl rfl

theorem builds_ofBranches (branches : List Branch) (branching : Branching (withinBranches branches))
    (graph : Graph) : Builds (namesOf (withinBranches branches)) graph (ofBranches branches graph).2
      (ofBranches branches graph).1.flatten := by
  match branches with
  | [] => exact .of_eq rfl rfl
  | ⟨choice, weight⟩ :: rest =>
    rw [withinBranches] at branching
    rw [withinBranches, namesOf_append, ofBranches_cons]
    exact (builds_ofChoice choice branching.left graph).trans
      (builds_ofBranches rest branching.right _)

theorem builds_ofMappings (mappings : List Mapping)
    (branching : Branching (withinMappings mappings)) :
    ∀ mapping ∈ mappings, Adds (namesOf (withinMappings mappings)) mapping.choice := by
  match mappings with
  | [] => exact fun _ member => absurd member List.not_mem_nil
  | ⟨branch, choice⟩ :: rest =>
    rw [withinMappings] at branching
    rw [withinMappings, namesOf_append]
    intro mapping member graph
    rcases List.mem_cons.1 member with rfl | later
    · exact (builds_ofChoice choice branching.left graph).mono (List.subset_append_left ..)
        (List.Subset.refl _)
    · exact (builds_ofMappings rest branching.right mapping later graph).mono
        (List.subset_append_right ..) (List.Subset.refl _)

theorem builds_ofFallback (fallback : Option Choice)
    (branching : Branching (withinFallback fallback)) :
    ∀ choice ∈ fallback, Adds (namesOf (withinFallback fallback)) choice := by
  match fallback with
  | none => exact fun _ member => nomatch member
  | some choice =>
    rintro _ ⟨⟩
    exact builds_ofChoice choice branching

end

end Outcomes

end BranchText
