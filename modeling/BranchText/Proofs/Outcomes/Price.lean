import BranchText.Proofs.Outcomes.Counting
import BranchText.Proofs.Outcomes.Covering
import Mathlib.Algebra.BigOperators.Ring.Finset
import Mathlib.Algebra.Order.BigOperators.Group.Finset
import Mathlib.Order.Lattice.Nat

/-!
# What choices cost

The same choice may have been built several times, for several branches of a fork that a reference
looks at, and its copies are read by different references. What it costs is the least count of all
its copies. In these terms the count of a sequence is no less than what is paid for its first node
times what is paid for the others.
-/

namespace BranchText

namespace Outcomes

open Graph
open List (Forall₂)

variable {graph : Graph}

/-! ## Counts are positive -/

theorem one_le_multiply {counts : List Nat} (positive : ∀ count ∈ counts, 1 ≤ count) :
    1 ≤ multiply counts := by
  induction counts with
  | nil => exact Nat.le_refl 1
  | cons count rest ih =>
    obtain ⟨here, others⟩ := List.forall_mem_cons.1 positive
    exact Nat.mul_pos here (ih others)

theorem exists_of_mem_right {α β : Type} {relates : α → β → Prop} {items : List α}
    {results : List β} (each : Forall₂ relates items results) {result : β}
    (member : result ∈ results) : ∃ item ∈ items, relates item result := by
  induction each with
  | nil => cases member
  | cons here _ ih =>
    rcases List.mem_cons.1 member with rfl | later
    · exact ⟨_, List.mem_cons_self .., here⟩
    · obtain ⟨item, listed, related⟩ := ih later
      exact ⟨item, List.mem_cons_of_mem _ listed, related⟩

theorem one_le_of_counts (solid : graph.Solid) {fork count : Nat} (valid : fork < graph.forks.size)
    (counts : graph.Counts fork count) : 1 ≤ count := by
  obtain ⟨bound, counted⟩ := counts
  induction bound generalizing fork count with
  | zero => cases counted
  | succ bound ih =>
    rcases countFork_succ_eq_some_iff.1 counted with ⟨absent, -⟩ | ⟨entry, found, branches, mapped,
      ofBranches, -, rfl⟩
    · rw [Array.getElem?_eq_getElem valid] at absent
      cases absent
    · obtain ⟨sequence, others, same⟩ :=
        List.exists_cons_of_ne_nil (solid.branches fork entry found)
      have listed : sequence ∈ entry.branches ++ entry.readers.flatten := by
        rw [same]
        exact List.mem_cons_self ..
      have below := solid.below fork entry found sequence listed
      rw [same] at ofBranches
      obtain _ | ⟨first, -⟩ := ofBranches
      obtain ⟨counts, each, rfl⟩ := countSequence_eq_some_iff.1 first
      have positive : 1 ≤ multiply counts := by
        refine one_le_multiply fun count member => ?_
        obtain ⟨inner, listed, counted⟩ := exists_of_mem_right each member
        exact ih (below inner listed) counted
      rw [combine, addUp]
      omega

theorem one_le_of_countsAll (solid : graph.Solid) {sequence : Sequence} {count : Nat}
    (valid : ∀ fork ∈ sequence, fork < graph.forks.size) (counts : graph.CountsAll sequence count) :
    1 ≤ count := by
  obtain ⟨each, counted, rfl⟩ := countsAll_iff.1 counts
  refine one_le_multiply fun count member => ?_
  obtain ⟨fork, listed, counts⟩ := exists_of_mem_right counted member
  exact one_le_of_counts solid (valid fork listed) counts

/-! ## Costs -/

/-- The count of a sequence that covers the choice. -/
def Counted (graph : Graph) (choice : Choice) (count : Nat) : Prop :=
  ∃ sequence, Covers graph choice sequence ∧ graph.CountsAll sequence count

/-- There is nothing to choose, or what there is was built and counted. -/
def Fine (graph : Graph) (choice : Choice) : Prop :=
  choice.isPlain = true ∨ ∃ count, Counted graph choice count

/-- The least count of what was built for a choice, if there is something to choose. -/
noncomputable def cost (graph : Graph) (choice : Choice) : Nat :=
  if choice.isPlain then 1 else max 1 (sInf {count | Counted graph choice count})

/-- What a branch of a fork costs. -/
noncomputable def branchCost (graph : Graph) (fork : Fork) (index : Nat) : Nat :=
  (fork.branches[index]?).elim 0 fun branch => cost graph branch.choice

/-- What a reference costs for a branch of its target. -/
noncomputable def costAt (graph : Graph) (reference : Reference) (index : Nat) : Nat :=
  (reference.answer? index).elim 1 (cost graph)

theorem cost_of_isPlain {choice : Choice} (plain : choice.isPlain = true) :
    cost graph choice = 1 := by
  rw [cost, if_pos plain]

theorem one_le_cost (choice : Choice) : 1 ≤ cost graph choice := by
  unfold cost
  split
  · exact Nat.le_refl 1
  · exact Nat.le_max_left ..

theorem one_le_branchCost {fork : Fork} {index : Nat} (below : index < fork.branches.length) :
    1 ≤ branchCost graph fork index := by
  rw [branchCost, List.getElem?_eq_getElem below]
  exact one_le_cost _

theorem one_le_costAt (reference : Reference) (index : Nat) : 1 ≤ costAt graph reference index := by
  unfold costAt
  cases reference.answer? index with
  | none => exact Nat.le_refl 1
  | some choice => exact one_le_cost choice

/-- A reference for which there is nothing to choose costs nothing. -/
theorem costAt_eq_one {reference : Reference}
    (plain : ∀ choice ∈ reference.choices, choice.isPlain = true) (index : Nat) :
    costAt graph reference index = 1 := by
  unfold costAt
  cases found : reference.answer? index with
  | none => rfl
  | some choice => exact cost_of_isPlain (plain choice (Reference.mem_choices_of_answer? found))

theorem Counted.fine {choice : Choice} {count : Nat} (counted : Counted graph choice count) :
    Fine graph choice := .inr ⟨count, counted⟩

theorem Covers.lt_size {choice : Choice} {sequence : Sequence}
    (covers : Covers graph choice sequence) : ∀ fork ∈ sequence, fork < graph.forks.size := by
  obtain ⟨before, later, solidBefore, branching, -, rfl, grows⟩ := covers
  intro fork member
  exact grows.lt_size (((builds_ofChoice choice branching before).solid solidBefore).2 fork member)

/-- No copy of a choice counts less than the choice costs. -/
theorem Counted.cost_le (solid : graph.Solid) {choice : Choice} {count : Nat}
    (counted : Counted graph choice count) : cost graph choice ≤ count := by
  have positive : 1 ≤ count := by
    obtain ⟨sequence, covers, counts⟩ := counted
    exact one_le_of_countsAll solid (covers.lt_size) counts
  unfold cost
  split
  · exact positive
  · exact max_le positive (Nat.sInf_le counted)

/-- The cost of a choice that was counted is the count of one of its copies. -/
theorem Fine.exists_counted {choice : Choice} (fine : Fine graph choice)
    (heavy : choice.isPlain = false) : ∃ count, Counted graph choice count ∧
      count ≤ cost graph choice := by
  rcases fine with plain | counted
  · rw [heavy] at plain
    cases plain
  · refine ⟨_, Nat.sInf_mem counted, ?_⟩
    rw [cost, heavy]
    exact Nat.le_max_right ..

/-! ## Sequences -/

theorem countsAll_cons_iff {fork : Nat} {rest : Sequence} {count : Nat} :
    graph.CountsAll (fork :: rest) count ↔
      ∃ own others, graph.Counts fork own ∧ graph.CountsAll rest others ∧ count = own * others := by
  rw [countsAll_iff]
  constructor
  · rintro ⟨_, _ | ⟨here, each⟩, rfl⟩
    exact ⟨_, _, here, countsAll_iff.2 ⟨_, each, rfl⟩, rfl⟩
  · rintro ⟨own, others, here, counts, rfl⟩
    obtain ⟨each, counted, rfl⟩ := countsAll_iff.1 counts
    exact ⟨own :: each, .cons here counted, rfl⟩

theorem exists_countsAll_of_append (solid : graph.Solid) {front back : Sequence} {count : Nat}
    (valid : ∀ fork ∈ front, fork < graph.forks.size)
    (counts : graph.CountsAll (front ++ back) count) :
    ∃ others, graph.CountsAll back others ∧ others ≤ count := by
  induction front generalizing count with
  | nil => exact ⟨count, counts, Nat.le_refl count⟩
  | cons fork rest ih =>
    obtain ⟨here, behind⟩ := List.forall_mem_cons.1 valid
    obtain ⟨own, others, counted, countsRest, rfl⟩ := countsAll_cons_iff.1 counts
    obtain ⟨last, countsBack, le⟩ := ih behind countsRest
    exact ⟨last, countsBack,
      le.trans (Nat.le_mul_of_pos_left others (one_le_of_counts solid here counted))⟩

section Tail

variable (solid : graph.Solid) {node : Node} {rest : List Node}
include solid

theorem Counted.tail {count : Nat} (counted : Counted graph (.nodes (node :: rest)) count) :
    ∃ others, Counted graph (.nodes rest) others ∧ others ≤ count := by
  obtain ⟨sequence, covers, counts⟩ := counted
  have valid := covers.lt_size
  obtain ⟨before, later, started, rfl⟩ := covers_nodes_iff.1 covers
  rw [ofNodes_cons] at counts valid
  obtain ⟨others, countsRest, le⟩ := exists_countsAll_of_append solid
    (fun fork member => valid fork (List.mem_append_left _ member)) counts
  exact ⟨others, ⟨_, started.covers_rest, countsRest⟩, le⟩

omit solid in
theorem isPlain_tail (plain : (Choice.nodes (node :: rest)).isPlain = true) :
    (Choice.nodes rest).isPlain = true := by
  rw [Choice.isPlain, Choice.within, nodesWithin, List.all_append, Bool.and_eq_true] at plain
  exact plain.2

/-- What is behind a node is no worse. -/
theorem Fine.tail (fine : Fine graph (.nodes (node :: rest))) : Fine graph (.nodes rest) := by
  rcases fine with plain | ⟨count, counted⟩
  · exact .inl (isPlain_tail plain)
  · obtain ⟨others, countedRest, -⟩ := counted.tail solid
    exact countedRest.fine

theorem Fine.cost_tail_le (fine : Fine graph (.nodes (node :: rest))) :
    cost graph (.nodes rest) ≤ cost graph (.nodes (node :: rest)) := by
  by_cases plain : (Choice.nodes (node :: rest)).isPlain = true
  · rw [cost_of_isPlain plain, cost_of_isPlain (isPlain_tail plain)]
  · obtain ⟨count, counted, le⟩ := fine.exists_counted (Bool.not_eq_true _ ▸ plain)
    obtain ⟨others, countedRest, less⟩ := counted.tail solid
    exact (countedRest.cost_le solid).trans (less.trans le)

theorem Fine.of_append {front : List Node} (fine : Fine graph (.nodes (front ++ rest))) :
    Fine graph (.nodes rest) := by
  induction front with
  | nil => exact fine
  | cons node others ih => exact ih (fine.tail solid)

end Tail

/-! ## Forks -/

/-- The number pays for the branches of a fork and for everything that the references have for
them beyond one outcome each. -/
structure Pays (graph : Graph) (fork : Fork) (references : List Reference) (own : Nat) : Prop where
  branches : ∀ branch ∈ fork.branches, Fine graph branch.choice
  answers : ∀ reference ∈ references, ∀ index < fork.branches.length,
    ∀ choice, reference.answer? index = some choice → Fine graph choice
  le : ∑ index ∈ Finset.range fork.branches.length, branchCost graph fork index +
    (references.map fun reference =>
      ∑ index ∈ Finset.range fork.branches.length, (costAt graph reference index - 1)).sum ≤ own

section Pays

variable (solid : graph.Solid)
include solid

theorem fine_of_covers {branches : List Branch} {sequences : List Sequence} {counts : List Nat}
    (covers : Forall₂ (fun branch sequence => Covers graph branch.choice sequence) branches
      sequences)
    (counted : Forall₂ graph.CountsAll sequences counts) :
    (∀ branch ∈ branches, Fine graph branch.choice) ∧
      ∑ index ∈ Finset.range branches.length,
        ((branches[index]?).elim 0 fun branch => cost graph branch.choice) ≤ addUp counts := by
  induction covers generalizing counts with
  | nil =>
    cases counted
    exact ⟨fun _ member => (nomatch member), Nat.le_refl 0⟩
  | cons here _ ih =>
    obtain _ | ⟨count, rest⟩ := counted
    obtain ⟨fine, le⟩ := ih rest
    have first : Counted graph _ _ := ⟨_, here, count⟩
    refine ⟨List.forall_mem_cons.2 ⟨first.fine, fine⟩, ?_⟩
    rw [List.length_cons, Finset.sum_range_succ', Nat.add_comm]
    exact Nat.add_le_add (first.cost_le solid) le

omit solid in
theorem sum_extra_succ (reference : Reference) (start count : Nat) :
    ∑ index ∈ Finset.range (count + 1), (costAt graph reference (start + index) - 1) =
      (costAt graph reference start - 1) +
        ∑ index ∈ Finset.range count, (costAt graph reference (start + 1 + index) - 1) := by
  rw [Finset.sum_range_succ', Nat.add_comm]
  refine congrArg₂ (· + ·) rfl (Finset.sum_congr rfl fun index _ => ?_)
  rw [Nat.add_assoc, Nat.add_comm 1 index]

theorem fine_of_mapsTo {reference : Reference} {start count : Nat} {mapped : List Sequence}
    {counts : List Nat} (mapsTo : MapsTo graph reference start count mapped)
    (counted : Forall₂ graph.CountsAll mapped counts) :
    (∀ index < count, ∀ choice, reference.answer? (start + index) = some choice →
        Fine graph choice) ∧
      ∑ index ∈ Finset.range count, (costAt graph reference (start + index) - 1) ≤
        addUp (counts.map (· - 1)) := by
  induction mapsTo generalizing counts with
  | done start => exact ⟨fun _ below => absurd below (Nat.not_lt_zero _), Nat.zero_le _⟩
  | unmapped none _ ih =>
    rename_i start count mapped _
    obtain ⟨fine, le⟩ := ih counted
    have shift : ∀ index, start + (index + 1) = start + 1 + index := fun _ => by omega
    refine ⟨fun index below choice found => ?_, ?_⟩
    · cases index with
      | zero =>
        rw [Nat.add_zero, none] at found
        cases found
      | succ index =>
        rw [shift] at found
        exact fine index (by omega) choice found
    · have nothing : costAt graph reference start - 1 = 0 := by
        rw [costAt, none]
        rfl
      rw [sum_extra_succ, nothing, Nat.zero_add]
      exact le
  | mapped found covers _ ih =>
    rename_i start count choice sequence mapped _
    obtain _ | ⟨here, rest⟩ := counted
    obtain ⟨fine, le⟩ := ih rest
    have first : Counted graph choice _ := ⟨_, covers, here⟩
    have shift : ∀ index, start + (index + 1) = start + 1 + index := fun _ => by omega
    refine ⟨fun index below other foundOther => ?_, ?_⟩
    · cases index with
      | zero =>
        rw [Nat.add_zero, found] at foundOther
        cases foundOther
        exact first.fine
      | succ index =>
        rw [shift] at foundOther
        exact fine index (by omega) other foundOther
    · rw [sum_extra_succ]
      refine Nat.add_le_add (Nat.sub_le_sub_right ?_ 1) le
      rw [costAt, found]
      exact first.cost_le solid

omit solid in
theorem exists_append_of_forall₂ {α β : Type} {relates : α → β → Prop} {front back : List α}
    {results : List β} (each : Forall₂ relates (front ++ back) results) :
    ∃ first second, results = first ++ second ∧ Forall₂ relates front first ∧
      Forall₂ relates back second := by
  induction front generalizing results with
  | nil => exact ⟨[], results, rfl, .nil, each⟩
  | cons item rest ih =>
    obtain _ | ⟨here, each⟩ := each
    obtain ⟨first, second, rfl, inFront, inBack⟩ := ih each
    exact ⟨_ :: first, second, rfl, .cons here inFront, inBack⟩

omit solid in
theorem addUp_append (front back : List Nat) : addUp (front ++ back) = addUp front + addUp back := by
  induction front with
  | nil => exact (Nat.zero_add _).symm
  | cons count rest ih => rw [List.cons_append, addUp, addUp, ih, Nat.add_assoc]

theorem fine_of_readers {count : Nat} {references : List Reference}
    {lists readers : List (List Sequence)} (among : lists.Sublist readers)
    (mapsTo : Forall₂ (fun reference mapped => MapsTo graph reference 0 count mapped) references
      lists)
    {counts : List Nat} (counted : Forall₂ graph.CountsAll readers.flatten counts) :
    (∀ reference ∈ references, ∀ index < count, ∀ choice,
        reference.answer? index = some choice → Fine graph choice) ∧
      (references.map fun reference =>
        ∑ index ∈ Finset.range count, (costAt graph reference index - 1)).sum ≤
          addUp (counts.map (· - 1)) := by
  induction among generalizing references counts with
  | slnil =>
    cases mapsTo
    exact ⟨fun _ member => (nomatch member), Nat.zero_le _⟩
  | cons other _ ih =>
    obtain ⟨first, second, rfl, -, rest⟩ := exists_append_of_forall₂ counted
    obtain ⟨fine, le⟩ := ih mapsTo rest
    rw [List.map_append, addUp_append]
    exact ⟨fine, le.trans (Nat.le_add_left ..)⟩
  | cons_cons mapped _ ih =>
    obtain _ | ⟨here, others⟩ := mapsTo
    obtain ⟨first, second, rfl, own, rest⟩ := exists_append_of_forall₂ counted
    obtain ⟨fine, le⟩ := ih others rest
    obtain ⟨fineHere, leHere⟩ := fine_of_mapsTo solid here own
    simp only [Nat.zero_add] at fineHere leHere
    rw [List.map_append, addUp_append, List.map_cons, List.sum_cons]
    exact ⟨List.forall_mem_cons.2 ⟨fineHere, fine⟩, Nat.add_le_add leHere le⟩

/-- The count of a fork pays for each fork of the document that it serves, and for the references
that read it. -/
theorem pays_of_counts {id own : Nat} {entry : ForkEntry} (found : graph.forks[id]? = some entry)
    (counts : graph.Counts id own) {fork : Fork} (serves : Serves graph id fork)
    {references : List Reference} {count : Nat} (enough : fork.branches.length ≤ count)
    (reads : ReadBy graph count entry.readers references) : Pays graph fork references own := by
  obtain ⟨front, middle, back, same, covers⟩ := serves
  rw [branchesOf_of_found found] at same
  obtain ⟨lists, among, mapsTo⟩ := reads
  rcases counts_iff.1 counts with ⟨absent, -⟩ | ⟨_, again, branches, mapped, ofBranches, ofMapped,
    rfl⟩
  · rw [found] at absent
    cases absent
  cases found.symm.trans again
  rw [same] at ofBranches
  obtain ⟨early, last, rfl, ofEarly, -⟩ := exists_append_of_forall₂ ofBranches
  obtain ⟨first, own, rfl, -, ofOwn⟩ := exists_append_of_forall₂ ofEarly
  obtain ⟨fine, le⟩ := fine_of_covers solid covers ofOwn
  obtain ⟨fineAnswers, leAnswers⟩ := fine_of_readers solid among mapsTo ofMapped
  refine ⟨fine, fun reference member index below => ?_, ?_⟩
  · exact fineAnswers reference member index (Nat.lt_of_lt_of_le below enough)
  · rw [combine, addUp_append, addUp_append]
    have fewer : (references.map fun reference =>
        ∑ index ∈ Finset.range fork.branches.length, (costAt graph reference index - 1)).sum ≤
          (references.map fun reference =>
            ∑ index ∈ Finset.range count, (costAt graph reference index - 1)).sum :=
      List.sum_le_sum fun reference _ =>
        Finset.sum_le_sum_of_subset (Finset.range_subset_range.2 enough)
    exact Nat.add_le_add (le.trans (by omega)) (fewer.trans leAnswers)

omit solid in
theorem serves_of_covers {id : Nat} {entry : ForkEntry} (found : graph.forks[id]? = some entry)
    {fork : Fork} (covers : Forall₂ (fun branch sequence => Covers graph branch.choice sequence)
      fork.branches entry.branches) : Serves graph id fork :=
  ⟨[], entry.branches, [], by rw [branchesOf_of_found found, List.nil_append, List.append_nil],
    covers⟩


omit solid in
theorem isPlain_eq_false {node : Node} (heavy : node.isLight = false) (rest : List Node) :
    (Choice.nodes (node :: rest)).isPlain = false := by
  rw [← Bool.not_eq_true, Choice.isPlain, List.all_eq_true]
  intro plain
  have light := plain node (within_subset_of_mem (List.mem_cons_self ..) (Node.self_mem_within node))
  rw [heavy] at light
  cases light

/-- A fork in front costs at least what pays for it, and is known under its name. -/
theorem Fine.fork {fork : Fork} {rest : List Node}
    (fine : Fine graph (.nodes (.fork fork :: rest))) :
    ∃ own, Pays graph fork (fork.readers rest) own ∧
      own * cost graph (.nodes rest) ≤ cost graph (.nodes (.fork fork :: rest)) ∧
      ∀ name, fork.identifier = some name → Known graph name fork := by
  obtain ⟨count, ⟨sequence, covers, counts⟩, le⟩ := fine.exists_counted (isPlain_eq_false rfl rest)
  obtain ⟨id, tail, entry, rfl, found, branches, coversRest, named⟩ := covers.fork
  obtain ⟨own, others, counted, countsRest, rfl⟩ := countsAll_cons_iff.1 counts
  have serves := serves_of_covers found branches
  have reads : ReadBy graph fork.branches.length entry.readers (fork.readers rest) := by
    unfold Fork.readers
    cases identifier : fork.identifier with
    | none => exact ⟨[], List.nil_sublist _, .nil⟩
    | some name => exact (named name identifier).2
  have costRest : cost graph (.nodes rest) ≤ others :=
    Counted.cost_le solid ⟨tail, coversRest, countsRest⟩
  refine ⟨own, pays_of_counts solid found counted serves (Nat.le_refl _) reads,
    (Nat.mul_le_mul_left own costRest).trans le, fun name identifier => ?_⟩
  obtain ⟨ids, listed, member⟩ := (named name identifier).1
  exact ⟨ids, listed, id, member, serves⟩

/-- A reference that executes its target again costs at least what pays for any fork that the
target is known to stand for. -/
theorem Fine.again {reference : Reference} (reruns : reference.reruns = true) {rest : List Node}
    (fine : Fine graph (.nodes (.reference reference :: rest))) {fork : Fork}
    (known : Known graph reference.target fork) :
    ∃ own, Pays graph fork [reference] own ∧
      own * cost graph (.nodes rest) ≤ cost graph (.nodes (.reference reference :: rest)) ∧
      ∀ name, reference.identifier = some name → Known graph name fork := by
  have heavy : (Node.reference reference).isLight = false := by
    rw [Node.isLight, reruns]
    exact Bool.and_false _
  obtain ⟨count, ⟨sequence, covers, counts⟩, le⟩ := fine.exists_counted (isPlain_eq_false heavy rest)
  obtain ⟨ids, named, target, member, front, middle, back, same, branches⟩ := known
  rcases covers.again reruns with ⟨unknown, -⟩ | ⟨_, id, tail, entry, namedTarget, rfl, found, all,
    coversRest, reads, declared⟩
  · rw [named] at unknown
    cases unknown
  cases named.symm.trans namedTarget
  obtain ⟨own, others, counted, countsRest, rfl⟩ := countsAll_cons_iff.1 counts
  obtain ⟨before, after, rfl⟩ := List.append_of_mem member
  have serves : Serves graph id fork := by
    refine ⟨before.flatMap graph.branchesOf ++ front, middle,
      back ++ after.flatMap graph.branchesOf, ?_, branches⟩
    rw [branchesOf_of_found found, all, List.flatMap_append, List.flatMap_cons, same]
    simp only [List.append_assoc]
  have enough : fork.branches.length ≤ entry.branches.length := by
    obtain ⟨_, middle, _, same, branches⟩ := serves
    rw [branchesOf_of_found found] at same
    rw [branches.length_eq, same, List.length_append, List.length_append]
    omega
  have pays : Pays graph fork [reference] own := by
    by_cases renders : reference.isCopy = false
    · exact pays_of_counts solid found counted serves enough (reads renders)
    · have copies : reference.isCopy = true := Bool.not_eq_false _ ▸ renders
      have none : ReadBy graph entry.branches.length entry.readers [] :=
        ⟨[], List.nil_sublist _, .nil⟩
      obtain ⟨fine, -, paid⟩ := pays_of_counts solid found counted serves enough none
      refine ⟨fine, fun other member index _ choice answers => ?_, ?_⟩
      · rw [List.mem_singleton.1 member, Reference.answer?_of_isCopy copies] at answers
        cases answers
      · refine le_trans (le_of_eq (congrArg₂ (· + ·) rfl ?_)) paid
        have nothing : ∀ index, costAt graph reference index - 1 = 0 := by
          intro index
          rw [costAt, Reference.answer?_of_isCopy copies]
          rfl
        simp [nothing]
  have costRest : cost graph (.nodes rest) ≤ others :=
    Counted.cost_le solid ⟨tail, coversRest, countsRest⟩
  refine ⟨own, pays, (Nat.mul_le_mul_left own costRest).trans le,
    fun name identifier => ?_⟩
  obtain ⟨ids, listed, member⟩ := declared name identifier
  exact ⟨ids, listed, id, member, serves⟩

omit solid in
/-- The name of a reference that looks at its target is known for what the target is known for. -/
theorem Fine.look {reference : Reference} (looks : reference.reruns = false) {rest : List Node}
    (fine : Fine graph (.nodes (.reference reference :: rest))) {fork : Fork}
    (known : Known graph reference.target fork) {name : String}
    (identifier : reference.identifier = some name) : Known graph name fork := by
  have heavy : (Node.reference reference).isLight = false := by
    rw [Node.isLight, identifier]
    rfl
  obtain ⟨count, ⟨sequence, covers, -⟩, -⟩ := fine.exists_counted (isPlain_eq_false heavy rest)
  obtain ⟨ids, named, id, member, serves⟩ := known
  obtain ⟨own, listed, inside⟩ := (covers.look looks).2 name identifier ids named id member
  exact ⟨own, listed, id, inside, serves⟩

end Pays

end Outcomes

end BranchText
