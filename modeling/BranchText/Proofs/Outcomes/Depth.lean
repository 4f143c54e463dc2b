import BranchText.Proofs.Outcomes.Counting
import Mathlib.Data.Finset.Card
import Mathlib.Data.Finset.Range
import Mathlib.Logic.Relation

/-!
# How deep counting goes

Counting a fork counts the forks of its branches and of its readers. Where no fork leads back to
itself, every level of the recursion has one fork less before it, so counting ends within the bound
on the nesting, whatever the cache holds. A fork that leads back to itself is not counted within any
bound.
-/

namespace BranchText

namespace Outcomes

open Relation (ReflTransGen TransGen)

section Lists

variable {α β σ : Type}

/-- A part that is done for every item ends if it ends for each. -/
theorem isSome_mapM {part : α → StateT σ Option β} {items : List α}
    (each : ∀ item ∈ items, ∀ state, (part item state).isSome) (state : σ) :
    (items.mapM part state).isSome := by
  induction items generalizing state with
  | nil => rfl
  | cons item rest ih =>
    rw [List.mapM_cons]
    obtain ⟨⟨result, between⟩, here⟩ :=
      Option.isSome_iff_exists.1 (each item (List.mem_cons_self ..) state)
    obtain ⟨⟨others, last⟩, there⟩ := Option.isSome_iff_exists.1
      (ih (fun item member => each item (List.mem_cons_of_mem _ member)) between)
    exact Option.isSome_iff_exists.2 ⟨(result :: others, last), Option.bind_eq_some_iff.2
      ⟨_, here, Option.bind_eq_some_iff.2 ⟨_, there, rfl⟩⟩⟩

theorem exists_of_mem_left {relates : α → β → Prop} {items : List α} {results : List β}
    (each : List.Forall₂ relates items results) {item : α} (member : item ∈ items) :
    ∃ result, relates item result := by
  induction each with
  | nil => cases member
  | cons here _ ih =>
    rcases List.mem_cons.1 member with rfl | later
    · exact ⟨_, here⟩
    · exact ih later

end Lists

namespace Graph

variable (graph : Graph)

/-- A fork is counted for another one: a sequence of its branches or of its readers holds it. -/
def Leads (fork part : Nat) : Prop :=
  ∃ entry, graph.forks[fork]? = some entry ∧
    ∃ sequence ∈ entry.branches ++ entry.readers.flatten, part ∈ sequence

/-- No fork is counted for itself. -/
def CycleFree : Prop := ∀ fork, ¬ TransGen graph.Leads fork fork

open Classical in
/-- The forks that are counted on the way to a fork, itself among them. -/
noncomputable def below (fork : Nat) : Finset Nat :=
  (Finset.range graph.forks.size).filter (ReflTransGen graph.Leads fork)

variable {graph}

theorem Leads.lt_size {fork part : Nat} (leads : graph.Leads fork part) :
    fork < graph.forks.size := by
  obtain ⟨entry, found, -⟩ := leads
  exact (Array.getElem?_eq_some_iff.1 found).1

theorem card_below_le (fork : Nat) : (graph.below fork).card ≤ graph.forks.size := by
  classical
  have subset : graph.below fork ⊆ Finset.range graph.forks.size := Finset.filter_subset ..
  exact (Finset.card_le_card subset).trans_eq (Finset.card_range _)

/-- Fewer forks are before a fork than before the one that it is counted for. -/
theorem card_below_lt {fork part : Nat} (free : ¬ TransGen graph.Leads fork fork)
    (leads : graph.Leads fork part) : (graph.below part).card < (graph.below fork).card := by
  classical
  refine Finset.card_lt_card ⟨fun other member => ?_, fun subset => ?_⟩
  · obtain ⟨valid, reached⟩ := Finset.mem_filter.1 member
    exact Finset.mem_filter.2 ⟨valid, .head leads reached⟩
  · have itself : fork ∈ graph.below fork :=
      Finset.mem_filter.2 ⟨Finset.mem_range.2 leads.lt_size, .refl⟩
    exact free (.head' leads (Finset.mem_filter.1 (subset itself)).2)

/-- A sequence is counted, whatever the cache holds, if its forks are. -/
theorem isSome_countSequenceWith {bound : Nat} {sequence : Sequence}
    (each : ∀ fork ∈ sequence, ∀ cache, (graph.countForkCached bound fork cache).isSome)
    (cache : Cache) : (graph.countSequenceWith bound sequence cache).isSome := by
  obtain ⟨⟨counts, later⟩, run⟩ := Option.isSome_iff_exists.1 (isSome_mapM each cache)
  exact Option.isSome_iff_exists.2 ⟨(multiply counts, later),
    countSequenceWith_eq_some_iff.2 ⟨counts, run, rfl⟩⟩

/-- A fork is counted within any bound that exceeds the number of forks before it. -/
theorem isSome_countForkCached {bound fork : Nat}
    (free : ∀ part, ReflTransGen graph.Leads fork part → ¬ TransGen graph.Leads part part)
    (room : (graph.below fork).card < bound) (cache : Cache) :
    (graph.countForkCached bound fork cache).isSome := by
  induction bound generalizing fork cache with
  | zero => exact absurd room (Nat.not_lt_zero _)
  | succ bound ih =>
    rw [countForkCached]
    dsimp only
    split
    · rfl
    · split
      · rfl
      · rename_i entry found
        have sequences : ∀ sequence ∈ entry.branches ++ entry.readers.flatten, ∀ cache : Cache,
            (graph.countSequenceWith bound sequence cache).isSome := by
          intro sequence member
          refine isSome_countSequenceWith fun part listed => ?_
          have leads : graph.Leads fork part := ⟨entry, found, sequence, member, listed⟩
          exact ih (fun inner reached => free inner (.head leads reached))
            (Nat.lt_of_lt_of_le (card_below_lt (free fork .refl) leads) (Nat.le_of_lt_succ room))
        obtain ⟨⟨branches, between⟩, first⟩ := Option.isSome_iff_exists.1 (isSome_mapM
          (fun sequence member => sequences sequence (List.mem_append_left _ member)) cache)
        obtain ⟨⟨mapped, last⟩, second⟩ := Option.isSome_iff_exists.1 (isSome_mapM
          (fun sequence member => sequences sequence (List.mem_append_right _ member)) between)
        exact Option.isSome_iff_exists.2 ⟨_, Option.bind_eq_some_iff.2
          ⟨_, first, Option.bind_eq_some_iff.2 ⟨_, second, rfl⟩⟩⟩

/-- A sequence that leads to no cycle is counted within the bound on the nesting. -/
theorem isSome_countSequenceCached_of_loopless {sequence : Sequence}
    (free : ∀ fork ∈ sequence, ∀ part, ReflTransGen graph.Leads fork part →
      ¬ TransGen graph.Leads part part) :
    (graph.countSequenceCached graph.nestingBound sequence).isSome := by
  have each : ∀ fork ∈ sequence, ∀ cache,
      (graph.countForkCached graph.nestingBound fork cache).isSome := fun fork member cache =>
    isSome_countForkCached (free fork member) (Nat.lt_succ_of_le (card_below_le fork)) cache
  rw [countSequenceCached_eq_map, Option.isSome_map]
  exact isSome_countSequenceWith each _

/-- Without a cycle, every sequence is counted within the bound on the nesting. -/
theorem isSome_countSequenceCached (free : graph.CycleFree) (sequence : Sequence) :
    (graph.countSequenceCached graph.nestingBound sequence).isSome :=
  isSome_countSequenceCached_of_loopless fun _ _ part _ => free part

/-! ## Cycles -/

/-- What is counted for a fork is counted within a smaller bound. -/
theorem exists_smaller {bound fork part count : Nat}
    (counted : graph.countFork bound fork = some count) (leads : graph.Leads fork part) :
    ∃ smaller < bound, ∃ other, graph.countFork smaller part = some other := by
  cases bound with
  | zero => cases counted
  | succ bound =>
    obtain ⟨entry, found, sequence, member, listed⟩ := leads
    rcases countFork_succ_eq_some_iff.1 counted with ⟨absent, -⟩ | ⟨entry', found', branches,
      mapped, ofBranches, ofMapped, -⟩
    · rw [found] at absent
      cases absent
    · rw [found] at found'
      cases found'
      have inSequence : ∃ total, graph.countSequence bound sequence = some total := by
        rcases List.mem_append.1 member with branch | reader
        · exact exists_of_mem_left ofBranches branch
        · exact exists_of_mem_left ofMapped reader
      obtain ⟨total, counted⟩ := inSequence
      obtain ⟨counts, each, -⟩ := countSequence_eq_some_iff.1 counted
      obtain ⟨other, counted⟩ := exists_of_mem_left each listed
      exact ⟨bound, Nat.lt_succ_self _, other, counted⟩

theorem Counts.exists_of_leads {fork part count : Nat} (counts : graph.Counts fork count)
    (leads : graph.Leads fork part) : ∃ other, graph.Counts part other := by
  obtain ⟨bound, counted⟩ := counts
  obtain ⟨smaller, -, other, counted⟩ := exists_smaller counted leads
  exact ⟨other, smaller, counted⟩

/-- A fork that is counted for itself has no count. -/
theorem not_counts_of_cycle {fork : Nat} (cycle : TransGen graph.Leads fork fork) (count : Nat) :
    ¬ graph.Counts fork count := by
  have descends : ∀ {part : Nat}, TransGen graph.Leads fork part → ∀ {bound count : Nat},
      graph.countFork bound fork = some count →
        ∃ smaller < bound, ∃ other, graph.countFork smaller part = some other := by
    intro part reached bound count counted
    induction reached with
    | single leads => exact exists_smaller counted leads
    | tail _ leads ih =>
      obtain ⟨between, less, _, counted⟩ := ih
      obtain ⟨smaller, below, other, counted⟩ := exists_smaller counted leads
      exact ⟨smaller, below.trans less, other, counted⟩
  rintro ⟨bound, counted⟩
  induction bound using Nat.strongRecOn generalizing count with
  | ind bound ih =>
    obtain ⟨smaller, less, other, counted⟩ := descends cycle counted
    exact ih smaller less other counted

/-- A sequence is counted with the cache, within the bound on the nesting, if it is counted without
it. -/
theorem countSequenceCached_eq_some_iff {sequence : Sequence} {count : Nat} :
    graph.countSequenceCached graph.nestingBound sequence = some count ↔
      graph.CountsAll sequence count := by
  refine ⟨countsAll_of_cached, fun counts => ?_⟩
  obtain ⟨each, counted, -⟩ := countsAll_iff.1 counts
  have reaches : ∀ {fork part : Nat}, (∃ count, graph.Counts fork count) →
      ReflTransGen graph.Leads fork part → ∃ other, graph.Counts part other := by
    intro fork part counted reached
    induction reached with
    | refl => exact counted
    | tail _ leads ih =>
      obtain ⟨other, counted⟩ := ih
      exact counted.exists_of_leads leads
  have ends : (graph.countSequenceCached graph.nestingBound sequence).isSome := by
    refine isSome_countSequenceCached_of_loopless fun fork member part reached cycle => ?_
    obtain ⟨other, counted⟩ := reaches (exists_of_mem_left counted member) reached
    exact not_counts_of_cycle cycle other counted
  obtain ⟨other, given⟩ := Option.isSome_iff_exists.1 ends
  rw [given, (countsAll_of_cached given).unique counts]

/-! ## Without the cache -/

/-- A fork that has a count is counted within any bound that exceeds the number of forks before it,
also where no fork is kept. -/
theorem Counts.countFork_eq {bound fork count : Nat} (counts : graph.Counts fork count)
    (room : (graph.below fork).card < bound) : graph.countFork bound fork = some count := by
  induction bound generalizing fork count with
  | zero => exact absurd room (Nat.not_lt_zero _)
  | succ bound ih =>
    have free : ¬ TransGen graph.Leads fork fork := fun cycle =>
      not_counts_of_cycle cycle count counts
    rcases counts_iff.1 counts with absent | ⟨entry, found, branches, mapped, ofBranches, ofMapped,
      same⟩
    · exact countFork_succ_eq_some_iff.2 (.inl absent)
    · have sequences : ∀ sequences counts, sequences ⊆ entry.branches ++ entry.readers.flatten →
          List.Forall₂ graph.CountsAll sequences counts →
          List.Forall₂ (fun sequence count => graph.countSequence bound sequence = some count)
            sequences counts := by
        intro sequences counts among each
        refine ((List.forall₂_and_left _ _).2 ⟨among, each⟩).imp fun sequence count => ?_
        rintro ⟨member, counts⟩
        obtain ⟨counts, each, same⟩ := countsAll_iff.1 counts
        refine countSequence_eq_some_iff.2 ⟨counts, ?_, same⟩
        refine ((List.forall₂_and_left _ _).2 ⟨fun _ => id, each⟩).imp fun part count => ?_
        rintro ⟨listed, counts⟩
        have leads : graph.Leads fork part := ⟨entry, found, sequence, member, listed⟩
        exact ih counts (Nat.lt_of_lt_of_le (card_below_lt free leads) (Nat.le_of_lt_succ room))
      exact countFork_succ_eq_some_iff.2 (.inr ⟨entry, found, branches, mapped,
        sequences _ _ (List.subset_append_left ..) ofBranches,
        sequences _ _ (List.subset_append_right ..) ofMapped, same⟩)

theorem Counts.within {fork count : Nat} (counts : graph.Counts fork count) :
    graph.countFork graph.nestingBound fork = some count :=
  counts.countFork_eq (Nat.lt_succ_of_le (card_below_le fork))

theorem CountsAll.within {sequence : Sequence} {count : Nat}
    (counts : graph.CountsAll sequence count) :
    graph.countSequence graph.nestingBound sequence = some count := by
  obtain ⟨counts, each, same⟩ := countsAll_iff.1 counts
  exact countSequence_eq_some_iff.2 ⟨counts, each.imp fun _ _ => Counts.within, same⟩

/-- With the cache and without it, counting a sequence ends within the bound on the nesting for the
same sequences, with the same count. -/
theorem countSequenceCached_eq_countSequence (sequence : Sequence) :
    graph.countSequenceCached graph.nestingBound sequence =
      graph.countSequence graph.nestingBound sequence := by
  refine Option.ext fun count => ?_
  rw [countSequenceCached_eq_some_iff]
  exact ⟨CountsAll.within, fun counted => ⟨_, counted⟩⟩

end Graph

end Outcomes

end BranchText
