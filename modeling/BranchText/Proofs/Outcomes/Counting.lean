import BranchText.Outcomes.Count
import Mathlib.Data.List.Forall2

/-!
# What a count is made of

The count that runs keeps the counts of finished forks in a cache. Everything in the cache is what
the plain recursion counts, with some bound on the nesting, so the two agree wherever the one with
the cache has an answer. Which bound it was does not matter: a larger one gives the same count.
-/

namespace BranchText

namespace Outcomes

open List (Forall₂)

section Lists

variable {α β σ : Type}

/-- A part that is done for every item gives results if it gives one for each. -/
theorem mapM_eq_some_iff {part : α → Option β} {items : List α} {results : List β} :
    items.mapM part = some results ↔ Forall₂ (fun item result => part item = some result) items
      results := by
  induction items generalizing results with
  | nil => simp [eq_comm]
  | cons item rest ih =>
    rw [List.mapM_cons]
    constructor
    · intro given
      obtain ⟨result, here, given⟩ := Option.bind_eq_some_iff.1 given
      obtain ⟨others, there, same⟩ := Option.bind_eq_some_iff.1 given
      cases same
      exact .cons here (ih.1 there)
    · rintro (_ | ⟨here, there⟩)
      exact Option.bind_eq_some_iff.2 ⟨_, here, Option.bind_eq_some_iff.2 ⟨_, ih.2 there, rfl⟩⟩

/-- What holds of the state before each item, and is kept by each. -/
theorem mapM_state {part : α → StateT σ Option β} {items : List α} (holds : σ → Prop)
    (gives : α → β → Prop) {state later : σ} {results : List β}
    (run : items.mapM part state = some (results, later)) (before : holds state)
    (each : ∀ item state result later, holds state →
      part item state = some (result, later) → gives item result ∧ holds later) :
    Forall₂ gives items results ∧ holds later := by
  induction items generalizing state results with
  | nil =>
    cases run
    exact ⟨.nil, before⟩
  | cons item rest ih =>
    rw [List.mapM_cons] at run
    obtain ⟨⟨result, between⟩, here, run⟩ := Option.bind_eq_some_iff.1 run
    obtain ⟨⟨others, last⟩, there, same⟩ := Option.bind_eq_some_iff.1 run
    cases same
    obtain ⟨given, kept⟩ := each item _ _ _ before here
    obtain ⟨all, after⟩ := ih there kept
    exact ⟨.cons given all, after⟩

end Lists

namespace Graph

variable (graph : Graph)

/-- The fork is counted, with some bound on the nesting. -/
def Counts (fork count : Nat) : Prop := ∃ bound, graph.countFork bound fork = some count

/-- The sequence is counted, with some bound on the nesting. -/
def CountsAll (sequence : Sequence) (count : Nat) : Prop :=
  ∃ bound, graph.countSequence bound sequence = some count

variable {graph}

theorem countSequence_eq_some_iff {bound : Nat} {sequence : Sequence} {count : Nat} :
    graph.countSequence bound sequence = some count ↔
      ∃ counts, Forall₂ (fun fork count => graph.countFork bound fork = some count) sequence counts
        ∧ multiply counts = count := by
  rw [countSequence, Option.map_eq_some_iff]
  exact exists_congr fun counts => and_congr_left fun _ => mapM_eq_some_iff

theorem countFork_succ_eq_some_iff {bound fork count : Nat} :
    graph.countFork (bound + 1) fork = some count ↔
      (graph.forks[fork]? = none ∧ count = 0) ∨ ∃ entry, graph.forks[fork]? = some entry ∧
        ∃ branches mapped,
          Forall₂ (fun sequence count => graph.countSequence bound sequence = some count)
            entry.branches branches ∧
          Forall₂ (fun sequence count => graph.countSequence bound sequence = some count)
            entry.readers.flatten mapped ∧ count = combine branches mapped := by
  rw [countFork]
  cases graph.forks[fork]? with
  | none => simp [eq_comm]
  | some entry =>
    simp only [reduceCtorEq, false_and, Option.some.injEq, false_or]
    constructor
    · intro counted
      split at counted
      · rename_i branches mapped ofBranches ofMapped
        cases counted
        exact ⟨entry, rfl, branches, mapped, mapM_eq_some_iff.1 ofBranches,
          mapM_eq_some_iff.1 ofMapped, rfl⟩
      · cases counted
    · rintro ⟨_, rfl, branches, mapped, ofBranches, ofMapped, rfl⟩
      have first : entry.branches.mapM (graph.countSequence bound) = some branches :=
        mapM_eq_some_iff.2 ofBranches
      have second : entry.readers.flatten.mapM (graph.countSequence bound) = some mapped :=
        mapM_eq_some_iff.2 ofMapped
      unfold countSequence at first second
      rw [first, second]

/-- A larger bound gives the same counts. -/
theorem countFork_succ {bound fork count : Nat}
    (counted : graph.countFork bound fork = some count) :
    graph.countFork (bound + 1) fork = some count := by
  induction bound generalizing fork count with
  | zero => cases counted
  | succ bound ih =>
    have larger : ∀ sequence count, graph.countSequence bound sequence = some count →
        graph.countSequence (bound + 1) sequence = some count := by
      intro sequence count counted
      obtain ⟨counts, each, same⟩ := countSequence_eq_some_iff.1 counted
      exact countSequence_eq_some_iff.2 ⟨counts, each.imp fun _ _ => ih, same⟩
    rcases countFork_succ_eq_some_iff.1 counted with absent | ⟨entry, found, branches, mapped,
      ofBranches, ofMapped, same⟩
    · exact countFork_succ_eq_some_iff.2 (.inl absent)
    · exact countFork_succ_eq_some_iff.2 (.inr ⟨entry, found, branches, mapped,
        ofBranches.imp larger, ofMapped.imp larger, same⟩)

theorem countFork_le {bound larger fork count : Nat} (le : bound ≤ larger)
    (counted : graph.countFork bound fork = some count) :
    graph.countFork larger fork = some count := by
  induction le with
  | refl => exact counted
  | step _ ih => exact countFork_succ ih

theorem countSequence_le {bound larger : Nat} {sequence : Sequence} {count : Nat}
    (le : bound ≤ larger) (counted : graph.countSequence bound sequence = some count) :
    graph.countSequence larger sequence = some count := by
  obtain ⟨counts, each, same⟩ := countSequence_eq_some_iff.1 counted
  exact countSequence_eq_some_iff.2 ⟨counts, each.imp fun _ _ => countFork_le le, same⟩

/-- Finitely many counts that need some bound each have one in common. -/
theorem common_bound {α : Type} (count : Nat → α → Option Nat)
    (larger : ∀ {bound bound' item result}, bound ≤ bound' → count bound item = some result →
      count bound' item = some result) {items : List α} {results : List Nat}
    (each : Forall₂ (fun item result => ∃ bound, count bound item = some result) items results) :
    ∃ bound, Forall₂ (fun item result => count bound item = some result) items results := by
  induction each with
  | nil => exact ⟨0, .nil⟩
  | cons here _ ih =>
    obtain ⟨first, counted⟩ := here
    obtain ⟨second, others⟩ := ih
    exact ⟨max first second, .cons (larger (Nat.le_max_left ..) counted)
      (others.imp fun _ _ => larger (Nat.le_max_right ..))⟩

/-- A sequence has one count. -/
theorem CountsAll.unique {sequence : Sequence} {count other : Nat}
    (counts : graph.CountsAll sequence count) (again : graph.CountsAll sequence other) :
    count = other := by
  obtain ⟨first, counted⟩ := counts
  obtain ⟨second, recounted⟩ := again
  have same := countSequence_le (Nat.le_max_left first second) counted
  rw [countSequence_le (Nat.le_max_right first second) recounted] at same
  exact (Option.some.inj same).symm

theorem countsAll_iff {sequence : Sequence} {count : Nat} :
    graph.CountsAll sequence count ↔
      ∃ counts, Forall₂ graph.Counts sequence counts ∧ multiply counts = count := by
  constructor
  · rintro ⟨bound, counted⟩
    obtain ⟨counts, each, same⟩ := countSequence_eq_some_iff.1 counted
    exact ⟨counts, each.imp fun _ _ counted => ⟨bound, counted⟩, same⟩
  · rintro ⟨counts, each, same⟩
    obtain ⟨bound, all⟩ := common_bound graph.countFork countFork_le each
    exact ⟨bound, countSequence_eq_some_iff.2 ⟨counts, all, same⟩⟩

/-- The count of a fork comes from those of its branches and of the mappings that read it. -/
theorem counts_iff {fork count : Nat} :
    graph.Counts fork count ↔
      (graph.forks[fork]? = none ∧ count = 0) ∨ ∃ entry, graph.forks[fork]? = some entry ∧
        ∃ branches mapped, Forall₂ graph.CountsAll entry.branches branches ∧
          Forall₂ graph.CountsAll entry.readers.flatten mapped ∧
            count = combine branches mapped := by
  constructor
  · rintro ⟨bound, counted⟩
    cases bound with
    | zero => cases counted
    | succ bound =>
      refine (countFork_succ_eq_some_iff.1 counted).imp_right ?_
      rintro ⟨entry, found, branches, mapped, ofBranches, ofMapped, same⟩
      exact ⟨entry, found, branches, mapped, ofBranches.imp fun _ _ counted => ⟨bound, counted⟩,
        ofMapped.imp fun _ _ counted => ⟨bound, counted⟩, same⟩
  · rintro (absent | ⟨entry, found, branches, mapped, ofBranches, ofMapped, same⟩)
    · exact ⟨1, countFork_succ_eq_some_iff.2 (.inl absent)⟩
    · obtain ⟨first, ofBranches⟩ := common_bound graph.countSequence countSequence_le ofBranches
      obtain ⟨second, ofMapped⟩ := common_bound graph.countSequence countSequence_le ofMapped
      exact ⟨max first second + 1, countFork_succ_eq_some_iff.2 (.inr ⟨entry, found, branches,
        mapped, ofBranches.imp fun _ _ => countSequence_le (Nat.le_max_left ..),
        ofMapped.imp fun _ _ => countSequence_le (Nat.le_max_right ..), same⟩)⟩

/-! ## The cache -/

/-- Every count in the cache is the one of its fork. -/
def Kept (graph : Graph) (cache : Cache) : Prop :=
  ∀ fork count, cache[fork]? = some (some count) → graph.Counts fork count

theorem kept_empty (size : Nat) : graph.Kept (Array.replicate size none) := by
  intro fork count found
  rw [Array.getElem?_replicate] at found
  split at found <;> cases found

theorem Kept.set {cache : Cache} (kept : graph.Kept cache) {fork count : Nat}
    (counted : graph.Counts fork count) : graph.Kept (cache.setIfInBounds fork (some count)) := by
  intro other found present
  rw [Array.getElem?_setIfInBounds] at present
  split at present
  · rename_i same
    subst same
    split at present
    · cases present
      exact counted
    · cases present
  · exact kept other found present

/-- A cache without counts. -/
def emptyCache (graph : Graph) : Cache := Array.replicate graph.forks.size none

/-- The outcomes of a sequence, and the cache that they leave. -/
def countSequenceWith (graph : Graph) (bound : Nat) (sequence : Sequence) :
    StateT Cache Option Nat := do
  return multiply (← sequence.mapM (graph.countForkCached bound))

theorem countSequenceWith_eq_some_iff {bound count : Nat} {sequence : Sequence}
    {cache later : Cache} :
    graph.countSequenceWith bound sequence cache = some (count, later) ↔
      ∃ counts, sequence.mapM (graph.countForkCached bound) cache = some (counts, later) ∧
        multiply counts = count := by
  constructor
  · intro run
    obtain ⟨⟨counts, last⟩, run, same⟩ := Option.bind_eq_some_iff.1 run
    cases same
    exact ⟨counts, run, rfl⟩
  · rintro ⟨counts, run, rfl⟩
    exact Option.bind_eq_some_iff.2 ⟨_, run, rfl⟩

theorem countSequenceCached_eq_map (bound : Nat) (sequence : Sequence) :
    graph.countSequenceCached bound sequence =
      (graph.countSequenceWith bound sequence graph.emptyCache).map (·.1) := by
  refine Option.ext fun count => ?_
  rw [countSequenceCached, Option.map_eq_some_iff, Option.map_eq_some_iff]
  constructor
  · rintro ⟨⟨counts, later⟩, run, same⟩
    exact ⟨(count, later), countSequenceWith_eq_some_iff.2 ⟨counts, run, same⟩, rfl⟩
  · rintro ⟨⟨_, later⟩, run, rfl⟩
    obtain ⟨counts, run, same⟩ := countSequenceWith_eq_some_iff.1 run
    exact ⟨(counts, later), run, same⟩

/-- A sequence is counted with the cache as without it if its forks are. -/
theorem countsAll_of_countSequenceWith {bound count : Nat} {sequence : Sequence}
    {cache later : Cache}
    (forks : ∀ fork cache count later, graph.Kept cache →
      graph.countForkCached bound fork cache = some (count, later) →
        graph.Counts fork count ∧ graph.Kept later)
    (kept : graph.Kept cache)
    (run : graph.countSequenceWith bound sequence cache = some (count, later)) :
    graph.CountsAll sequence count ∧ graph.Kept later := by
  obtain ⟨counts, run, same⟩ := countSequenceWith_eq_some_iff.1 run
  obtain ⟨each, after⟩ := mapM_state graph.Kept graph.Counts run kept forks
  exact ⟨countsAll_iff.2 ⟨counts, each, same⟩, after⟩

/-- What is counted with the cache is what is counted without it. -/
theorem counts_of_cached {bound fork count : Nat} {cache later : Cache} (kept : graph.Kept cache)
    (run : graph.countForkCached bound fork cache = some (count, later)) :
    graph.Counts fork count ∧ graph.Kept later := by
  induction bound generalizing fork count cache later with
  | zero => cases run
  | succ bound ih =>
    rw [countForkCached] at run
    dsimp only at run
    split at run
    · rename_i found present
      cases run
      exact ⟨kept _ _ present, kept⟩
    -- A fork that is not finished: the cache stays sound along its branches and its readers.
    · split at run
      · rename_i absent
        cases run
        exact ⟨counts_iff.2 (.inl ⟨absent, rfl⟩), kept⟩
      · rename_i entry found
        have sequences : ∀ (sequence : Sequence) (cache : Cache) (count : Nat) (later : Cache),
            graph.Kept cache →
            graph.countSequenceWith bound sequence cache = some (count, later) →
            graph.CountsAll sequence count ∧ graph.Kept later := fun _ _ _ _ =>
          countsAll_of_countSequenceWith fun _ _ _ _ => ih
        obtain ⟨⟨branches, between⟩, ofBranches, run⟩ := Option.bind_eq_some_iff.1 run
        obtain ⟨⟨mapped, last⟩, ofMapped, run⟩ := Option.bind_eq_some_iff.1 run
        cases run
        obtain ⟨eachBranch, kept⟩ := mapM_state graph.Kept graph.CountsAll ofBranches kept sequences
        obtain ⟨eachMapped, kept⟩ := mapM_state graph.Kept graph.CountsAll ofMapped kept sequences
        have counted : graph.Counts fork (combine branches mapped) :=
          counts_iff.2 (.inr ⟨entry, found, branches, mapped, eachBranch, eachMapped, rfl⟩)
        exact ⟨counted, kept.set counted⟩

theorem countsAll_of_cached {bound count : Nat} {sequence : Sequence}
    (counted : graph.countSequenceCached bound sequence = some count) :
    graph.CountsAll sequence count := by
  rw [countSequenceCached_eq_map, Option.map_eq_some_iff] at counted
  obtain ⟨⟨_, later⟩, run, rfl⟩ := counted
  exact (countsAll_of_countSequenceWith (fun _ _ _ _ => counts_of_cached) (kept_empty _) run).1

end Graph

end Outcomes

end BranchText
