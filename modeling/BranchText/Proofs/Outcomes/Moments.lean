import BranchText.Document.Reader
import BranchText.Proofs.Outcomes.Price

/-!
# What is counted on the way

Counting a document hands back a count for every fork and every sequence that it comes by, more
than once for a fork that several sequences share. Counting under watch is the same recursion with
the same cache; it puts every count on record when it is handed back, together with what the cache
holds by then, and it ends without an answer when a mapping has no outcome that could be subtracted.

Watching changes nothing: an answer that is given without it is given with it. Every count on
record is the one that the plain recursion has for its part, so it is one at least.
-/

namespace BranchText

namespace Outcomes

open Graph
open List (Forall₂)

/-- What a count is handed back for. -/
inductive Part where
  | fork (fork : Nat)
  | sequence (sequence : Sequence)

/-- A count that is handed back, and the cache at that moment. -/
structure Moment where
  part : Part
  count : Nat
  cache : Cache

/-- Counting with a record of the counts handed back, the latest one last. -/
abbrev Watched := StateT (Cache × List Moment) Option

namespace Watched

/-- Hands back a count. -/
def handBack (part : Part) (count : Nat) : Watched Nat := fun (cache, moments) =>
  some (count, cache, moments ++ [⟨part, count, cache⟩])

/-- Keeps a count in the cache. -/
def keep (fork count : Nat) : Watched Unit := fun (cache, moments) =>
  some ((), cache.setIfInBounds fork (some count), moments)

/-- A count from which one can be subtracted. -/
def positive : Nat → Watched Nat
  | 0 => fun _ => none
  | count + 1 => pure (count + 1)

end Watched

namespace Graph

open Watched

/-- Counts a sequence under watch, from what its forks count. -/
def watchSequence (countFork : Nat → Watched Nat) (sequence : Sequence) : Watched Nat := do
  handBack (.sequence sequence) (multiply (← sequence.mapM countFork))

/-- Counts a fork under watch. -/
def countForkWatched (graph : Graph) : Nat → Nat → Watched Nat
  | 0, _ => fun _ => none
  | bound + 1, fork => fun (cache, moments) =>
    match cache[fork]? with
    | some (some count) => handBack (.fork fork) count (cache, moments)
    | _ =>
      match graph.forks[fork]? with
      | none => handBack (.fork fork) 0 (cache, moments)
      | some entry =>
        let count : Watched Nat := do
          let branches ← entry.branches.mapM (watchSequence (graph.countForkWatched bound))
          let mapped ← entry.readers.flatten.mapM fun sequence => do
            positive (← watchSequence (graph.countForkWatched bound) sequence)
          keep fork (combine branches mapped)
          handBack (.fork fork) (combine branches mapped)
        count (cache, moments)

/-- Counts a sequence under watch with a cache that starts empty, and gives what is on record. -/
def countSequenceWatched (graph : Graph) (bound : Nat) (sequence : Sequence) :
    Option (Nat × List Moment) :=
  (watchSequence (graph.countForkWatched bound) sequence
    (Array.replicate graph.forks.size none, [])).map fun result => (result.1, result.2.2)

end Graph

/-- The count is the one that the plain recursion has for a part of the graph, and so are the counts
in the cache. -/
inductive Moment.Sound (graph : Graph) : Moment → Prop
  | fork {fork count : Nat} {cache : Cache} (valid : fork < graph.forks.size)
    (counts : graph.Counts fork count) (kept : graph.Kept cache) :
    Sound graph ⟨.fork fork, count, cache⟩
  | sequence {sequence : Sequence} {count : Nat} {cache : Cache}
    (valid : ∀ fork ∈ sequence, fork < graph.forks.size) (counts : graph.CountsAll sequence count)
    (kept : graph.Kept cache) : Sound graph ⟨.sequence sequence, count, cache⟩

theorem Moment.Sound.one_le {graph : Graph} (solid : graph.Solid) {moment : Moment}
    (sound : moment.Sound graph) : 1 ≤ moment.count := by
  cases sound with
  | fork valid counts _ => exact one_le_of_counts solid valid counts
  | sequence valid counts _ => exact one_le_of_countsAll solid valid counts

/-! ## Watching changes nothing -/

/-- What is given without watching is given with it, and has the property. All that is put on
record is sound, and so is the cache that is left. -/
def Follows (graph : Graph) {α : Type} (gives : α → Prop) (plain : StateT Cache Option α)
    (watched : Watched α) : Prop :=
  ∀ (cache later : Cache) (result : α), graph.Kept cache → plain cache = some (result, later) →
    gives result ∧ graph.Kept later ∧ ∀ moments, ∃ new,
      watched (cache, moments) = some (result, later, moments ++ new) ∧
        ∀ moment ∈ new, moment.Sound graph

section Follows

variable {graph : Graph} {α β : Type} {gives : α → Prop} {plain : StateT Cache Option α}
  {watched : Watched α}

theorem Follows.pure {result : α} (given : gives result) :
    Follows graph gives (Pure.pure result) (Pure.pure result) := by
  intro cache later other kept run
  cases run
  exact ⟨given, kept, fun moments => ⟨[], by rw [List.append_nil]; rfl, List.forall_mem_nil _⟩⟩

theorem Follows.bind (first : Follows graph gives plain watched) {others : β → Prop}
    {next : α → StateT Cache Option β} {watchedNext : α → Watched β}
    (second : ∀ result, gives result → Follows graph others (next result) (watchedNext result)) :
    Follows graph others (plain >>= next) (watched >>= watchedNext) := by
  intro cache later result kept run
  obtain ⟨⟨between, middle⟩, here, run⟩ := Option.bind_eq_some_iff.1 run
  obtain ⟨given, kept, early⟩ := first _ _ _ kept here
  obtain ⟨other, kept, late⟩ := second between given _ _ _ kept run
  refine ⟨other, kept, fun moments => ?_⟩
  obtain ⟨new, here, sound⟩ := early moments
  obtain ⟨newer, there, soundNewer⟩ := late (moments ++ new)
  refine ⟨new ++ newer, Option.bind_eq_some_iff.2 ⟨_, here, ?_⟩, ?_⟩
  · rw [← List.append_assoc]
    exact there
  · exact List.forall_mem_append.2 ⟨sound, soundNewer⟩

/-- What is done for each item under watch follows what is done for each item. -/
theorem Follows.mapM {items : List β} {part : β → StateT Cache Option α}
    {watchedPart : β → Watched α} {gives : β → α → Prop}
    (each : ∀ item ∈ items, Follows graph (gives item) (part item) (watchedPart item)) :
    Follows graph (Forall₂ gives items) (items.mapM part) (items.mapM watchedPart) := by
  induction items with
  | nil => exact .pure .nil
  | cons item rest ih =>
    obtain ⟨here, others⟩ := List.forall_mem_cons.1 each
    rw [List.mapM_cons, List.mapM_cons]
    exact here.bind fun _ first => (ih others).bind fun _ second => .pure (.cons first second)

/-- Handing a count back is not noticed without watching. -/
theorem Follows.handBack {part : Part} {count : Nat} {gives : Nat → Prop} (given : gives count)
    (sound : ∀ cache, graph.Kept cache → Moment.Sound graph ⟨part, count, cache⟩) :
    Follows graph gives (Pure.pure count) (Watched.handBack part count) := by
  intro cache later result kept run
  cases run
  exact ⟨given, kept, fun moments => ⟨_, rfl, List.forall_mem_singleton.2 (sound cache kept)⟩⟩

/-- Finding a positive count is not noticed without watching. -/
theorem Follows.positive {plain : StateT Cache Option Nat} {watched : Watched Nat}
    {gives : Nat → Prop} (follows : Follows graph gives plain watched)
    (positive : ∀ count, gives count → 1 ≤ count) :
    Follows graph gives plain (watched >>= Watched.positive) := by
  have same : plain = plain >>= Pure.pure := (bind_pure plain).symm
  rw [same]
  refine follows.bind fun count given => ?_
  obtain ⟨less, rfl⟩ : ∃ less, count = less + 1 := Nat.exists_eq_add_of_le' (positive count given)
  exact .pure given

/-- A sequence in the graph is counted under watch as it is without. -/
theorem follows_sequence {bound : Nat} {sequence : Sequence}
    (valid : ∀ fork ∈ sequence, fork < graph.forks.size)
    (forks : ∀ fork ∈ sequence, Follows graph (graph.Counts fork) (graph.countForkCached bound fork)
      (graph.countForkWatched bound fork)) :
    Follows graph (graph.CountsAll sequence) (graph.countSequenceWith bound sequence)
      (watchSequence (graph.countForkWatched bound) sequence) := by
  refine (Follows.mapM forks).bind fun counts each => ?_
  have counts := countsAll_iff.2 ⟨counts, each, rfl⟩
  exact .handBack counts fun _ => .sequence valid counts

/-- Keeping the count of a fork before it is handed back. -/
theorem follows_keep {fork count : Nat} (valid : fork < graph.forks.size)
    (counts : graph.Counts fork count) :
    Follows graph (graph.Counts fork)
      (do modify fun cache : Cache => cache.setIfInBounds fork (some count); return count)
      (do Watched.keep fork count; Watched.handBack (.fork fork) count) := by
  intro cache later other kept run
  cases run
  have after := kept.set counts
  exact ⟨counts, after, fun moments =>
    ⟨_, rfl, List.forall_mem_singleton.2 (.fork valid counts after)⟩⟩

/-- A fork in the graph is counted under watch as it is without. -/
theorem follows_fork (solid : graph.Solid) (bound : Nat) {fork : Nat}
    (valid : fork < graph.forks.size) :
    Follows graph (graph.Counts fork) (graph.countForkCached bound fork)
      (graph.countForkWatched bound fork) := by
  induction bound generalizing fork with
  | zero => intro _ _ _ _ run; cases run
  | succ bound ih =>
    intro cache later count kept run
    simp only [countForkCached] at run
    split at run
    · rename_i found present
      have counts := kept _ _ present
      simp only [countForkWatched, present]
      exact Follows.handBack counts (fun _ => .fork valid counts) _ _ _ kept run
    · split at run
      · rename_i absent
        rw [Array.getElem?_eq_getElem valid] at absent
        cases absent
      · rename_i unfinished _ entry found
        have inside := solid.below fork entry found
        have follows : ∀ sequence ∈ entry.branches ++ entry.readers.flatten,
            Follows graph (graph.CountsAll sequence) (graph.countSequenceWith bound sequence)
              (watchSequence (graph.countForkWatched bound) sequence) := fun sequence member =>
          follows_sequence (inside sequence member) fun fork listed =>
            ih (inside sequence member fork listed)
        have branches := Follows.mapM fun sequence member =>
          follows sequence (List.mem_append_left entry.readers.flatten member)
        have mapped := Follows.mapM fun sequence member =>
          have member := List.mem_append_right entry.branches member
          (follows sequence member).positive fun _ => one_le_of_countsAll solid (inside _ member)
        have whole := branches.bind fun branches ofBranches => mapped.bind fun mapped ofMapped =>
          follows_keep valid (counts_iff.2 (.inr ⟨entry, found, branches, mapped, ofBranches,
            ofMapped, rfl⟩))
        obtain ⟨counts, kept, watched⟩ := whole cache later count kept run
        refine ⟨counts, kept, fun moments => ?_⟩
        simp only [countForkWatched, found]
        exact watched moments

/-- A sequence in the graph is counted under watch if it is counted without, and all that is put on
record is sound. -/
theorem exists_moments (solid : graph.Solid) {bound count : Nat} {sequence : Sequence}
    (valid : ∀ fork ∈ sequence, fork < graph.forks.size)
    (counted : graph.countSequenceCached bound sequence = some count) :
    ∃ moments, graph.countSequenceWatched bound sequence = some (count, moments) ∧
      ∀ moment ∈ moments, moment.Sound graph := by
  rw [countSequenceCached_eq_map, Option.map_eq_some_iff] at counted
  obtain ⟨⟨_, later⟩, run, rfl⟩ := counted
  obtain ⟨-, -, watched⟩ := follows_sequence valid
    (fun fork listed => follows_fork solid bound (valid fork listed)) _ later _ (kept_empty _) run
  obtain ⟨moments, watched, sound⟩ := watched []
  exact ⟨moments, Option.map_eq_some_iff.2 ⟨_, watched, rfl⟩, sound⟩

end Follows

end Outcomes

open Outcomes Graph in
/-- Where counting ends, it hands back no count below one, on the way and for the whole document,
and finds one to subtract for every mapping. -/
theorem Document.one_le_counts {source : List Char} {document : Document}
    (read : Document.read source = .ok document) {total : Nat}
    (counted : document.analyze.possibleOutcomes = some total) :
    1 ≤ total ∧ ∃ moments,
      (ofNodes document.nodes .empty).2.countSequenceWatched
        (ofNodes document.nodes .empty).2.nestingBound (ofNodes document.nodes .empty).1 =
          some (total, moments) ∧
      ∀ moment ∈ moments, 1 ≤ moment.count := by
  obtain ⟨solid, valid⟩ := (builds_ofNodes document.nodes (Document.branching_of_read read)
    .empty).solid solid_empty
  obtain ⟨moments, watched, sound⟩ := exists_moments solid valid counted
  exact ⟨one_le_of_countsAll solid valid (countsAll_of_cached counted), moments, watched,
    fun moment member => (sound moment member).one_le solid⟩

/-- Two declarations of one name, another name for both of them, and a reader that executes either
again. -/
def sharedForks : Document :=
  ⟨[.fork ⟨none, false, false,
      [⟨.nodes [.fork ⟨some "N", false, false,
        [⟨.nodes [.text "a"], none⟩, ⟨.nodes [.text "b"], none⟩], ⟨2, 15⟩⟩], none⟩,
      ⟨.nodes [.fork ⟨some "N", false, false, [⟨.nodes [.text "c"], none⟩], ⟨19, 27⟩⟩], none⟩],
      ⟨0, 29⟩⟩,
    .reference ⟨"N", some "M", false, [⟨0, .nodes [.fork ⟨none, false, false,
      [⟨.nodes [.text "1"], none⟩, ⟨.nodes [.text "2"], none⟩], ⟨43, 53⟩⟩]⟩], none, false,
      ⟨29, 55⟩⟩,
    .reference ⟨"M", none, false, [⟨1, .nodes [.text "x"]⟩], none, true, ⟨55, 74⟩⟩], [], []⟩

set_option maxRecDepth 100000 in
open Outcomes Graph in
/-- Both declarations are read by the same mappings, and the branches of both are in the fork that
executes them again. -/
theorem Document.one_le_counts_shared :
    Document.read ("\x7b(\x7bN: (a), (b)\x7d), (\x7bN: (c)\x7d)\x7d" ++
        "\x7bM: @N: 0 -> (\x7b(1), (2)\x7d)\x7d\x7beval @M: 1 -> (x)\x7d").toList =
          .ok sharedForks ∧
      sharedForks.analyze.possibleOutcomes = some 15 ∧
      ∃ moments,
        (ofNodes sharedForks.nodes .empty).2.countSequenceWatched
          (ofNodes sharedForks.nodes .empty).2.nestingBound (ofNodes sharedForks.nodes .empty).1 =
            some (15, moments) ∧
        ∀ moment ∈ moments, 1 ≤ moment.count := by
  have read : Document.read ("\x7b(\x7bN: (a), (b)\x7d), (\x7bN: (c)\x7d)\x7d" ++
      "\x7bM: @N: 0 -> (\x7b(1), (2)\x7d)\x7d\x7beval @M: 1 -> (x)\x7d").toList =
        .ok sharedForks := by with_unfolding_all exact rfl
  have counted : sharedForks.analyze.possibleOutcomes = some 15 := by decide +kernel
  exact ⟨read, counted, (Document.one_le_counts read counted).2⟩

end BranchText
