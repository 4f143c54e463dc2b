import BranchText.Document.Reader
import BranchText.Proofs.Outcomes.Depth
import BranchText.Proofs.Outcomes.Moments
import Mathlib.Computability.StateTransition

/-!
# Counting step by step

A fork may be counted for several others, and which counts are in the cache when it is met depends
on all that was counted before. Here the count that runs is taken apart into steps. A snapshot of it
shows the task at hand, the loops that wait for its count, the innermost first, and the cache at
that moment; `Graph.next?` is the step to the next snapshot, and no bound on the nesting stops it.

The steps are those of the count that runs: they end where it has an answer, with the same count and
the same cache. Whatever has been done so far, every count in the cache is the one that the plain
recursion has for its fork, and so the document has the same count with a cache and without.
-/

namespace BranchText

namespace Outcomes

open Graph
open List (Forall₂)
open StateTransition (Reaches eval mem_eval)

/-- A loop of the count: what it has still to go through, and what it has so far. -/
inductive Loop where
  /-- Goes through the forks of a sequence. -/
  | forks (rest : Sequence) (product : Nat)
  /-- Goes through the branches of a fork; what its readers map them to is left for later. -/
  | branches (fork : Nat) (rest mapped : List Sequence) (sum : Nat)
  /-- Goes through what the readers of a fork map its branches to. -/
  | readers (fork : Nat) (rest : List Sequence) (sum : Nat)
  deriving DecidableEq

/-- What there is to do next. -/
inductive Task where
  | fork (fork : Nat)
  | loop (loop : Loop)
  /-- Hands a count back to the loop that waits for it. -/
  | answer (count : Nat)
  deriving DecidableEq

/-- The count at one moment. -/
structure Snapshot where
  task : Task
  /-- The loops that wait for a count, the innermost first. -/
  waiting : List Loop
  cache : Cache
  deriving DecidableEq

namespace Loop

/-- Takes the count that the loop has waited for. -/
def resume (count : Nat) : Loop → Loop
  | .forks rest product => .forks rest (product * count)
  | .branches fork rest mapped sum => .branches fork rest mapped (sum + count)
  | .readers fork rest sum => .readers fork rest (sum + (count - 1))

/-- Goes on with what is next, or ends. A fork is put in the cache when its last loop ends. -/
def advance (waiting : List Loop) (cache : Cache) : Loop → Snapshot
  | .forks [] product => ⟨.answer product, waiting, cache⟩
  | .forks (fork :: rest) product => ⟨.fork fork, .forks rest product :: waiting, cache⟩
  | .branches fork [] mapped sum => ⟨.loop (.readers fork mapped sum), waiting, cache⟩
  | .branches fork (sequence :: rest) mapped sum =>
    ⟨.loop (.forks sequence 1), .branches fork rest mapped sum :: waiting, cache⟩
  | .readers fork [] sum => ⟨.answer sum, waiting, cache.setIfInBounds fork (some sum)⟩
  | .readers fork (sequence :: rest) sum =>
    ⟨.loop (.forks sequence 1), .readers fork rest sum :: waiting, cache⟩

end Loop

namespace Graph

variable (graph : Graph)

/-- The next snapshot. There is none when a count is handed back that nothing waits for. -/
def next? : Snapshot → Option Snapshot
  | ⟨.fork fork, waiting, cache⟩ =>
    match cache[fork]? with
    | some (some count) => some ⟨.answer count, waiting, cache⟩
    | _ =>
      match graph.forks[fork]? with
      | none => some ⟨.answer 0, waiting, cache⟩
      | some entry =>
        some ⟨.loop (.branches fork entry.branches entry.readers.flatten 0), waiting, cache⟩
  | ⟨.loop loop, waiting, cache⟩ => some (loop.advance waiting cache)
  | ⟨.answer count, loop :: waiting, cache⟩ => some ⟨.loop (loop.resume count), waiting, cache⟩
  | ⟨.answer _, [], _⟩ => none

/-- The first snapshot when a sequence is counted. -/
def start (sequence : Sequence) : Snapshot := ⟨.loop (.forks sequence 1), [], graph.emptyCache⟩

/-- The snapshot that some number of steps leads to. -/
def after : Nat → Snapshot → Option Snapshot
  | 0, snapshot => some snapshot
  | steps + 1, snapshot => (graph.next? snapshot).bind (after steps)

/-- The steps lead from a task to its count, with the cache that the count leaves, whatever waits
for it. -/
def Performs (plain : StateT Cache Option Nat) (task : Task) : Prop :=
  ∀ cache count later, plain cache = some (count, later) → ∀ waiting,
    Reaches graph.next? ⟨task, waiting, cache⟩ ⟨.answer count, waiting, later⟩

/-- The plain recursion has the count for a part of the graph. -/
def HasCount : Part → Nat → Prop
  | .fork fork => graph.Counts fork
  | .sequence sequence => graph.CountsAll sequence

variable {graph}

theorem reaches_of_after {steps : Nat} {snapshot later : Snapshot}
    (run : graph.after steps snapshot = some later) : Reaches graph.next? snapshot later := by
  induction steps generalizing snapshot with
  | zero =>
    cases run
    exact .refl
  | succ steps ih =>
    obtain ⟨next, step, run⟩ := Option.bind_eq_some_iff.1 run
    exact .head step (ih run)

/-! ## The steps do what the count does -/

/-- A loop that does a task for every item takes up their counts one by one. -/
theorem reaches_of_mapM {α : Type} {part : α → StateT Cache Option Nat} {task : α → Task}
    (loop : List α → Nat → Loop) (take : Nat → Nat → Nat)
    (enter : ∀ item rest total waiting cache, (loop (item :: rest) total).advance waiting cache =
      ⟨task item, loop rest total :: waiting, cache⟩)
    (resume : ∀ rest total count, (loop rest total).resume count = loop rest (take total count))
    {items : List α} (each : ∀ item ∈ items, graph.Performs (part item) (task item))
    {counts : List Nat} {cache later : Cache} (run : items.mapM part cache = some (counts, later))
    (total : Nat) (waiting : List Loop) :
    Reaches graph.next? ⟨.loop (loop items total), waiting, cache⟩
      ⟨.loop (loop [] (counts.foldl take total)), waiting, later⟩ := by
  induction items generalizing counts cache total with
  | nil =>
    cases run
    exact .refl
  | cons item rest ih =>
    rw [List.mapM_cons] at run
    obtain ⟨⟨count, between⟩, here, run⟩ := Option.bind_eq_some_iff.1 run
    obtain ⟨⟨others, last⟩, there, same⟩ := Option.bind_eq_some_iff.1 run
    cases same
    obtain ⟨first, behind⟩ := List.forall_mem_cons.1 each
    have entered : graph.next? ⟨.loop (loop (item :: rest) total), waiting, cache⟩ =
        some ⟨task item, loop rest total :: waiting, cache⟩ := congrArg some (enter ..)
    have resumed : graph.next? ⟨.answer count, loop rest total :: waiting, between⟩ =
        some ⟨.loop (loop rest (take total count)), waiting, between⟩ := by
      rw [← resume]
      rfl
    -- While the item is counted the loop waits, so the total is untouched until the count is there.
    exact .head entered ((first _ _ _ here _).trans (.head resumed (ih behind there _)))

theorem foldl_mul (counts : List Nat) (product : Nat) :
    counts.foldl (· * ·) product = product * multiply counts := by
  induction counts generalizing product with
  | nil => exact (Nat.mul_one _).symm
  | cons count rest ih => rw [List.foldl_cons, ih, multiply, Nat.mul_assoc]

theorem foldl_add (counts : List Nat) (sum : Nat) :
    counts.foldl (· + ·) sum = sum + addUp counts := by
  induction counts generalizing sum with
  | nil => rfl
  | cons count rest ih => rw [List.foldl_cons, ih, addUp, Nat.add_assoc]

theorem foldl_add_pred (counts : List Nat) (sum : Nat) :
    counts.foldl (fun sum count => sum + (count - 1)) sum =
      sum + addUp (counts.map (· - 1)) := by
  rw [← foldl_add, List.foldl_map]

/-- The steps lead to the count of a sequence if they lead to those of its forks. -/
theorem performs_sequence {bound : Nat} {sequence : Sequence}
    (each : ∀ fork ∈ sequence, graph.Performs (graph.countForkCached bound fork) (.fork fork)) :
    graph.Performs (graph.countSequenceWith bound sequence) (.loop (.forks sequence 1)) := by
  intro cache count later run waiting
  obtain ⟨counts, forks, rfl⟩ := countSequenceWith_eq_some_iff.1 run
  have around := reaches_of_mapM Loop.forks (· * ·) (fun _ _ _ _ _ => rfl) (fun _ _ _ => rfl) each
    forks 1 waiting
  rw [foldl_mul, Nat.one_mul] at around
  exact around.tail rfl

/-- The steps lead to the count of a fork, whichever forks are in the cache before. -/
theorem performs_fork (bound fork : Nat) :
    graph.Performs (graph.countForkCached bound fork) (.fork fork) := by
  induction bound generalizing fork with
  | zero => intro _ _ _ run; cases run
  | succ bound ih =>
    intro cache count later run waiting
    simp only [countForkCached] at run
    split at run
    · rename_i found present
      cases run
      exact .single (by simp only [next?, present, Option.mem_def])
    · split at run
      · rename_i absent
        cases run
        exact .single (by simp only [next?, absent, Option.mem_def])
      · rename_i entry found
        have sequences : ∀ sequence : Sequence, graph.Performs
            (graph.countSequenceWith bound sequence) (.loop (.forks sequence 1)) :=
          fun sequence => performs_sequence fun fork _ => ih fork
        obtain ⟨⟨branches, between⟩, ofBranches, run⟩ := Option.bind_eq_some_iff.1 run
        obtain ⟨⟨mapped, last⟩, ofMapped, run⟩ := Option.bind_eq_some_iff.1 run
        cases run
        have entered : graph.next? ⟨.fork fork, waiting, cache⟩ = some
            ⟨.loop (.branches fork entry.branches entry.readers.flatten 0), waiting, cache⟩ := by
          simp only [next?, found]
        -- The readers go on with the sum that the branches came to.
        have first := reaches_of_mapM (fun rest => Loop.branches fork rest entry.readers.flatten)
          (· + ·) (fun _ _ _ _ _ => rfl) (fun _ _ _ => rfl) (fun sequence _ => sequences sequence)
          ofBranches 0 waiting
        have second := reaches_of_mapM (Loop.readers fork) (fun sum count => sum + (count - 1))
          (fun _ _ _ _ _ => rfl) (fun _ _ _ => rfl) (fun sequence _ => sequences sequence) ofMapped
          (addUp branches) waiting
        rw [foldl_add, Nat.zero_add] at first
        rw [foldl_add_pred] at second
        exact .head entered (first.trans (.head rfl (second.tail rfl)))

end Graph

/-! ## What a snapshot has is what the plain recursion counts -/

/-- What the loop has so far is what it comes to for what it has gone through of the part. -/
inductive Loop.Counting (graph : Graph) : Loop → Part → Prop
  | forks {before rest : Sequence} {product : Nat} (counted : graph.CountsAll before product) :
    Counting graph (.forks rest product) (.sequence (before ++ rest))
  | branches {fork sum : Nat} {entry : ForkEntry} {before rest : List Sequence} {counts : List Nat}
    (found : graph.forks[fork]? = some entry) (whole : entry.branches = before ++ rest)
    (counted : Forall₂ graph.CountsAll before counts) (same : sum = addUp counts) :
    Counting graph (.branches fork rest entry.readers.flatten sum) (.fork fork)
  | readers {fork sum : Nat} {entry : ForkEntry} {before rest : List Sequence}
    {branches mapped : List Nat} (found : graph.forks[fork]? = some entry)
    (ofBranches : Forall₂ graph.CountsAll entry.branches branches)
    (whole : entry.readers.flatten = before ++ rest)
    (counted : Forall₂ graph.CountsAll before mapped) (same : sum = combine branches mapped) :
    Counting graph (.readers fork rest sum) (.fork fork)

/-- The task comes to a count of the part. -/
inductive Task.Counting (graph : Graph) : Task → Part → Prop
  | fork {fork : Nat} : Counting graph (.fork fork) (.fork fork)
  | loop {loop : Loop} {part : Part} (counting : loop.Counting graph part) :
    Counting graph (.loop loop) part
  | answer {count : Nat} {part : Part} (counted : graph.HasCount part count) :
    Counting graph (.answer count) part

/-- The loops wait for a count of the inner part, and come to one of the outer part with it. -/
inductive Waits (graph : Graph) : List Loop → Part → Part → Prop
  | done {part : Part} : Waits graph [] part part
  | loop {loop : Loop} {waiting : List Loop} {inner between outer : Part}
    (resumes : ∀ count, graph.HasCount inner count → (loop.resume count).Counting graph between)
    (waits : Waits graph waiting between outer) : Waits graph (loop :: waiting) inner outer

/-- Every count in the cache is the one of its fork, and the task and the loops come to a count of
the whole. -/
structure Snapshot.Sound (graph : Graph) (whole : Part) (snapshot : Snapshot) : Prop where
  kept : graph.Kept snapshot.cache
  counting : ∃ part, snapshot.task.Counting graph part ∧ Waits graph snapshot.waiting part whole

section Sound

variable {graph : Graph}

theorem multiply_snoc (counts : List Nat) (count : Nat) :
    multiply (counts ++ [count]) = multiply counts * count := by
  induction counts with
  | nil => exact Nat.mul_comm ..
  | cons first rest ih => rw [List.cons_append, multiply, ih, multiply, Nat.mul_assoc]

theorem countsAll_snoc {before : Sequence} {product fork count : Nat}
    (counted : graph.CountsAll before product) (last : graph.Counts fork count) :
    graph.CountsAll (before ++ [fork]) (product * count) := by
  obtain ⟨counts, each, rfl⟩ := countsAll_iff.1 counted
  exact countsAll_iff.2 ⟨counts ++ [count], List.rel_append each (.cons last .nil),
    multiply_snoc counts count⟩

/-- A loop that begins with a sequence comes to the count of the sequence. -/
theorem counting_sequence (sequence : Sequence) :
    Task.Counting graph (.loop (.forks sequence 1)) (.sequence sequence) :=
  have nothing : graph.CountsAll [] 1 := countsAll_iff.2 ⟨[], .nil, rfl⟩
  .loop (.forks nothing)

/-- A loop goes on soundly: what it starts comes to the count that it waits for, and what it ends
with is the count of the part. -/
theorem Loop.Counting.advance {loop : Loop} {part whole : Part} {waiting : List Loop}
    {cache : Cache} (counting : loop.Counting graph part) (kept : graph.Kept cache)
    (waits : Waits graph waiting part whole) : (loop.advance waiting cache).Sound graph whole := by
  -- What is next moves from the rest to what the loop has gone through, but only once its count is
  -- taken: the loop is pushed as one that waits for any right count.
  cases counting with
  | @forks before rest product counted =>
    cases rest with
    | nil =>
      rw [List.append_nil] at waits
      exact ⟨kept, .sequence before, .answer counted, waits⟩
    | cons fork rest =>
      refine ⟨kept, .fork fork, .fork, .loop (fun count last => ?_) waits⟩
      rw [List.append_cons]
      exact .forks (countsAll_snoc counted last)
  | @branches fork sum entry before rest counts found split counted same =>
    cases rest with
    | nil =>
      rw [List.append_nil] at split
      rw [← split] at counted
      exact ⟨kept, .fork fork, .loop (.readers found counted (List.nil_append _).symm .nil same),
        waits⟩
    | cons sequence rest =>
      refine ⟨kept, .sequence sequence, counting_sequence _, .loop (fun count last => ?_) waits⟩
      rw [List.append_cons] at split
      refine .branches found split (List.rel_append counted (.cons last .nil)) ?_
      rw [addUp_append, same]
      rfl
  | @readers fork sum entry before rest branches mapped found ofBranches split counted same =>
    cases rest with
    | nil =>
      rw [List.append_nil] at split
      rw [← split] at counted
      have counts : graph.Counts fork sum :=
        counts_iff.2 (.inr ⟨entry, found, branches, mapped, ofBranches, counted, same⟩)
      exact ⟨kept.set counts, .fork fork, .answer counts, waits⟩
    | cons sequence rest =>
      refine ⟨kept, .sequence sequence, counting_sequence _, .loop (fun count last => ?_) waits⟩
      rw [List.append_cons] at split
      refine .readers found ofBranches split (List.rel_append counted (.cons last .nil)) ?_
      rw [combine, List.map_append, addUp_append, ← Nat.add_assoc, same]
      rfl

/-- A step keeps a snapshot sound. -/
theorem Snapshot.Sound.next {whole : Part} {snapshot later : Snapshot}
    (sound : snapshot.Sound graph whole) (step : graph.next? snapshot = some later) :
    later.Sound graph whole := by
  obtain ⟨task, waiting, cache⟩ := snapshot
  obtain ⟨kept, part, counting, waits⟩ := sound
  cases counting with
  | @fork fork =>
    simp only [next?] at step
    split at step
    · rename_i count present
      cases step
      exact ⟨kept, .fork fork, .answer (kept _ _ present), waits⟩
    · split at step
      · rename_i absent
        cases step
        exact ⟨kept, .fork fork, .answer (counts_iff.2 (.inl ⟨absent, rfl⟩)), waits⟩
      · rename_i entry found
        cases step
        exact ⟨kept, .fork fork, .loop (.branches found (List.nil_append _).symm .nil rfl), waits⟩
  | loop counting =>
    cases step
    exact counting.advance kept waits
  | answer counted =>
    cases waits with
    | done => cases step
    | loop resumes waits =>
      cases step
      exact ⟨kept, _, .loop (resumes _ counted), waits⟩

/-- Whatever has been done so far, the snapshot is sound. -/
theorem sound_of_reaches {sequence : Sequence} {snapshot : Snapshot}
    (reached : Reaches graph.next? (graph.start sequence) snapshot) :
    snapshot.Sound graph (.sequence sequence) := by
  induction reached with
  | refl => exact ⟨kept_empty _, .sequence sequence, counting_sequence _, .done⟩
  | tail _ step ih => exact ih.next step

/-- The steps end where the count that runs has an answer, with the same count and the same
cache. -/
theorem mem_eval_iff {sequence : Sequence} {count : Nat} {cache : Cache} :
    ⟨.answer count, [], cache⟩ ∈ eval graph.next? (graph.start sequence) ↔
      graph.countSequenceWith graph.nestingBound sequence graph.emptyCache =
        some (count, cache) := by
  have ends : ∀ {count cache}, graph.countSequenceWith graph.nestingBound sequence
      graph.emptyCache = some (count, cache) →
        ⟨.answer count, [], cache⟩ ∈ eval graph.next? (graph.start sequence) := fun run =>
    mem_eval.2 ⟨performs_sequence (fun fork _ => performs_fork _ fork) _ _ _ run [], rfl⟩
  refine ⟨fun ended => ?_, ends⟩
  obtain ⟨-, part, counting, waits⟩ := sound_of_reaches (mem_eval.1 ended).1
  obtain _ | _ := waits
  obtain _ | _ | counted := counting
  -- The count is that of the plain recursion, so the count that runs has an answer, and the steps
  -- have one end only.
  have cached := countSequenceCached_eq_some_iff.2 counted
  rw [countSequenceCached_eq_map, Option.map_eq_some_iff] at cached
  obtain ⟨⟨_, other⟩, run, rfl⟩ := cached
  cases Part.mem_unique ended (ends run)
  exact run

end Sound

end Outcomes

open Outcomes Graph StateTransition in
/-- The count of a document is the one without a cache, and there is one for the same documents.
The steps of the count that runs end where it has an answer; and at every snapshot on the way, also
where they do not end, each count in the cache is the one that its fork has without a cache. -/
theorem Document.possibleOutcomes_without_cache (document : Document) :
    let root := (ofNodes document.nodes .empty).1
    let graph := (ofNodes document.nodes .empty).2
    let cached := graph.countSequenceWith graph.nestingBound root graph.emptyCache
    document.analyze.possibleOutcomes = cached.map (·.1) ∧
      cached.map (·.1) = graph.countSequence graph.nestingBound root ∧
      (∀ total cache, cached = some (total, cache) ↔
        ⟨.answer total, [], cache⟩ ∈ eval graph.next? (graph.start root)) ∧
      ∀ snapshot, Reaches graph.next? (graph.start root) snapshot →
        ∀ fork count, snapshot.cache[fork]? = some (some count) →
          graph.countFork graph.nestingBound fork = some count := by
  intro root graph cached
  refine ⟨countSequenceCached_eq_map .., ?_, fun _ _ => mem_eval_iff.symm, ?_⟩
  · rw [← countSequenceCached_eq_map, countSequenceCached_eq_countSequence]
  · intro snapshot reached fork count present
    exact ((sound_of_reaches reached).kept fork count present).within

/-- A fork with another one in a branch, and a reference that maps the other branch to executing the
fork again. -/
def innerAgain : Document :=
  ⟨[.fork ⟨some "N", false, false,
      [⟨.nodes [.fork ⟨none, false, false,
        [⟨.nodes [.text "a"], none⟩, ⟨.nodes [.text "b"], none⟩], ⟨5, 15⟩⟩], none⟩,
      ⟨.nodes [.text "c"], none⟩], ⟨0, 22⟩⟩,
    .reference ⟨"N", none, false, [⟨1, .nodes [.reference ⟨"N", none, false, [], none, true,
      ⟨33, 42⟩⟩]⟩], none, false, ⟨22, 44⟩⟩], [], []⟩

set_option maxRecDepth 100000 in
open Outcomes Graph StateTransition in
/-- The inner fork is met again in the mapping, while the outer fork is not finished. -/
theorem Document.possibleOutcomes_without_cache_again :
    let root := (ofNodes innerAgain.nodes .empty).1
    let graph := (ofNodes innerAgain.nodes .empty).2
    Document.read "\x7bN: (\x7b(a), (b)\x7d), (c)\x7d\x7b@N: 1 -> (\x7beval @N\x7d)\x7d".toList =
        .ok innerAgain ∧
      innerAgain.analyze.possibleOutcomes = some 5 ∧
      graph.countSequence graph.nestingBound root = some 5 ∧
      Reaches graph.next? (graph.start root) ⟨.fork 0, [.forks [] 1, .branches 2 [[]] [] 0,
        .forks [] 1, .readers 1 [] 3, .forks [] 1], #[some 2, none, none]⟩ ∧
      graph.countFork graph.nestingBound 0 = some 2 := by
  intro root graph
  have counted : innerAgain.analyze.possibleOutcomes = some 5 := by decide +kernel
  have run : graph.after 25 (graph.start root) = some ⟨.fork 0, [.forks [] 1, .branches 2 [[]] [] 0,
      .forks [] 1, .readers 1 [] 3, .forks [] 1], #[some 2, none, none]⟩ := by decide +kernel
  obtain ⟨cached, same, -, kept⟩ := Document.possibleOutcomes_without_cache innerAgain
  exact ⟨by with_unfolding_all exact rfl, counted, same.symm.trans (cached.symm.trans counted),
    reaches_of_after run, kept _ (reaches_of_after run) 0 2 rfl⟩

end BranchText
