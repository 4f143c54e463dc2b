import BranchText.Proofs.Document.Choices
import BranchText.Proofs.Outcomes.Covering
import BranchText.Proofs.Outcomes.Depth

/-!
# What counting sees of a graph

A mapping in which there is no fork has one outcome, and adds nothing to the fork that is read. The
outline of a fork leaves such mappings out. Graphs whose forks have the same outlines have the same
counts, and building goes on with such graphs as with the same one: it looks up the same names, and
adds forks with the same numbers and the same branches.
-/

namespace BranchText

namespace Outcomes

open Graph
open List (Forall₂)

/-- What is counted for a fork: its branches, and the mappings of its readers that hold forks. -/
def ForkEntry.outline (entry : ForkEntry) : List Sequence × List Sequence :=
  (entry.branches, entry.readers.flatten.filter (· ≠ []))

/-- The graphs differ at most in mappings that hold no forks, and in what they have noted of
references. -/
structure Alike (graph other : Graph) : Prop where
  forks : graph.forks.map ForkEntry.outline = other.forks.map ForkEntry.outline
  names : graph.names = other.names
  forkNodes : graph.forkNodes = other.forkNodes

namespace Alike

variable {graph other another : Graph}

theorem refl (graph : Graph) : Alike graph graph := ⟨rfl, rfl, rfl⟩

theorem symm (alike : Alike graph other) : Alike other graph :=
  ⟨alike.forks.symm, alike.names.symm, alike.forkNodes.symm⟩

theorem trans (first : Alike graph other) (second : Alike other another) : Alike graph another :=
  ⟨first.forks.trans second.forks, first.names.trans second.names,
    first.forkNodes.trans second.forkNodes⟩

theorem size (alike : Alike graph other) : graph.forks.size = other.forks.size := by
  have same := congrArg Array.size alike.forks
  rwa [Array.size_map, Array.size_map] at same

theorem outline (alike : Alike graph other) (id : Nat) :
    graph.forks[id]?.map ForkEntry.outline = other.forks[id]?.map ForkEntry.outline := by
  rw [← Array.getElem?_map, ← Array.getElem?_map, alike.forks]

theorem named? (alike : Alike graph other) (name : String) :
    graph.named? name = other.named? name := by
  rw [Graph.named?, Graph.named?, alike.names]

theorem branchesOf (alike : Alike graph other) (id : Nat) :
    graph.branchesOf id = other.branchesOf id := by
  have byOutline : ∀ graph : Graph, graph.branchesOf id =
      ((graph.forks[id]?.map ForkEntry.outline).map Prod.fst).getD [] := by
    intro graph
    unfold Graph.branchesOf
    cases graph.forks[id]? <;> rfl
  rw [byOutline, byOutline, alike.outline]

theorem addFork (alike : Alike graph other) (branches : List Sequence) :
    Alike (graph.addFork branches).2 (other.addFork branches).2 := by
  refine ⟨?_, alike.names, alike.forkNodes⟩
  change (graph.forks.push _).map _ = (other.forks.push _).map _
  rw [Array.map_push, Array.map_push, alike.forks]

theorem declare (alike : Alike graph other) (name : Option String) (fork : Nat) :
    Alike (graph.declare name fork) (other.declare name fork) := by
  cases name with
  | none => exact alike
  | some name => exact ⟨alike.forks, congrArg (declareIn name fork) alike.names, alike.forkNodes⟩

/-- A reader adds those of its mappings that hold forks. -/
theorem outlines_addReader (graph : Graph) (fork : Nat) (mapped : List Sequence) :
    (graph.addReader fork mapped).forks.map ForkEntry.outline =
      (graph.forks.map ForkEntry.outline).modify fork fun outline =>
        (outline.1, outline.2 ++ mapped.filter (· ≠ [])) := by
  refine Array.ext_getElem? fun id => ?_
  rw [Array.getElem?_map, getElem?_addReader, Array.getElem?_modify, Array.getElem?_map,
    Option.map_map]
  split
  · rw [Option.map_map]
    refine congrArg (Option.map · _) (funext fun entry => ?_)
    simp only [Function.comp_apply, ForkEntry.outline, List.flatten_append, List.flatten_singleton,
      List.filter_append]
  · rfl

theorem addReader (alike : Alike graph other) (fork : Nat) (mapped : List Sequence) :
    Alike (graph.addReader fork mapped) (other.addReader fork mapped) := by
  refine ⟨?_, alike.names, alike.forkNodes⟩
  rw [outlines_addReader, outlines_addReader, alike.forks]

/-- A reader whose mappings hold no forks is not noticed. -/
theorem addReader_empty (graph : Graph) (fork : Nat) {mapped : List Sequence}
    (empty : ∀ sequence ∈ mapped, sequence = []) : Alike graph (graph.addReader fork mapped) := by
  refine ⟨?_, rfl, rfl⟩
  have nothing : mapped.filter (· ≠ []) = [] :=
    List.filter_eq_nil_iff.2 fun sequence member => by simp [empty sequence member]
  rw [outlines_addReader, nothing]
  refine Array.ext_getElem? fun id => ?_
  rw [Array.getElem?_modify]
  split
  · simp only [List.append_nil, Prod.mk.eta, Option.map_id_fun', id_eq]
  · rfl

/-- Only the number of references differs. -/
theorem of_references (graph : Graph) (count : Nat) :
    Alike graph { graph with referenceNodes := count } := ⟨rfl, rfl, rfl⟩

theorem noteUnresolved (graph : Graph) (name : String) :
    Alike graph (graph.noteUnresolved name) := by
  unfold Graph.noteUnresolved
  split <;> exact ⟨rfl, rfl, rfl⟩

end Alike

/-! ## Counts -/

section Counts

variable {graph other : Graph}

/-- What sequences count together beyond one each. -/
def extra (count? : Sequence → Option Nat) (sequences : List Sequence) : Option Nat :=
  (sequences.mapM count?).map fun counts => addUp (counts.map (· - 1))

theorem extra_cons (count? : Sequence → Option Nat) (sequence : Sequence) (rest : List Sequence) :
    extra count? (sequence :: rest) =
      (count? sequence).bind fun count => (extra count? rest).map (count - 1 + ·) := by
  rw [extra, List.mapM_cons]
  cases count? sequence with
  | none => rfl
  | some count =>
    rw [extra]
    cases rest.mapM count? <;> rfl

/-- Sequences without forks add nothing. -/
theorem extra_filter {count? : Sequence → Option Nat} (one : count? [] = some 1)
    (sequences : List Sequence) :
    extra count? (sequences.filter (· ≠ [])) = extra count? sequences := by
  induction sequences with
  | nil => rfl
  | cons sequence rest ih =>
    rw [List.filter_cons, extra_cons count? sequence]
    split
    · rw [extra_cons, ih]
    · rename_i absent
      obtain rfl : sequence = [] := by simpa using absent
      rw [ih, one]
      cases extra count? rest with
      | none => rfl
      | some count => exact congrArg some (Nat.zero_add count).symm

theorem countSequence_nil (bound : Nat) : graph.countSequence bound [] = some 1 := rfl

/-- A fork is counted by its outline. -/
theorem countFork_succ_eq (bound fork : Nat) :
    graph.countFork (bound + 1) fork =
      (graph.forks[fork]?.map ForkEntry.outline).elim (some 0) fun outline =>
        (outline.1.mapM (graph.countSequence bound)).bind fun branches =>
          (extra (graph.countSequence bound) outline.2).map (addUp branches + ·) := by
  rw [countFork]
  cases graph.forks[fork]? with
  | none => rfl
  | some entry =>
    simp only [Option.map_some, Option.elim_some, ForkEntry.outline]
    rw [extra_filter (countSequence_nil bound), extra]
    unfold countSequence
    split
    · rename_i branches mapped ofBranches ofMapped
      rw [ofBranches, ofMapped]
      rfl
    · rename_i uncounted
      cases ofBranches : entry.branches.mapM fun sequence =>
        Option.map multiply (sequence.mapM (graph.countFork bound)) with
      | none => rfl
      | some branches =>
        cases ofMapped : entry.readers.flatten.mapM fun sequence =>
          Option.map multiply (sequence.mapM (graph.countFork bound)) with
        | none => rfl
        | some mapped => exact absurd ofMapped (uncounted _ _ ofBranches)

theorem Alike.countFork (alike : Alike graph other) (bound : Nat) :
    graph.countFork bound = other.countFork bound := by
  induction bound with
  | zero => rfl
  | succ bound ih =>
    funext fork
    have sequences : graph.countSequence bound = other.countSequence bound := by
      funext sequence
      rw [countSequence, countSequence, ih]
    rw [countFork_succ_eq, countFork_succ_eq, alike.outline, sequences]

/-- The same is counted in both graphs, if counting ends. -/
theorem Alike.countSequenceCached (alike : Alike graph other) (sequence : Sequence) :
    graph.countSequenceCached graph.nestingBound sequence =
      other.countSequenceCached other.nestingBound sequence := by
  refine Option.ext fun count => ?_
  rw [countSequenceCached_eq_some_iff, countSequenceCached_eq_some_iff]
  refine exists_congr fun bound => ?_
  rw [countSequence, countSequence, alike.countFork]

end Counts

/-! ## Building -/

/-- Built on graphs that are alike, both add the same forks and leave graphs that are alike. -/
def Congruent {α : Type} (build twin : Graph → α × Graph) : Prop :=
  ∀ graph other : Graph, Alike graph other →
    (build graph).1 = (twin other).1 ∧ Alike (build graph).2 (twin other).2

section Congruent

theorem ofNodes_append (front back : List Node) (graph : Graph) :
    ofNodes (front ++ back) graph =
      ((ofNodes front graph).1 ++ (ofNodes back (ofNodes front graph).2).1,
        (ofNodes back (ofNodes front graph).2).2) := by
  induction front generalizing graph with
  | nil => rfl
  | cons node rest ih =>
    rw [List.cons_append, ofNodes_cons, ih, ofNodes_cons, List.append_assoc]

theorem Congruent.append {front back frontTwin backTwin : List Node}
    (first : Congruent (ofNodes front) (ofNodes frontTwin))
    (second : Congruent (ofNodes back) (ofNodes backTwin)) :
    Congruent (ofNodes (front ++ back)) (ofNodes (frontTwin ++ backTwin)) := by
  intro graph other alike
  obtain ⟨same, between⟩ := first _ _ alike
  obtain ⟨same', after⟩ := second _ _ between
  rw [ofNodes_append, ofNodes_append, same, same']
  exact ⟨rfl, after⟩

theorem Congruent.cons {node twin : Node} {rest restTwin : List Node}
    (first : Congruent (ofNode node) (ofNode twin))
    (second : Congruent (ofNodes rest) (ofNodes restTwin)) :
    Congruent (ofNodes (node :: rest)) (ofNodes (twin :: restTwin)) := by
  intro graph other alike
  obtain ⟨same, between⟩ := first _ _ alike
  obtain ⟨same', after⟩ := second _ _ between
  rw [ofNodes_cons, ofNodes_cons, same, same']
  exact ⟨rfl, after⟩

/-- What is built for two choices is alike. -/
def Interchangeable (choice twin : Choice) : Prop := Congruent (ofChoice choice) (ofChoice twin)

theorem Congruent.branches {branches twins : List Branch}
    (each : Forall₂ (fun branch twin => Interchangeable branch.choice twin.choice) branches twins) :
    Congruent (ofBranches branches) (ofBranches twins) := by
  induction each with
  | nil => exact fun _ _ alike => ⟨rfl, alike⟩
  | cons here _ ih =>
    intro graph other alike
    obtain ⟨same, between⟩ := here _ _ alike
    obtain ⟨same', after⟩ := ih _ _ between
    rw [ofBranches_cons, ofBranches_cons, same, same']
    exact ⟨rfl, after⟩

theorem Congruent.fork {fork twin : Fork} (named : fork.identifier = twin.identifier)
    (each : Forall₂ (fun branch twin => Interchangeable branch.choice twin.choice) fork.branches
      twin.branches) : Congruent (ofNode (.fork fork)) (ofNode (.fork twin)) := by
  intro graph other alike
  have more : Alike { graph with forkNodes := graph.forkNodes + 1 }
      { other with forkNodes := other.forkNodes + 1 } :=
    ⟨alike.forks, alike.names, congrArg (· + 1) alike.forkNodes⟩
  obtain ⟨same, inside⟩ := Congruent.branches each _ _ more
  rw [ofNode_fork, ofNode_fork, named, withBranches, withBranches, same, inside.size]
  exact ⟨rfl, (inside.addFork _).declare ..⟩

end Congruent

section References

/-- The references stand for the same, and what they may render is interchangeable. -/
structure Resembles (reference twin : Reference) : Prop where
  target : reference.target = twin.target
  identifier : reference.identifier = twin.identifier
  reruns : reference.reruns = twin.reruns
  mappings : Forall₂ (fun mapping twin => mapping.branch = twin.branch ∧
    Interchangeable mapping.choice twin.choice) reference.mappings twin.mappings
  fallback : Option.Rel Interchangeable reference.fallback twin.fallback

theorem interchangeable_find? {mappings twins : List Mapping}
    (each : Forall₂ (fun mapping twin => mapping.branch = twin.branch ∧
      Interchangeable mapping.choice twin.choice) mappings twins) (index : Nat) :
    Option.Rel Interchangeable ((mappings.find? (·.branch = index)).map (·.choice))
      ((twins.find? (·.branch = index)).map (·.choice)) := by
  induction each with
  | nil => exact .none
  | cons here _ ih =>
    obtain ⟨branch, choice⟩ := here
    rw [List.find?_cons, List.find?_cons, branch]
    split
    · exact .some choice
    · exact ih

namespace Resembles

variable {reference twin : Reference} (resembles : Resembles reference twin)
include resembles

theorem isCopy : reference.isCopy = twin.isCopy := by
  have mapped : reference.mappings.isEmpty = twin.mappings.isEmpty := by
    have each := resembles.mappings
    generalize reference.mappings = mappings at each
    generalize twin.mappings = twins at each
    cases each <;> rfl
  have fallen : reference.fallback.isNone = twin.fallback.isNone := by
    have both := resembles.fallback
    generalize reference.fallback = fallback at both
    generalize twin.fallback = other at both
    cases both <;> rfl
  rw [Reference.isCopy, Reference.isCopy, mapped, fallen]

theorem answer? (index : Nat) :
    Option.Rel Interchangeable (reference.answer? index) (twin.answer? index) := by
  have mapped := interchangeable_find? resembles.mappings index
  rw [← Reference.mapping?, ← Reference.mapping?] at mapped
  rw [Reference.answer?, Reference.answer?]
  generalize reference.mapping? index = found at mapped
  generalize twin.mapping? index = other at mapped
  cases mapped with
  | none => exact resembles.fallback
  | some choice => exact .some choice

theorem build (start count : Nat) :
    Congruent ((mappedOf reference).build start count) ((mappedOf twin).build start count) := by
  induction count generalizing start with
  | zero => exact fun _ _ alike => ⟨rfl, alike⟩
  | succ count ih =>
    intro graph other alike
    have answers := resembles.answer? start
    generalize found : reference.answer? start = answer at answers
    generalize found' : twin.answer? start = twinAnswer at answers
    cases answers with
    | none =>
      rw [build_none _ found, build_none _ found']
      exact ih (start + 1) _ _ alike
    | some interchangeable =>
      obtain ⟨same, between⟩ := interchangeable _ _ alike
      obtain ⟨same', after⟩ := ih (start + 1) _ _ between
      rw [build_some _ found, build_some _ found', same, same']
      exact ⟨rfl, after⟩

theorem withReader (fork : Nat) {graph other : Graph} (alike : Alike graph other) :
    Alike (Outcomes.withReader reference fork graph) (Outcomes.withReader twin fork other) := by
  unfold Outcomes.withReader
  rw [resembles.isCopy, alike.branchesOf]
  split
  · exact alike
  · obtain ⟨same, after⟩ := resembles.build 0 (other.branchesOf fork).length _ _ alike
    dsimp only
    rw [same]
    exact after.addReader ..

theorem read (forks : List Nat) {graph other : Graph} (alike : Alike graph other) :
    Alike ((mappedOf reference).read reference.identifier forks graph)
      ((mappedOf twin).read twin.identifier forks other) := by
  induction forks generalizing graph other with
  | nil => exact alike
  | cons fork rest ih =>
    rw [read_cons, read_cons]
    refine ih ?_
    rw [reading, reading, resembles.identifier]
    exact (resembles.withReader fork alike).declare ..

theorem node : Congruent (ofNode (.reference reference)) (ofNode (.reference twin)) := by
  intro graph other alike
  have entering : Alike (entered graph) (entered other) :=
    ⟨alike.forks, alike.names, alike.forkNodes⟩
  have named := alike.named? reference.target
  rw [resembles.target] at named
  cases known : other.named? twin.target with
  | none =>
    rw [known, ← resembles.target] at named
    rw [ofNode_unknown named, ofNode_unknown known]
    exact ⟨rfl, (Alike.noteUnresolved ..).symm.trans (entering.trans (Alike.noteUnresolved ..))⟩
  | some ids =>
    rw [known, ← resembles.target] at named
    cases reruns : twin.reruns with
    | false =>
      rw [ofNode_look (resembles.reruns.trans reruns) named, ofNode_look reruns known]
      exact ⟨rfl, resembles.read ids entering⟩
    | true =>
      have branches : ids.flatMap graph.branchesOf = ids.flatMap other.branchesOf :=
        congrArg ids.flatMap (funext alike.branchesOf)
      rw [ofNode_again (resembles.reruns.trans reruns) named, ofNode_again reruns known, branches,
        alike.size]
      exact ⟨rfl, resembles.read _ (entering.addFork _)⟩

end Resembles

end References

/-! ## Building the same -/

theorem rel_same {α : Type} {related : α → α → Prop} {item : Option α}
    (same : ∀ value ∈ item, related value value) : Option.Rel related item item := by
  cases item with
  | none => exact .none
  | some value => exact .some (same value rfl)

/-- A choice can take its own place. -/
theorem Interchangeable.refl (choice : Choice) : Interchangeable choice choice := by
  induction choice using Choice.along with
  | script block => exact fun _ _ alike => ⟨rfl, alike⟩
  | call call => exact fun _ _ alike => ⟨rfl, alike⟩
  | nil => exact fun _ _ alike => ⟨rfl, alike⟩
  | text content rest ih =>
    have here : Congruent (ofNode (.text content)) (ofNode (.text content)) :=
      fun _ _ alike => ⟨rfl, alike⟩
    exact here.cons ih
  | fork fork rest inside ih =>
    exact (Congruent.fork rfl (List.forall₂_same.2 inside)).cons ih
  | reference reference rest inside ih =>
    exact (Resembles.node ⟨rfl, rfl, rfl, List.forall₂_same.2 fun mapping member =>
      ⟨rfl, inside _ (List.mem_append_left _ (List.mem_map_of_mem member))⟩,
      rel_same fun choice found => inside choice (Reference.mem_choices_of_fallback found)⟩).cons ih

end Outcomes

end BranchText
