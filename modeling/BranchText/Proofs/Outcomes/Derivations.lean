import BranchText.Document.Reader
import BranchText.Proofs.Document.Choices
import BranchText.Proofs.Outcomes.Covering
import BranchText.Proofs.Outcomes.Depth
import Mathlib.Data.Set.Card

/-!
# Derivations

Without references a document is a grammar without recursion: a sequence derives one derivation for
each of its forks, and a fork takes a branch and derives what is in it. The graph of such a document
has no readers, and what is counted for it are its derivations: products for sequences, sums for
forks.
-/

namespace BranchText

namespace Outcomes

open Graph
open List (Forall₂)

/-- What is derived for a fork: one of its branches, with what is derived for the forks in it. -/
inductive Derivation where
  | takes (branch : Nat) (inside : List Derivation)

/-- A choice derives a list of derivations, one for each of its forks. Scripts and calls have no
forks, and references derive nothing. -/
inductive Derives : Choice → List Derivation → Prop
  | script (block : ScriptBlock) : Derives (.script block) []
  | call (call : FunctionCall) : Derives (.call call) []
  | done : Derives (.nodes []) []
  | text {content : String} {rest : List Node} {others : List Derivation}
    (later : Derives (.nodes rest) others) : Derives (.nodes (.text content :: rest)) others
  | fork {fork : Fork} {rest : List Node} {index : Nat} {branch : Branch}
    {inside others : List Derivation} (taken : fork.branches[index]? = some branch)
    (within : Derives branch.choice inside) (later : Derives (.nodes rest) others) :
    Derives (.nodes (.fork fork :: rest)) (.takes index inside :: others)

/-- The derivations of a choice. -/
def derivationsOf (choice : Choice) : Set (List Derivation) := {list | Derives choice list}

/-- The derivations of a fork with the branches, which are numbered from one on. -/
def derivationsFrom (start : Nat) (branches : List Branch) : Set Derivation :=
  {derivation | ∃ index branch inside, branches[index]? = some branch ∧
    Derives branch.choice inside ∧ derivation = .takes (start + index) inside}

/-- No references are among the nodes. -/
def Referenceless (nodes : List Node) : Prop := ∀ reference, .reference reference ∉ nodes

theorem Referenceless.mono {nodes inner : List Node} (free : Referenceless nodes)
    (subset : inner ⊆ nodes) : Referenceless inner :=
  fun reference member => free reference (subset member)

/-! ## Sets of derivations -/

section Derivations

variable {rest : List Node}

theorem derivationsOf_script (block : ScriptBlock) : derivationsOf (.script block) = {[]} := by
  ext list
  constructor
  · rintro ⟨⟩
    rfl
  · rintro rfl
    exact .script block

theorem derivationsOf_call (call : FunctionCall) : derivationsOf (.call call) = {[]} := by
  ext list
  constructor
  · rintro ⟨⟩
    rfl
  · rintro rfl
    exact .call call

theorem derivationsOf_nil : derivationsOf (.nodes []) = {[]} := by
  ext list
  constructor
  · rintro ⟨⟩
    rfl
  · rintro rfl
    exact .done

theorem derivationsOf_text (content : String) :
    derivationsOf (.nodes (.text content :: rest)) = derivationsOf (.nodes rest) := by
  ext list
  constructor
  · rintro (_ | _ | _ | later)
    exact later
  · exact .text

theorem derivationsOf_fork (fork : Fork) :
    derivationsOf (.nodes (.fork fork :: rest)) = (fun pair => pair.1 :: pair.2) ''
      (derivationsFrom 0 fork.branches ×ˢ derivationsOf (.nodes rest)) := by
  ext list
  constructor
  · intro derives
    cases derives with
    | fork taken within later =>
      exact ⟨(_, _), ⟨⟨_, _, _, taken, within, by rw [Nat.zero_add]⟩, later⟩, rfl⟩
  · rintro ⟨⟨_, others⟩, ⟨⟨index, branch, inside, taken, within, rfl⟩, later⟩, rfl⟩
    rw [Nat.zero_add]
    exact .fork taken within later

theorem derivationsFrom_cons (start : Nat) (branch : Branch) (others : List Branch) :
    derivationsFrom start (branch :: others) =
      Derivation.takes start '' derivationsOf branch.choice ∪
        derivationsFrom (start + 1) others := by
  ext derivation
  constructor
  · rintro ⟨index, taken, inside, found, within, rfl⟩
    cases index with
    | zero =>
      cases found
      exact .inl ⟨inside, within, rfl⟩
    | succ index =>
      refine .inr ⟨index, taken, inside, found, within, ?_⟩
      rw [Nat.add_right_comm, Nat.add_assoc]
  · rintro (⟨inside, within, rfl⟩ | ⟨index, taken, inside, found, within, rfl⟩)
    · exact ⟨0, branch, inside, rfl, within, rfl⟩
    · refine ⟨index + 1, taken, inside, found, within, ?_⟩
      rw [Nat.add_right_comm, Nat.add_assoc]

/-- A fork has as many derivations as its branches have together. -/
theorem encard_derivationsFrom {branches : List Branch} {counts : List Nat} (start : Nat)
    (each : Forall₂ (fun branch count => (derivationsOf branch.choice).encard = (count : Nat))
      branches counts) : (derivationsFrom start branches).encard = (addUp counts : Nat) := by
  induction each generalizing start with
  | nil =>
    have none : derivationsFrom start [] = ∅ :=
      Set.eq_empty_of_forall_notMem fun _ ⟨_, _, _, found, _⟩ => nomatch found
    rw [none, Set.encard_empty]
    rfl
  | @cons branch count others counts here _ ih =>
    have apart : Disjoint (Derivation.takes start '' derivationsOf branch.choice)
        (derivationsFrom (start + 1) others) := by
      rw [Set.disjoint_left]
      rintro _ ⟨_, _, rfl⟩ ⟨index, _, _, _, _, same⟩
      injection same with same
      omega
    have injective : Function.Injective (Derivation.takes start) :=
      fun _ _ same => (Derivation.takes.inj same).2
    rw [derivationsFrom_cons, Set.encard_union_eq apart, injective.encard_image, here,
      ih (start + 1), addUp, Nat.cast_add]

/-- A sequence has as many derivations as its first fork, times those of the others. -/
theorem encard_derivationsOf_fork {fork : Fork} {own others : Nat}
    (first : (derivationsFrom 0 fork.branches).encard = own)
    (second : (derivationsOf (.nodes rest)).encard = others) :
    (derivationsOf (.nodes (.fork fork :: rest))).encard = (own * others : Nat) := by
  have injective : Function.Injective
      fun pair : Derivation × List Derivation => pair.1 :: pair.2 := by
    rintro ⟨_, _⟩ ⟨_, _⟩ same
    obtain ⟨rfl, rfl⟩ := List.cons.inj same
    rfl
  rw [derivationsOf_fork, injective.encard_image, Set.encard_prod, first, second, Nat.cast_mul]

end Derivations

/-! ## Graphs without readers -/

/-- No reference reads a fork of the graph. -/
def Graph.Unread (graph : Graph) : Prop :=
  ∀ (id : Nat) (entry : ForkEntry), graph.forks[id]? = some entry → entry.readers = []

theorem Graph.Unread.addFork {graph : Graph} (unread : graph.Unread) (branches : List Sequence) :
    (graph.addFork branches).2.Unread := by
  intro id entry found
  rw [getElem?_addFork] at found
  split at found
  · cases found
    rfl
  · exact unread id entry found

theorem unread_ofBranches {branches : List Branch} (each : ∀ branch ∈ branches,
    ∀ {before : Graph}, before.Unread → (ofChoice branch.choice before).2.Unread) {before : Graph}
    (unread : before.Unread) : (ofBranches branches before).2.Unread := by
  induction branches generalizing before with
  | nil => exact unread
  | cons branch rest ih =>
    obtain ⟨here, others⟩ := List.forall_mem_cons.1 each
    rw [ofBranches_cons]
    exact ih others (here unread)

/-- Building adds readers only where there are references. -/
theorem unread_ofChoice (choice : Choice) (free : Referenceless choice.within) {before : Graph}
    (unread : before.Unread) : (ofChoice choice before).2.Unread := by
  induction choice using Choice.along generalizing before with
  | script => exact unread
  | call => exact unread
  | nil => exact unread
  | text content rest ih => exact ih (free.mono (List.subset_append_right ..)) unread
  | fork fork rest inside ih =>
    have below : Referenceless (Node.fork fork).within := free.mono (List.subset_append_left ..)
    have inner : (withBranches before fork).2.Unread := unread_ofBranches
      (fun branch member _ unread =>
        inside branch member (below.mono (Fork.branch_within member)) unread) unread
    have next : (ofNode (.fork fork) before).2.Unread := by
      intro id entry found
      rw [ofNode_fork, forks_declare] at found
      exact inner.addFork _ id entry found
    change (ofNodes (.fork fork :: rest) before).2.Unread
    rw [ofNodes_cons]
    exact ih (free.mono (List.subset_append_right ..)) next
  | reference reference rest _ _ =>
    exact absurd (List.mem_append_left _ (Node.self_mem_within _)) (free reference)

mutual

/-- Where nothing refers, nothing refers to what is declared later. -/
theorem nodesPointBack_of_referenceless (nodes : List Node)
    (free : Referenceless (nodesWithin nodes)) (later : List String) :
    nodesPointBack later nodes = true := by
  match nodes with
  | [] => rfl
  | node :: rest =>
    rw [nodesWithin] at free
    rw [nodesPointBack, Bool.and_eq_true]
    exact ⟨pointsBack_of_referenceless node (free.mono (List.subset_append_left ..)) _,
      nodesPointBack_of_referenceless rest (free.mono (List.subset_append_right ..)) later⟩

theorem pointsBack_of_referenceless (node : Node) (free : Referenceless node.within)
    (later : List String) : node.pointsBack later = true := by
  match node with
  | .text content => rfl
  | .fork ⟨identifier, silent, isSet, branches, span⟩ =>
    exact branchesPointBack_of_referenceless branches (free.mono (List.subset_cons_self ..)) _
  | .reference reference => exact absurd (Node.self_mem_within _) (free reference)

theorem branchesPointBack_of_referenceless (branches : List Branch)
    (free : Referenceless (withinBranches branches)) (later : List String) :
    branchesPointBack later branches = true := by
  match branches with
  | [] => rfl
  | ⟨.nodes nodes, weight⟩ :: rest =>
    rw [withinBranches] at free
    rw [branchesPointBack, Bool.and_eq_true]
    exact ⟨nodesPointBack_of_referenceless nodes (free.mono (List.subset_append_left ..)) _,
      branchesPointBack_of_referenceless rest (free.mono (List.subset_append_right ..)) later⟩
  | ⟨.script _, weight⟩ :: rest =>
    exact branchesPointBack_of_referenceless rest free later
  | ⟨.call _, weight⟩ :: rest =>
    exact branchesPointBack_of_referenceless rest free later

end

/-! ## Counts -/

section Counts

variable {graph : Graph}

theorem countsAll_nil : graph.CountsAll [] 1 := countsAll_iff.2 ⟨[], .nil, rfl⟩

/-- A fork that nothing reads counts what its branches count together. -/
theorem counts_of_unread (unread : graph.Unread) {id : Nat} {entry : ForkEntry}
    (found : graph.forks[id]? = some entry) {counts : List Nat}
    (each : Forall₂ graph.CountsAll entry.branches counts) : graph.Counts id (addUp counts) := by
  refine counts_iff.2 (.inr ⟨entry, found, counts, [], each, ?_, rfl⟩)
  rw [unread id entry found]
  exact .nil

theorem countsAll_cons {fork own others : Nat} {rest : Sequence} (counts : graph.Counts fork own)
    (later : graph.CountsAll rest others) : graph.CountsAll (fork :: rest) (own * others) := by
  obtain ⟨each, counted, rfl⟩ := countsAll_iff.1 later
  exact countsAll_iff.2 ⟨own :: each, .cons counts counted, rfl⟩

/-- The sequence counts the derivations of the choice. -/
def CountsDerivations (graph : Graph) (choice : Choice) (sequence : Sequence) : Prop :=
  ∃ count, graph.CountsAll sequence count ∧ (derivationsOf choice).encard = (count : Nat)

theorem countsDerivations_branches {branches : List Branch} {sequences : List Sequence}
    (covers : Forall₂ (fun branch sequence => Covers graph branch.choice sequence) branches
      sequences)
    (each : ∀ branch ∈ branches, ∀ {sequence : Sequence}, Covers graph branch.choice sequence →
      CountsDerivations graph branch.choice sequence) :
    ∃ counts, Forall₂ graph.CountsAll sequences counts ∧
      Forall₂ (fun branch count => (derivationsOf branch.choice).encard = (count : Nat)) branches
        counts := by
  induction covers with
  | nil => exact ⟨[], .nil, .nil⟩
  | cons here _ ih =>
    obtain ⟨first, others⟩ := List.forall_mem_cons.1 each
    obtain ⟨count, counts, many⟩ := first here
    obtain ⟨later, countsLater, manyLater⟩ := ih others
    exact ⟨count :: later, .cons counts countsLater, .cons many manyLater⟩

/-- What covers a choice without references counts its derivations. -/
theorem countsDerivations (unread : graph.Unread) (choice : Choice)
    (free : Referenceless choice.within) {sequence : Sequence}
    (covers : Covers graph choice sequence) : CountsDerivations graph choice sequence := by
  induction choice using Choice.along generalizing sequence with
  | script block =>
    obtain ⟨_, _, _, _, _, rfl, _⟩ := covers
    exact ⟨1, countsAll_nil, by rw [derivationsOf_script, Set.encard_singleton, Nat.cast_one]⟩
  | call call =>
    obtain ⟨_, _, _, _, _, rfl, _⟩ := covers
    exact ⟨1, countsAll_nil, by rw [derivationsOf_call, Set.encard_singleton, Nat.cast_one]⟩
  | nil =>
    obtain ⟨_, _, _, rfl⟩ := covers_nodes_iff.1 covers
    exact ⟨1, countsAll_nil, by rw [derivationsOf_nil, Set.encard_singleton, Nat.cast_one]⟩
  | text content rest ih =>
    obtain ⟨_, _, started, rfl⟩ := covers_nodes_iff.1 covers
    obtain ⟨count, counts, many⟩ :=
      ih (free.mono (List.subset_append_right ..)) started.covers_rest
    exact ⟨count, counts, by rw [derivationsOf_text, many]⟩
  | fork fork rest inside ih =>
    obtain ⟨id, tail, entry, rfl, found, coverBranches, coversRest, -⟩ := covers.fork
    have below : Referenceless (Node.fork fork).within := free.mono (List.subset_append_left ..)
    obtain ⟨counts, each, many⟩ := countsDerivations_branches coverBranches
      fun branch member _ covers =>
        inside branch member (below.mono (Fork.branch_within member)) covers
    obtain ⟨others, countsRest, manyRest⟩ :=
      ih (free.mono (List.subset_append_right ..)) coversRest
    exact ⟨_, countsAll_cons (counts_of_unread unread found each) countsRest,
      encard_derivationsOf_fork (encard_derivationsFrom 0 many) manyRest⟩
  | reference reference rest _ _ =>
    exact absurd (List.mem_append_left _ (Node.self_mem_within _)) (free reference)

end Counts

end Outcomes

open Outcomes Graph in
/-- Without references the possible outcomes are the derivations, and counting them ends. -/
theorem Document.possibleOutcomes_eq_encard {source : List Char} {document : Document}
    (read : Document.read source = .ok document)
    (free : Referenceless (nodesWithin document.nodes)) :
    ∃ count, document.analyze.possibleOutcomes = some count ∧
      (derivationsOf (.nodes document.nodes)).encard = count := by
  have unread : (ofNodes document.nodes .empty).2.Unread :=
    unread_ofChoice (.nodes document.nodes) free fun _ _ found => by cases found
  have covers : Covers (ofNodes document.nodes .empty).2 (.nodes document.nodes)
      (ofNodes document.nodes .empty).1 :=
    covers_nodes_iff.2 ⟨.empty, [], ⟨Graph.solid_empty, Document.branching_of_read read,
      nodesPointBack_of_referenceless _ free [], .refl _⟩, rfl⟩
  obtain ⟨count, counts, many⟩ := countsDerivations unread (.nodes document.nodes) free covers
  exact ⟨count, countSequenceCached_eq_some_iff.2 counts, many⟩

/-- A fork with two forks in one branch, a call in another one, and a second fork behind it. -/
def nestedForks : Document :=
  ⟨[.fork ⟨none, false, false,
      [⟨.nodes [
          .fork ⟨none, false, false, [⟨.nodes [.text "1"], none⟩, ⟨.nodes [.text "2"], none⟩],
            ⟨2, 12⟩⟩,
          .fork ⟨none, false, false, [⟨.nodes [.text "3"], none⟩, ⟨.script ⟨"4", ⟨18, 21⟩⟩, none⟩],
            ⟨12, 22⟩⟩], none⟩,
        ⟨.call ⟨"f", ⟨25, 31⟩⟩, none⟩, ⟨.nodes [.text "z"], none⟩], ⟨0, 37⟩⟩,
    .fork ⟨none, false, false, [⟨.nodes [.text "x"], none⟩, ⟨.nodes [.text "y"], none⟩],
      ⟨37, 47⟩⟩], [], []⟩

set_option maxRecDepth 100000 in
open Outcomes in
/-- The inner forks multiply, the branches around them add up, and the last fork doubles. -/
theorem Document.possibleOutcomes_eq_encard_nested :
    Document.read ("\x7b(\x7b(1), (2)\x7d\x7b(3), [4]\x7d), call f, (z)\x7d" ++
        "\x7b(x), (y)\x7d").toList = .ok nestedForks ∧
      Referenceless (nodesWithin nestedForks.nodes) ∧
      nestedForks.analyze.possibleOutcomes = some 12 ∧
      (derivationsOf (.nodes nestedForks.nodes)).encard = 12 := by
  have read : Document.read ("\x7b(\x7b(1), (2)\x7d\x7b(3), [4]\x7d), call f, (z)\x7d" ++
      "\x7b(x), (y)\x7d").toList = .ok nestedForks := by with_unfolding_all exact rfl
  have free : Referenceless (nodesWithin nestedForks.nodes) := by
    simp [Referenceless, nestedForks, nodesWithin, Node.within, withinBranches, Choice.within]
  have counted : nestedForks.analyze.possibleOutcomes = some 12 := by decide +kernel
  obtain ⟨count, same, many⟩ := Document.possibleOutcomes_eq_encard read free
  obtain rfl : 12 = count := Option.some.inj (counted.symm.trans same)
  exact ⟨read, free, counted, many⟩

end BranchText
