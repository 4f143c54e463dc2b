import BranchText.Document.Print
import BranchText.Document.Reader
import BranchText.Proofs.Outcomes.Accountable
import BranchText.Proofs.Outcomes.Outlines

/-!
# References that add nothing

A reference that only looks at its target, has no name of its own and holds nothing to choose leaves
mappings without forks. The graph is alike with it and without it, so it may stand anywhere in a
document: what is counted, and the number of forks, stay the same.
-/

namespace BranchText

/-- The second sequence is the first one with the reference inserted: between two nodes, within a
text, or in a choice that one of the nodes holds. -/
inductive Inserted (reference : Reference) : List Node → List Node → Prop
  | between (front back : List Node) :
    Inserted reference (front ++ back) (front ++ .reference reference :: back)
  | text (front back : List Node) (first second : String) :
    Inserted reference (front ++ .text (first ++ second) :: back)
      (front ++ .text first :: .reference reference :: .text second :: back)
  | branch (front back : List Node) (fork : Fork) (before after : List Branch)
    (weight : Option Decimal) {nodes edited : List Node} (inside : Inserted reference nodes edited)
    (held : fork.branches = before ++ ⟨.nodes nodes, weight⟩ :: after) :
    Inserted reference (front ++ .fork fork :: back)
      (front ++ .fork { fork with branches := before ++ ⟨.nodes edited, weight⟩ :: after } :: back)
  | mapping (front back : List Node) (look : Reference) (before after : List Mapping) (index : Nat)
    {nodes edited : List Node} (inside : Inserted reference nodes edited)
    (held : look.mappings = before ++ ⟨index, .nodes nodes⟩ :: after) :
    Inserted reference (front ++ .reference look :: back)
      (front ++
        .reference { look with mappings := before ++ ⟨index, .nodes edited⟩ :: after } :: back)
  | fallback (front back : List Node) (look : Reference) {nodes edited : List Node}
    (inside : Inserted reference nodes edited) (held : look.fallback = some (.nodes nodes)) :
    Inserted reference (front ++ .reference look :: back)
      (front ++ .reference { look with fallback := some (.nodes edited) } :: back)

namespace Outcomes

open Graph
open List (Forall₂)

/-! ## Nothing to choose -/

/-- Nothing is added, apart from mappings that hold no forks. -/
def Idle (builder : Builder) : Prop :=
  ∀ graph, (builder graph).1 = [] ∧ Alike graph (builder graph).2

section References

variable {reference : Reference} (each : ∀ choice ∈ reference.choices, Idle (ofChoice choice))
include each

theorem idle_build (start count : Nat) (graph : Graph) :
    (∀ sequence ∈ ((mappedOf reference).build start count graph).1, sequence = []) ∧
      Alike graph ((mappedOf reference).build start count graph).2 := by
  induction count generalizing start graph with
  | zero => exact ⟨List.forall_mem_nil _, .refl graph⟩
  | succ count ih =>
    cases found : reference.answer? start with
    | none =>
      rw [build_none _ found]
      exact ih ..
    | some choice =>
      rw [build_some _ found]
      obtain ⟨nothing, between⟩ := each choice (Reference.mem_choices_of_answer? found) graph
      obtain ⟨empty, after⟩ := ih (start + 1) (ofChoice choice graph).2
      exact ⟨List.forall_mem_cons.2 ⟨nothing, empty⟩, between.trans after⟩

theorem alike_withReader (fork : Nat) (graph : Graph) :
    Alike graph (withReader reference fork graph) := by
  unfold withReader
  split
  · exact .refl graph
  · obtain ⟨empty, after⟩ := idle_build each 0 (graph.branchesOf fork).length graph
    exact after.trans (.addReader_empty _ fork empty)

theorem alike_read (unnamed : reference.identifier = none) (forks : List Nat) (graph : Graph) :
    Alike graph ((mappedOf reference).read reference.identifier forks graph) := by
  induction forks generalizing graph with
  | nil => exact .refl graph
  | cons fork rest ih =>
    have here : Alike graph (reading reference fork graph) := by
      rw [reading, unnamed]
      exact alike_withReader each fork graph
    rw [read_cons]
    exact here.trans (ih _)

/-- A reference that only looks, and has no name, adds nothing if its choices add nothing. -/
theorem idle_reference (unnamed : reference.identifier = none) (looks : reference.reruns = false) :
    Idle (ofNode (.reference reference)) := by
  intro graph
  have entering : Alike graph (entered graph) := .of_references graph _
  cases named : graph.named? reference.target with
  | none =>
    rw [ofNode_unknown named]
    exact ⟨rfl, entering.trans (.noteUnresolved ..)⟩
  | some forks =>
    rw [ofNode_look looks named]
    exact ⟨rfl, entering.trans (alike_read each unnamed forks _)⟩

end References

/-- Building a choice in which there is nothing to choose adds nothing. -/
theorem idle_ofChoice (choice : Choice) (plain : ∀ node ∈ choice.within, node.isLight = true) :
    Idle (ofChoice choice) := by
  induction choice using Choice.along with
  | script block => exact fun graph => ⟨rfl, .refl graph⟩
  | call call => exact fun graph => ⟨rfl, .refl graph⟩
  | nil => exact fun graph => ⟨rfl, .refl graph⟩
  | text content rest ih => exact ih fun node member => plain node (List.mem_append_right _ member)
  | fork fork rest _ _ =>
    exact absurd (plain _ (List.mem_append_left _ (Node.self_mem_within _))) Bool.false_ne_true
  | reference reference rest inside ih =>
    have light := plain _ (List.mem_append_left _ (Node.self_mem_within _))
    rw [Node.isLight, Bool.and_eq_true, Bool.not_eq_true', Option.isNone_iff_eq_none] at light
    have here := idle_reference (fun choice member => inside choice member fun node within =>
      plain node (List.mem_append_left _ (Reference.choice_within member within))) light.1 light.2
    intro graph
    obtain ⟨nothing, between⟩ := here graph
    obtain ⟨nothing', after⟩ :=
      ih (fun node member => plain node (List.mem_append_right _ member)) (ofNode _ graph).2
    change (ofNodes (.reference reference :: rest) graph).1 = [] ∧
      Alike graph (ofNodes (.reference reference :: rest) graph).2
    rw [ofNodes_cons, nothing]
    exact ⟨nothing', between.trans after⟩

/-! ## Insertions -/

section Insertions

variable {reference : Reference} (idle : Idle (ofNode (.reference reference)))
include idle

omit idle in
theorem ofNodes_text (content : String) (rest : List Node) :
    ofNodes (.text content :: rest) = ofNodes rest := rfl

theorem congruent_reference_cons (back : List Node) :
    Congruent (ofNodes back) (ofNodes (.reference reference :: back)) := by
  intro graph other alike
  obtain ⟨nothing, between⟩ := idle other
  obtain ⟨same, after⟩ := Interchangeable.refl (.nodes back) _ _ (alike.trans between)
  rw [ofNodes_cons, nothing]
  exact ⟨same, after⟩

theorem congruent_of_inserted {nodes edited : List Node}
    (inserted : Inserted reference nodes edited) : Congruent (ofNodes nodes) (ofNodes edited) := by
  have same : ∀ nodes, Congruent (ofNodes nodes) (ofNodes nodes) := fun nodes =>
    Interchangeable.refl (.nodes nodes)
  induction inserted with
  | between front back => exact (same front).append (congruent_reference_cons idle back)
  | text front back first second =>
    have behind := congruent_reference_cons idle (.text second :: back)
    rw [ofNodes_text] at behind
    refine (same front).append ?_
    rw [ofNodes_text, ofNodes_text]
    exact behind
  | branch front back fork before after weight inside held ih =>
    refine (same front).append (Congruent.cons (Congruent.fork rfl ?_) (same back))
    rw [held]
    exact List.rel_append (List.forall₂_same.2 fun branch _ => .refl _)
      (.cons ih (List.forall₂_same.2 fun branch _ => .refl _))
  | mapping front back look before after index inside held ih =>
    refine (same front).append (Congruent.cons (Resembles.node ⟨rfl, rfl, rfl, ?_, ?_⟩) (same back))
    · rw [held]
      exact List.rel_append (List.forall₂_same.2 fun mapping _ => ⟨rfl, .refl _⟩)
        (.cons ⟨rfl, ih⟩ (List.forall₂_same.2 fun mapping _ => ⟨rfl, .refl _⟩))
    · exact rel_same fun choice _ => .refl choice
  | fallback front back look inside held ih =>
    refine (same front).append (Congruent.cons (Resembles.node ⟨rfl, rfl, rfl, ?_, ?_⟩) (same back))
    · exact List.forall₂_same.2 fun mapping _ => ⟨rfl, .refl _⟩
    · rw [held]
      exact .some ih

end Insertions

/-! ## Spans -/

theorem ofBranches_withoutSpans {branches : List Branch}
    (each : ∀ branch ∈ branches, ofChoice branch.choice.withoutSpans = ofChoice branch.choice) :
    ofBranches (branchesWithoutSpans branches) = ofBranches branches := by
  induction branches with
  | nil => rfl
  | cons branch rest ih =>
    obtain ⟨choice, weight⟩ := branch
    obtain ⟨here, others⟩ := List.forall_mem_cons.1 each
    rw [branchesWithoutSpans, ofBranches, ofBranches, ih others, here]

theorem ofMappings_withoutSpans {mappings : List Mapping}
    (each : ∀ mapping ∈ mappings, ofChoice mapping.choice.withoutSpans = ofChoice mapping.choice) :
    ofMappings (mappingsWithoutSpans mappings) = ofMappings mappings := by
  induction mappings with
  | nil => rfl
  | cons mapping rest ih =>
    obtain ⟨branch, choice⟩ := mapping
    obtain ⟨here, others⟩ := List.forall_mem_cons.1 each
    rw [mappingsWithoutSpans, ofMappings, ofMappings, ih others, here]

/-- Building does not look at spans. -/
theorem ofChoice_withoutSpans (choice : Choice) :
    ofChoice choice.withoutSpans = ofChoice choice := by
  have cons : ∀ {node : Node} {rest : List Node}, ofNode node.withoutSpans = ofNode node →
      ofChoice (Choice.nodes rest).withoutSpans = ofChoice (.nodes rest) →
      ofNodes (nodesWithoutSpans (node :: rest)) = ofNodes (node :: rest) := by
    intro node rest here behind
    change ofNodes (nodesWithoutSpans rest) = ofNodes rest at behind
    rw [nodesWithoutSpans, ofNodes, ofNodes, here, behind]
  induction choice using Choice.along with
  | script block => rfl
  | call call => rfl
  | nil => rfl
  | text content rest ih =>
    have here : ofNode (Node.text content).withoutSpans = ofNode (.text content) := rfl
    exact cons here ih
  | fork fork rest inside ih =>
    refine cons ?_ ih
    obtain ⟨identifier, silent, isSet, branches, span⟩ := fork
    rw [Node.withoutSpans, ofNode, ofNode, ofBranches_withoutSpans inside]
  | reference reference rest inside ih =>
    refine cons ?_ ih
    obtain ⟨target, identifier, silent, mappings, fallback, reruns, span⟩ := reference
    have mapped : ofMappings (mappingsWithoutSpans mappings) = ofMappings mappings :=
      ofMappings_withoutSpans fun mapping member =>
        inside _ (List.mem_append_left _ (List.mem_map_of_mem member))
    have fallen : ofFallback (fallbackWithoutSpans fallback) = ofFallback fallback := by
      cases fallback with
      | none => rfl
      | some choice => exact congrArg some (inside choice (Reference.mem_choices_of_fallback rfl))
    rw [Node.withoutSpans, ofNode, ofNode, mapped, fallen]

/-- What differs in spans only builds the same. -/
theorem ofNodes_of_withoutSpans {nodes others : List Node}
    (same : nodesWithoutSpans nodes = nodesWithoutSpans others) : ofNodes nodes = ofNodes others :=
  calc
    ofNodes nodes = ofNodes (nodesWithoutSpans nodes) :=
      (ofChoice_withoutSpans (.nodes nodes)).symm
    _ = ofNodes (nodesWithoutSpans others) := by rw [same]
    _ = ofNodes others := ofChoice_withoutSpans (.nodes others)

end Outcomes

open Outcomes Graph in
/-- A reference that only looks, has no name and holds nothing to choose changes neither the
possible outcomes nor the number of forks, wherever it is inserted and whatever spans there are
then. -/
theorem Document.possibleOutcomes_of_inserted {document edited : Document} {reference : Reference}
    {nodes : List Node} (inserted : Inserted reference document.nodes nodes)
    (same : nodesWithoutSpans edited.nodes = nodesWithoutSpans nodes)
    (unnamed : reference.identifier = none) (looks : reference.reruns = false)
    (plain : ∀ choice ∈ reference.choices, choice.isPlain = true) :
    edited.analyze.possibleOutcomes = document.analyze.possibleOutcomes ∧
      edited.analyze.forks = document.analyze.forks := by
  have idle : Idle (ofNode (.reference reference)) :=
    idle_reference (fun choice member => idle_ofChoice choice
      (List.all_eq_true.1 (plain choice member))) unnamed looks
  obtain ⟨root, alike⟩ := congruent_of_inserted idle inserted _ _ (.refl .empty)
  rw [← ofNodes_of_withoutSpans same] at root alike
  constructor
  · change countSequenceCached _ _ _ = countSequenceCached _ _ _
    rw [← root]
    exact (alike.countSequenceCached _).symm
  · exact alike.forkNodes.symm

/-- A fork with a name, and a reference to it that maps a branch to some nodes and a second fork. -/
def mapsBefore (nodes : List Node) (start : Nat) : Document :=
  ⟨[.fork ⟨some "N", false, false, [⟨.nodes [.text "a"], none⟩, ⟨.nodes [.text "b"], none⟩],
      ⟨0, 13⟩⟩,
    .reference ⟨"N", none, false, [⟨0, .nodes (nodes ++ [.fork ⟨none, false, false,
      [⟨.nodes [.text "1"], none⟩, ⟨.nodes [.text "2"], none⟩], ⟨start, start + 10⟩⟩])⟩], none,
      false, ⟨13, start + 12⟩⟩], [], []⟩

set_option maxRecDepth 100000 in
open Outcomes in
/-- Inside the mapping, between two letters, a reference to the same fork is inserted. -/
theorem Document.possibleOutcomes_of_inserted_mapped :
    let look : Reference := ⟨"N", none, false, [⟨1, .nodes [.text "z"]⟩],
      some (.nodes [.text "w"]), false, ⟨25, 44⟩⟩
    let edited := mapsBefore [.text "x", .reference look, .text "y"] 45
    Document.read "\x7bN: (a), (b)\x7d\x7b@N: 0 -> (xy\x7b(1), (2)\x7d)\x7d".toList =
        .ok (mapsBefore [.text "xy"] 26) ∧
      Document.read ("\x7bN: (a), (b)\x7d\x7b@N: 0 -> (x\x7b@N: 1 -> (z), (w)\x7dy" ++
        "\x7b(1), (2)\x7d)\x7d").toList = .ok edited ∧
      (∀ choice ∈ look.choices, choice.isPlain = true) ∧
      edited.analyze.possibleOutcomes = (mapsBefore [.text "xy"] 26).analyze.possibleOutcomes ∧
      edited.analyze.forks = (mapsBefore [.text "xy"] 26).analyze.forks := by
  intro look edited
  have plain : ∀ choice ∈ look.choices, choice.isPlain = true := by decide
  have inserted : Inserted look (mapsBefore [.text "xy"] 26).nodes
      (mapsBefore [.text "x", .reference look, .text "y"] 26).nodes :=
    .mapping [_] [] _ [] [] 0 (.text [] _ "x" "y") rfl
  have same : nodesWithoutSpans edited.nodes =
      nodesWithoutSpans (mapsBefore [.text "x", .reference look, .text "y"] 26).nodes := rfl
  exact ⟨by with_unfolding_all exact rfl, by with_unfolding_all exact rfl, plain,
    Document.possibleOutcomes_of_inserted inserted same rfl rfl plain⟩

end BranchText
