import BranchText.Proofs.Outcomes.Sequences
import BranchText.Proofs.Render.Replacement

/-!
# Renders and the count

A document of which `Accountable` holds never renders to more texts than its count, whatever the
generator draws: everything rendered is possible, and what is possible of a document is no more than
it costs, which is no more than is counted.
-/

namespace BranchText

namespace Outcomes

open Rendering

/-- The nodes can render to the text, from where nothing is recorded. -/
def CanRender (nodes : List Node) (text : String) : Prop :=
  ∃ last after, NodesGive (possible depthLimit) true nodes ⟨"", false⟩ .empty last after ∧
    last.text = text

variable {document : Document}

theorem ensures_canRender {nodes : List Node} (unmixed : Unmixed (nodesWithin nodes))
    {state : RenderState} (regular : Regular nodes state) (nothing : state.view = .empty) :
    Ensures (renderNodes (inert depthLimit) nodes true) state (fun text _ => CanRender nodes text)
      fun _ => True := by
  have within : ∀ node ∈ nodes, node ∈ nodesWithin nodes := fun node member =>
    within_subset_of_mem member (Node.self_mem_within node)
  refine (ensures_bind ..).2 ?_
  refine (ensures_foldlM_gives (realizes_inert unmixed depthLimit) regular unmixed true within
    _).imp (fun last later given => ?_) fun _ _ => trivial
  rw [nothing] at given
  exact ⟨last, later.view, given.2, rfl⟩

/-- Whatever a document without script blocks renders to is possible. -/
theorem canRender_of_rendered (unmixed : Unmixed (nodesWithin document.nodes))
    (scriptless : document.scripts = []) {setting : Setting} {generator : Generator} {text : String}
    (rendered : ((Rendering.document setting document).run (.initial generator)).1 = .ok text) :
    CanRender document.nodes text := by
  have whole : Ensures (inertDocument document) (.initial generator)
      (fun text _ => CanRender document.nodes text) fun _ => True := by
    have regular := regular_initial document.nodes generator
    unfold inertDocument renderWhole
    split
    · exact (ensures_bind ..).2 (ensures_canRender unmixed { regular with } rfl)
    · exact ensures_canRender unmixed regular rfl
  obtain ⟨same, -⟩ := inStep_document (.inr scriptless) _
    (dormant_initial document.nodes generator)
  rw [same] at rendered
  have run : (inertDocument document).run (.initial generator) =
      (.ok text, ((inertDocument document).run (.initial generator)).2) := Prod.ext rendered rfl
  exact (ensures_of_run_ok run).1 whole

/-- The count of an accountable document is at least what it costs. -/
theorem cost_le_of_analyze (branching : Branching (nodesWithin document.nodes))
    (accountable : Accountable document.nodes) {count : Nat}
    (counted : document.analyze.possibleOutcomes = some count) :
    ∃ graph : Graph, graph.Solid ∧ Fine graph (.nodes document.nodes) ∧
      cost graph (.nodes document.nodes) ≤ count := by
  have solid := (builds_ofNodes document.nodes branching .empty).solid Graph.solid_empty
  have covers : Covers (ofNodes document.nodes .empty).2 (.nodes document.nodes)
      (ofNodes document.nodes .empty).1 :=
    covers_nodes_iff.2
      ⟨.empty, [], ⟨Graph.solid_empty, branching, accountable.behind, .refl _⟩, rfl⟩
  have found : Counted (ofNodes document.nodes .empty).2 (.nodes document.nodes) count :=
    ⟨_, covers, Graph.countsAll_of_cached counted⟩
  exact ⟨_, solid.1, found.fine, found.cost_le solid.1⟩

end Outcomes

/-- However the generator draws, an accountable document never renders to more texts than its
analysis counts. -/
theorem Document.length_le_possibleOutcomes {source : List Char} {document : Document}
    (read : Document.read source = .ok document) (scriptless : document.scripts = [])
    (acyclic : Acyclic document.nodes) (accountable : Accountable document.nodes) {count : Nat}
    (counted : document.analyze.possibleOutcomes = some count) (setting : Setting)
    {texts : List String} (distinct : texts.Nodup)
    (rendered : ∀ text ∈ texts, ∃ generator,
      ((Rendering.document setting document).run (.initial generator)).1 = .ok text) :
    texts.length ≤ count := by
  have branching := Document.branching_of_read read
  have unmixed := Document.unmixed_of_read read
  obtain ⟨graph, solid, fine, le⟩ := Outcomes.cost_le_of_analyze branching accountable counted
  have setup := Outcomes.setup_possible solid branching acyclic accountable Rendering.depthLimit
  refine Nat.le_trans (Outcomes.length_le_cost setup fine true ⟨"", false⟩ distinct
    fun text member => ?_) le
  obtain ⟨generator, given⟩ := rendered text member
  exact Outcomes.canRender_of_rendered unmixed scriptless given

namespace Outcomes

/-! ## One fork, read twice -/

/-- A fork of two branches with text. -/
def ofTwo (name : Option String) (first second : String) (start stop : Nat) : Node :=
  .fork ⟨name, false, false, [⟨.nodes [.text first], none⟩, ⟨.nodes [.text second], none⟩],
    ⟨start, stop⟩⟩

/-- A reference that has a fork of two branches for one branch of `N`. -/
def twoFor (branch : Nat) (first second : String) (start : Nat) : Node :=
  .reference ⟨"N", none, false,
    [⟨branch, .nodes [ofTwo none first second (start + 11) (start + 21)]⟩], none, false,
    ⟨start, start + 23⟩⟩

/-- A fork that two references read, the first of them for its first branch. -/
def readTwice (branch : Nat) : Document :=
  ⟨[ofTwo (some "N") "a" "b" 0 13, twoFor 0 "1" "2" 13, twoFor branch "x" "y" 36], [], []⟩

section ReadTwice

variable {branch : Nat}

theorem sequences_readTwice : sequences (readTwice branch).nodes =
    [(readTwice branch).nodes, [.text "a"], [.text "b"], [ofTwo none "1" "2" 24 34], [.text "1"],
      [.text "2"], [ofTwo none "x" "y" 47 57], [.text "x"], [.text "y"]] := rfl

/-- A node without a name that draws only where it stands. -/
def Nameless (node : Node) : Prop :=
  node.name? = none ∧ (∀ fork, node = .fork fork → fork.silent = false) ∧
    ∀ reference, node = .reference reference → reference.reruns = false

theorem nameless_of_references {node : Node}
    (within : node ∈ nodesWithin [twoFor 0 "1" "2" 13, twoFor branch "x" "y" 36]) :
    Nameless node := by
  simp only [ofTwo, twoFor, nodesWithin, Node.within, withinBranches, withinMappings,
    withinFallback, Choice.within, List.cons_append, List.nil_append, List.append_nil,
    List.mem_cons, List.not_mem_nil, or_false] at within
  rcases within with rfl | rfl | rfl | rfl | rfl | rfl | rfl | rfl <;>
    exact ⟨rfl, by rintro _ ⟨⟩ <;> rfl, by rintro _ ⟨⟩ <;> rfl⟩

theorem nameless_readTwice {node : Node} (within : node ∈ nodesWithin (readTwice branch).nodes) :
    node = ofTwo (some "N") "a" "b" 0 13 ∨ Nameless node := by
  have text : ∀ content, Nameless (.text content) := fun _ =>
    ⟨rfl, by rintro _ ⟨⟩, by rintro _ ⟨⟩⟩
  rcases List.mem_cons.1 within with first | others
  · exact .inl first
  rcases List.mem_cons.1 others with same | others
  · exact .inr (same ▸ text "a")
  rcases List.mem_cons.1 others with same | references
  · exact .inr (same ▸ text "b")
  · exact .inr (nameless_of_references references)

/-- The only node with a name holds no reference. -/
theorem acyclic_readTwice : Acyclic (readTwice branch).nodes := by
  have none : ∀ {name target : String}, ¬ Refers (readTwice branch).nodes name target := by
    rintro name target ⟨node, within, named, reference, inside, -⟩
    rcases nameless_readTwice within with rfl | ⟨nameless, -⟩
    · simp [ofTwo, Node.within, withinBranches, Choice.within, nodesWithin] at inside
    · rw [nameless] at named
      cases named
  intro name leads
  obtain ⟨_, refers, -⟩ := Relation.TransGen.head'_iff.1 leads
  exact none refers

/-- Nothing is drawn again. -/
theorem mem_of_runs_readTwice {nodes : List Node}
    (inside : nodesWithin nodes ⊆ nodesWithin (readTwice branch).nodes) {node : Node}
    (runs : Runs (readTwice branch).nodes nodes node) : node ∈ nodesWithin nodes := by
  induction runs with
  | within member => exact member
  | drawn _ draws _ ih =>
    exfalso
    rcases draws.executes with reruns | ⟨silent, -⟩
    · rcases nameless_readTwice (inside ih) with same | ⟨-, -, looks⟩
      · cases same
      · rw [looks _ rfl] at reruns
        cases reruns
    · rcases nameless_readTwice draws.denotes.within with same | ⟨-, spoken, -⟩
      · cases same
        cases silent
      · rw [spoken _ rfl] at silent
        cases silent

/-- Where a node stands that refers or has a name. -/
theorem split_readTwice {before after : List Node} {node : Node}
    (member : before ++ node :: after ∈ sequences (readTwice branch).nodes) :
    (node.name? = none ∧ ∀ reference, node ≠ .reference reference) ∨
      (before = [] ∧ node = ofTwo (some "N") "a" "b" 0 13 ∧
        after = [twoFor 0 "1" "2" 13, twoFor branch "x" "y" 36]) ∨
      ∃ reference, node = .reference reference ∧ reference.target = "N" ∧
        ofTwo (some "N") "a" "b" 0 13 ∈ before := by
  have listed : node ∈ before ++ node :: after := List.mem_append_right _ (List.mem_cons_self ..)
  rw [sequences_readTwice, List.mem_cons] at member
  rcases member with whole | part
  · refine .inr ?_
    match before, whole with
    | [], whole =>
      cases whole
      exact .inl ⟨rfl, rfl, rfl⟩
    | [_], whole =>
      cases whole
      exact .inr ⟨_, rfl, rfl, List.mem_cons_self ..⟩
    | [_, _], whole =>
      cases whole
      exact .inr ⟨_, rfl, rfl, List.mem_cons_self ..⟩
    | _ :: _ :: _ :: _, whole => simp [readTwice] at whole
  -- All other sequences are one node without a name.
  · refine .inl ?_
    simp only [List.mem_cons, List.not_mem_nil, or_false] at part
    rcases part with same | same | same | same | same | same | same | same <;>
      rw [same, List.mem_singleton] at listed <;>
      · subst listed
        exact ⟨rfl, by rintro _ ⟨⟩⟩

/-- Where the references have forks for different branches, all outcomes are counted. -/
theorem accountable_readTwice : Accountable (readTwice 1).nodes where
  behind := by decide
  beside before reference after member _ := by
    rcases split_readTwice member with ⟨-, other⟩ | ⟨-, same, -⟩ | ⟨_, same, target, among⟩
    · exact absurd rfl (other reference)
    · cases same
    · cases same
      exact .inr ⟨_, among, congrArg some target.symm⟩
  quiet before fork after name member identifier := by
    rcases split_readTwice member with ⟨nameless, -⟩ | ⟨rfl, same, rfl⟩ | ⟨_, same, -⟩
    · cases nameless.symm.trans identifier
    · cases same
      cases identifier
      have inside : nodesWithin [twoFor 0 "1" "2" 13, twoFor 1 "x" "y" 36] ⊆
          nodesWithin (readTwice 1).nodes := List.subset_append_right ..
      refine .inr ⟨fun node runs => ?_, fun reference runs reruns => ?_⟩
      · rw [(nameless_of_references (mem_of_runs_readTwice inside runs)).1]
        exact (Option.some_ne_none _).symm
      · rw [(nameless_of_references (mem_of_runs_readTwice inside runs)).2.2 _ rfl] at reruns
        cases reruns
    · cases same
  single before fork after name member identifier index branch found := by
    rcases split_readTwice member with ⟨nameless, -⟩ | ⟨rfl, same, rfl⟩ | ⟨_, same, -⟩
    · cases nameless.symm.trans identifier
    · cases same
      cases identifier
      match index, found with
      | 0, found =>
        cases found
        decide
      | 1, found =>
        cases found
        decide
    · cases same
  repeated reference within reruns := by
    rcases nameless_readTwice within with same | ⟨-, -, looks⟩
    · cases same
    · rw [looks _ rfl] at reruns
      cases reruns

end ReadTwice

end Outcomes

open Outcomes Rendering

/-- A seed for which a document without scripts renders to the text. -/
theorem Document.exists_render (document : Document) (seed : UInt64) {text : String}
    (found : ((Rendering.document scriptless document).run
      (.initial (.ofSeed seed))).1.toOption = some text) :
    ∃ generator, ((Rendering.document scriptless document).run (.initial generator)).1 = .ok text :=
  ⟨.ofSeed seed, congrArg Prod.fst (run_of_toOption found)⟩

set_option maxRecDepth 100000 in
/-- The references map different branches, and all outcomes that are counted are rendered. -/
theorem Document.length_le_possibleOutcomes_apart :
    Document.read ("\x7bN: (a), (b)\x7d\x7b@N: 0 -> (\x7b(1), (2)\x7d)\x7d" ++
        "\x7b@N: 1 -> (\x7b(x), (y)\x7d)\x7d").toList = .ok (readTwice 1) ∧
      Acyclic (readTwice 1).nodes ∧ Accountable (readTwice 1).nodes ∧
      (readTwice 1).analyze.possibleOutcomes = some 4 ∧
      (∀ text ∈ ["a1", "a2", "bx", "by"], ∃ generator,
        ((Rendering.document scriptless (readTwice 1)).run (.initial generator)).1 = .ok text) ∧
      ["a1", "a2", "bx", "by"].length ≤ 4 := by
  have read : Document.read ("\x7bN: (a), (b)\x7d\x7b@N: 0 -> (\x7b(1), (2)\x7d)\x7d" ++
      "\x7b@N: 1 -> (\x7b(x), (y)\x7d)\x7d").toList = .ok (readTwice 1) := by
    with_unfolding_all exact rfl
  have counted : (readTwice 1).analyze.possibleOutcomes = some 4 := by decide +kernel
  have rendered : ∀ text ∈ ["a1", "a2", "bx", "by"], ∃ generator,
      ((Rendering.document scriptless (readTwice 1)).run (.initial generator)).1 = .ok text := by
    simp only [List.forall_mem_cons]
    exact ⟨exists_render _ 2 (by decide +kernel), exists_render _ 6 (by decide +kernel),
      exists_render _ 9 (by decide +kernel), exists_render _ 0 (by decide +kernel),
      fun _ member => absurd member List.not_mem_nil⟩
  exact ⟨read, acyclic_readTwice, accountable_readTwice, counted, rendered,
    Document.length_le_possibleOutcomes read (by decide) acyclic_readTwice accountable_readTwice
      counted scriptless (by decide) rendered⟩

set_option maxRecDepth 100000 in
/-- Where both references map the same branch, their outcomes multiply, and are only added up. -/
theorem Document.not_length_le_possibleOutcomes_together :
    ¬ ∀ (source : List Char) (document : Document), Document.read source = .ok document →
      document.scripts = [] → Acyclic document.nodes → ∀ count,
        document.analyze.possibleOutcomes = some count →
          ∀ (setting : Setting) (texts : List String), texts.Nodup →
            (∀ text ∈ texts, ∃ generator,
              ((Rendering.document setting document).run (.initial generator)).1 = .ok text) →
            texts.length ≤ count := by
  intro claim
  have read : Document.read ("\x7bN: (a), (b)\x7d\x7b@N: 0 -> (\x7b(1), (2)\x7d)\x7d" ++
      "\x7b@N: 0 -> (\x7b(x), (y)\x7d)\x7d").toList = .ok (readTwice 0) := by
    with_unfolding_all exact rfl
  have counted : (readTwice 0).analyze.possibleOutcomes = some 4 := by decide +kernel
  have rendered : ∀ text ∈ ["b", "a1x", "a1y", "a2x", "a2y"], ∃ generator,
      ((Rendering.document scriptless (readTwice 0)).run (.initial generator)).1 = .ok text := by
    simp only [List.forall_mem_cons]
    exact ⟨exists_render _ 0 (by decide +kernel), exists_render _ 2 (by decide +kernel),
      exists_render _ 20 (by decide +kernel), exists_render _ 23 (by decide +kernel),
      exists_render _ 6 (by decide +kernel), fun _ member => absurd member List.not_mem_nil⟩
  have five := claim _ _ read (by decide) acyclic_readTwice 4 counted scriptless _ (by decide)
    rendered
  exact absurd five (by decide)

end BranchText
