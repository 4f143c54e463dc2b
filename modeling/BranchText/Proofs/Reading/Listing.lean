import BranchText.Proofs.Document.Choices
import BranchText.Proofs.Reading.Spans

/-!
# The list of script blocks

A document lists the script blocks of its nodes: those of a node are those of the choices that the
node holds, in the order in which it holds them. Branches are held as they are written, and mappings
in the order of their indices, a choice behind a list of indices once for each of them. So the list
follows the text exactly if the mappings with script blocks do (`Document.scripts_of_read`). The
rules of modes are passed over.
-/

namespace BranchText

/-! ## Blocks of nodes and choices -/

section Blocks

variable {block : ScriptBlock} {choice : Choice} {node : Node}

theorem scriptsOfBranches_eq (branches : List Branch) :
    scriptsOfBranches branches = branches.flatMap (·.choice.scripts) := by
  induction branches with
  | nil => rfl
  | cons branch rest ih =>
    obtain ⟨choice, weight⟩ := branch
    rw [scriptsOfBranches, ih, List.flatMap_cons]

theorem scriptsOfMappings_eq (mappings : List Mapping) :
    scriptsOfMappings mappings = mappings.flatMap (·.choice.scripts) := by
  induction mappings with
  | nil => rfl
  | cons mapping rest ih =>
    obtain ⟨branch, choice⟩ := mapping
    rw [scriptsOfMappings, ih, List.flatMap_cons]

/-- A node lists the blocks of the choices that it holds. -/
theorem Node.scripts_eq (node : Node) : node.scripts = node.choices.flatMap Choice.scripts := by
  cases node with
  | text content => rfl
  | fork fork =>
    obtain ⟨identifier, silent, isSet, branches, span⟩ := fork
    rw [scripts, scriptsOfBranches_eq, choices, List.flatMap_map]
  | reference reference =>
    obtain ⟨target, identifier, silent, mappings, fallback, reruns, span⟩ := reference
    rw [scripts, scriptsOfMappings_eq, choices, Reference.choices, List.flatMap_append,
      List.flatMap_map]
    cases fallback with
    | none => rfl
    | some choice => rw [scriptsOfFallback, Option.toList_some, List.flatMap_singleton]

theorem scriptsOfNodes_eq (nodes : List Node) :
    scriptsOfNodes nodes = nodes.flatMap Node.scripts := by
  induction nodes with
  | nil => rfl
  | cons node rest ih => rw [scriptsOfNodes, ih, List.flatMap_cons]

theorem Node.choice_within (held : choice ∈ node.choices) : choice.within ⊆ node.within := by
  cases node with
  | text content => cases held
  | fork fork =>
    obtain ⟨branch, listed, rfl⟩ := List.mem_map.1 held
    exact Fork.branch_within listed
  | reference reference => exact Reference.choice_within held

/-- Inside a node is what is inside the choices that it holds. -/
theorem Node.mem_within {inner : Node} :
    inner ∈ node.within ↔ inner = node ∨ ∃ choice ∈ node.choices, inner ∈ choice.within := by
  constructor
  · intro inside
    cases node with
    | text content => exact .inl (List.mem_singleton.1 inside)
    | fork fork =>
      obtain ⟨identifier, silent, isSet, branches, span⟩ := fork
      refine (List.mem_cons.1 inside).imp_right fun inBranches => ?_
      obtain ⟨branch, listed, inBranch⟩ := mem_withinBranches.1 inBranches
      exact ⟨branch.choice, List.mem_map_of_mem listed, inBranch⟩
    | reference reference =>
      rw [Reference.within_reference] at inside
      refine (List.mem_cons.1 inside).imp_right fun nested => ?_
      rcases List.mem_append.1 nested with mapped | fallen
      · obtain ⟨mapping, listed, inMapping⟩ := mem_withinMappings.1 mapped
        exact ⟨mapping.choice, List.mem_append_left _ (List.mem_map_of_mem listed), inMapping⟩
      · cases fallback : reference.fallback with
        | none =>
          rw [fallback] at fallen
          cases fallen
        | some choice =>
          rw [fallback] at fallen
          exact ⟨choice, Reference.mem_choices_of_fallback fallback, fallen⟩
  · rintro (rfl | ⟨choice, held, inside⟩)
    · exact inner.self_mem_within
    · exact choice_within held inside

/-- What holds of a choice if it holds of the choices that its nodes hold. -/
theorem Choice.along_nodes {holds : Choice → Prop} (script : ∀ block, holds (.script block))
    (call : ∀ called, holds (.call called)) (nil : holds (.nodes []))
    (cons : ∀ (node : Node) (rest : List Node), (∀ choice ∈ node.choices, holds choice) →
      holds (.nodes rest) → holds (.nodes (node :: rest)))
    (choice : Choice) : holds choice := by
  induction choice using Choice.along with
  | script block => exact script block
  | call called => exact call called
  | nil => exact nil
  | text content rest later => exact cons _ rest (List.forall_mem_nil _) later
  | fork fork rest branches later => exact cons _ rest (List.forall_mem_map.2 branches) later
  | reference reference rest held later => exact cons _ rest held later

theorem Choice.mem_nested {inner : Choice} :
    inner ∈ choice.nested ↔ inner = choice ∨ ∃ node ∈ choice.within, inner ∈ node.choices := by
  rw [nested, List.mem_cons, List.mem_flatMap]

theorem Choice.nested_subset {outer : Choice} (inside : node ∈ outer.within)
    (held : choice ∈ node.choices) : choice.nested ⊆ outer.nested := by
  intro inner member
  rcases mem_nested.1 member with rfl | ⟨among, within, inAmong⟩
  · exact mem_nested.2 (.inr ⟨node, inside, held⟩)
  · exact mem_nested.2 (.inr ⟨among, within_subset_choice outer node inside
      (Node.choice_within held within), inAmong⟩)

/-- A choice lists the blocks that it is or has inside. -/
theorem Choice.mem_scripts : block ∈ choice.scripts ↔ .script block ∈ choice.nested := by
  rw [mem_nested]
  constructor
  · intro listed
    induction choice using Choice.along_nodes with
    | script other =>
      rw [scripts, List.mem_singleton] at listed
      exact .inl (by rw [listed])
    | call called => cases listed
    | nil => cases listed
    | cons node rest held later =>
      right
      rw [scripts, scriptsOfNodes, List.mem_append, Node.scripts_eq, List.mem_flatMap] at listed
      simp only [within, nodesWithin, List.mem_append]
      rcases listed with ⟨choice, inNode, inChoice⟩ | inRest
      · rcases held choice inNode inChoice with rfl | ⟨inner, inside, script⟩
        · exact ⟨node, .inl node.self_mem_within, inNode⟩
        · exact ⟨inner, .inl (Node.choice_within inNode inside), script⟩
      · rcases later inRest with none | ⟨inner, inside, script⟩
        · cases none
        · exact ⟨inner, .inr inside, script⟩
  · rintro (rfl | ⟨node, inside, held⟩)
    · exact List.mem_singleton_self _
    · refine scripts_subset_choice choice node inside ?_
      rw [Node.scripts_eq]
      exact List.mem_flatMap.2 ⟨_, held, List.mem_singleton_self _⟩

/-- The span of a block is inside the choice that lists it. -/
theorem Choice.span_mem_spans (listed : block ∈ choice.scripts) : block.span ∈ choice.spans := by
  rcases mem_nested.1 (mem_scripts.1 listed) with rfl | ⟨node, inside, held⟩
  · exact List.mem_append_left _ (List.mem_singleton_self _)
  · refine List.mem_append_right _ (List.mem_flatMap.2 ⟨node, inside, ?_⟩)
    exact List.mem_append_right _ (List.mem_filterMap.2 ⟨_, held, rfl⟩)

/-- A choice lists the blocks of every node inside it. -/
theorem Choice.scripts_sublist : ∀ node ∈ choice.within, node.scripts.Sublist choice.scripts := by
  induction choice using Choice.along_nodes with
  | script other => exact List.forall_mem_nil _
  | call called => exact List.forall_mem_nil _
  | nil => exact List.forall_mem_nil _
  | cons first rest held later =>
    intro node inside
    rw [scripts, scriptsOfNodes]
    rcases List.mem_append.1 inside with inFirst | inRest
    · refine List.Sublist.trans ?_ (List.sublist_append_left ..)
      rcases Node.mem_within.1 inFirst with rfl | ⟨choice, among, inChoice⟩
      · exact .refl _
      · refine (held choice among node inChoice).trans ?_
        rw [Node.scripts_eq first, List.flatMap_def]
        exact List.sublist_flatten_of_mem (List.mem_map_of_mem among)
    · exact (later node inRest).trans (List.sublist_append_right ..)

end Blocks

/-! ## Blocks in the order of the text -/

/-- Every block starts behind the ones before it. -/
def Ascend (blocks : List ScriptBlock) : Prop :=
  blocks.Pairwise fun one other => one.span.start < other.span.start

/-- The blocks of one choice or node start before those of another. -/
def StartBefore (front back : List ScriptBlock) : Prop :=
  ∀ one ∈ front, ∀ other ∈ back, one.span.start < other.span.start

/-- If the nodes of every sequence and the choices of every node have their blocks one after
another, the blocks ascend. -/
theorem Choice.ascend {choice : Choice}
    (sequences : ∀ nodes, .nodes nodes ∈ choice.nested →
      nodes.Pairwise fun one other => StartBefore one.scripts other.scripts)
    (choices : ∀ node ∈ choice.within,
      node.choices.Pairwise fun one other => StartBefore one.scripts other.scripts) :
    Ascend choice.scripts := by
  induction choice using Choice.along_nodes with
  | script block => exact List.pairwise_singleton _ block
  | call called => exact .nil
  | nil => exact .nil
  | cons node rest held later =>
    have here : node ∈ (Choice.nodes (node :: rest)).within :=
      List.mem_append_left _ node.self_mem_within
    have whole := sequences _ (mem_nested.2 (.inl rfl))
    obtain ⟨ahead, among⟩ := List.pairwise_cons.1 whole
    rw [scripts, scriptsOfNodes]
    refine List.pairwise_append.2 ⟨?_, later (fun nodes member => ?_) fun inner inside => ?_, ?_⟩
    · rw [Node.scripts_eq]
      refine List.pairwise_flatMap.2 ⟨fun choice inNode => ?_, choices node here⟩
      refine held choice inNode (fun nodes member => ?_) fun inner inside => ?_
      · exact sequences nodes (nested_subset here inNode member)
      · exact choices inner (List.mem_append_left _ (Node.choice_within inNode inside))
    · rcases mem_nested.1 member with same | ⟨inner, inside, inInner⟩
      · cases same
        exact among
      · exact sequences nodes
          (mem_nested.2 (.inr ⟨inner, List.mem_append_right _ inside, inInner⟩))
    · exact choices inner (List.mem_append_right _ inside)
    · intro one listed other behind
      rw [scriptsOfNodes_eq, List.mem_flatMap] at behind
      obtain ⟨follower, inRest, inFollower⟩ := behind
      exact ahead follower inRest one listed other inFollower

/-! ## Documents -/

/-- The mappings that hold script blocks stand in the text in the order of their indices, and each
choice that holds one is for one index. -/
def Reference.InStep (reference : Reference) : Prop :=
  reference.mappings.Pairwise fun one other => one.choice.scripts ≠ [] →
    other.choice.scripts ≠ [] → Precede one.choice.spans other.choice.spans

section Written

variable {source : List Char} {block : ScriptBlock}

theorem IsChoice.scripts_between {choice : Choice} {first last : Nat}
    (here : IsChoice source choice first last) (listed : block ∈ choice.scripts) :
    first ≤ block.span.start ∧ block.span.start < block.span.stop ∧ block.span.stop ≤ last :=
  here.spans_between _ (Choice.span_mem_spans listed)

theorem IsNode.scripts_between {node : Node} {start stop : Nat}
    (here : IsNode source node start stop) (listed : block ∈ node.scripts) :
    start < block.span.start ∧ block.span.start < block.span.stop ∧ block.span.stop < stop := by
  rw [Node.scripts_eq, List.mem_flatMap] at listed
  obtain ⟨choice, held, inChoice⟩ := listed
  obtain ⟨first, last, lower, written, upper⟩ := here.choices choice held
  have between := written.scripts_between inChoice
  omega

theorem IsAhead.startBefore {one other : Choice} (ahead : IsAhead source one other) :
    StartBefore one.scripts other.scripts := by
  obtain ⟨first, middle, start, last, here, order, there⟩ := ahead
  intro block listed follower behind
  have before := here.scripts_between listed
  have after := there.scripts_between behind
  omega

/-- Mappings that are in step have their blocks one after another. -/
theorem startBefore_of_precede {one other : Choice} {first last : Nat}
    (here : IsChoice source one first last)
    (inStep : one.scripts ≠ [] → other.scripts ≠ [] → Precede one.spans other.spans) :
    StartBefore one.scripts other.scripts := by
  intro block listed follower behind
  have precede := inStep (List.ne_nil_of_mem listed) (List.ne_nil_of_mem behind)
  have order := precede _ (Choice.span_mem_spans listed) _ (Choice.span_mem_spans behind)
  have between := here.scripts_between listed
  omega

/-- Two mappings whose blocks are one after another are in step. -/
theorem AreSeparate.precede {one other : Mapping} (separate : AreSeparate source one other)
    (before : StartBefore one.choice.scripts other.choice.scripts)
    (filled : one.choice.scripts ≠ []) (also : other.choice.scripts ≠ []) :
    Precede one.choice.spans other.choice.spans := by
  obtain ⟨block, listed⟩ := List.exists_mem_of_ne_nil _ filled
  obtain ⟨follower, behind⟩ := List.exists_mem_of_ne_nil _ also
  obtain ⟨-, same | ahead | ahead⟩ := separate
  · rw [← same] at before
    exact absurd (before block listed block listed) (Nat.lt_irrefl _)
  · exact ahead.precede
  · have order := before block listed follower behind
    have reverse := ahead.startBefore follower behind block listed
    omega

end Written

namespace Document

variable {source : List Char} {document : Document}

/-- The script blocks in the rules of the modes. -/
def ruleScripts (document : Document) : List ScriptBlock :=
  (document.modes.flatMap (·.rules)).flatMap (·.replacement.scripts)

theorem script_mem_choices {block : ScriptBlock} : .script block ∈ document.choices ↔
    block ∈ document.scripts ∨ block ∈ document.ruleScripts := by
  have ofNodes : block ∈ document.scripts ↔ .script block ∈ (Choice.nodes document.nodes).nested :=
    @Choice.mem_scripts block (.nodes document.nodes)
  simp only [choices, ruleScripts, List.mem_append, List.mem_flatMap, ofNodes, Choice.mem_scripts]

section Read

variable (read : Document.read source = .ok document)

include read

/-- The nodes of a sequence have their blocks one after another. -/
theorem startBefore_of_sequence {nodes : List Node} (member : nodes ∈ sequences document.nodes) :
    nodes.Pairwise fun one other => StartBefore one.scripts other.scripts := by
  have order : InOrder nodes := by
    obtain ⟨passage, first, last, written, rfl⟩ := isPassage_of_read read member
    exact List.pairwise_reverse.2 (inOrder_flush written.inOrder)
  refine order.imp_of_mem ?_
  intro one other inNodes alsoInNodes precede block listed follower behind
  have spanned : ∀ {node : Node} {block : ScriptBlock}, node ∈ nodes → block ∈ node.scripts →
      ∃ span, node.span? = some span ∧ span.start < block.span.start ∧
        block.span.start < block.span.stop ∧ block.span.stop < span.stop := by
    intro node block inNodes listed
    have within := nodesWithin_subset_of_mem_sequences member
      (within_subset_of_mem inNodes node.self_mem_within)
    cases span : node.span? with
    | none =>
      cases node <;> cases span
      cases listed
    | some found =>
      exact ⟨found, rfl, (isNode_of_read read within span).scripts_between listed⟩
  obtain ⟨span, here, between⟩ := spanned inNodes listed
  obtain ⟨later, there, after⟩ := spanned alsoInNodes behind
  have order := precede span (by simp [here]) later (by simp [there])
  omega

/-- So have the choices of a fork. -/
theorem startBefore_of_fork {fork : Fork} (within : .fork fork ∈ nodesWithin document.nodes) :
    (Node.fork fork).choices.Pairwise fun one other => StartBefore one.scripts other.scripts := by
  cases isNode_of_read read within (Option.mem_some_self _) with
  | fork opens inside entries filled closes =>
    exact List.pairwise_map.2
      (List.pairwise_reverse.2 (entries.inOrder.imp fun ahead => ahead.startBefore))

/-- So have the choices of a reference if, and only if, it is in step. -/
theorem startBefore_iff_inStep {reference : Reference}
    (within : .reference reference ∈ nodesWithin document.nodes) :
    (Node.reference reference).choices.Pairwise
      (fun one other => StartBefore one.scripts other.scripts) ↔ reference.InStep := by
  cases isNode_of_read read within (Option.mem_some_self _) with
  | reference opens inside mapped closes =>
    obtain ⟨separate, ahead⟩ := mapped.separate
    constructor
    · intro before
      have mappings := List.pairwise_map.1 (List.pairwise_append.1 before).1
      exact separate.imp₂ (fun _ _ separate before => separate.precede before) mappings
    · intro inStep
      have alone (fallback : Option Choice) :
          fallback.toList.Pairwise fun one other => StartBefore one.scripts other.scripts := by
        cases fallback with
        | none => exact .nil
        | some choice => exact List.pairwise_singleton _ choice
      refine List.pairwise_append.2 ⟨List.pairwise_map.2 (inStep.imp_of_mem ?_), alone _, ?_⟩
      · intro one other listed _ step
        obtain ⟨first, last, -, here, -⟩ := mapped.choices one.choice
          (List.mem_append_left _ (List.mem_map_of_mem listed))
        exact startBefore_of_precede here step
      · intro choice among fallback fallen
        obtain ⟨mapping, listed, rfl⟩ := List.mem_map.1 among
        exact (ahead fallback (Option.mem_toList.1 fallen) mapping listed).startBefore

end Read

/-- What the list of a document has. The script blocks anywhere in the document, in branches,
mappings and fallbacks at any depth, are listed, and those in the rules of its modes are the only
others; and the list follows the text, with each block once, exactly if in each reference the
mappings that hold script blocks stand in the order of their indices, each for one index. -/
theorem scripts_of_read (read : Document.read source = .ok document) :
    (∀ block, .script block ∈ document.choices ↔
      block ∈ document.scripts ∨ block ∈ document.ruleScripts) ∧
    (Ascend document.scripts ↔
      ∀ reference, .reference reference ∈ nodesWithin document.nodes → reference.InStep) := by
  refine ⟨fun block => script_mem_choices, fun ascend reference within => ?_, fun inStep => ?_⟩
  · rw [← startBefore_iff_inStep read within]
    have listed := ascend.sublist
      (@Choice.scripts_sublist (.nodes document.nodes) _ within)
    rw [Node.scripts_eq] at listed
    exact (List.pairwise_flatMap.1 listed).2
  · refine @Choice.ascend (.nodes document.nodes) (fun nodes member => ?_) ?_
    · refine startBefore_of_sequence read (mem_sequences.2 ?_)
      rcases Choice.mem_nested.1 member with same | inside
      · cases same
        exact .inl rfl
      · exact .inr inside
    · intro node within
      cases node with
      | text content => exact .nil
      | fork fork => exact startBefore_of_fork read within
      | reference reference => exact (startBefore_iff_inStep read within).2 (inStep _ within)

/-- A document with a script block in a branch, in each of two mappings and in the fallback. -/
def inStep : Document :=
  ⟨[.fork ⟨some "N", false, false, [⟨.script ⟨"x", ⟨4, 7⟩⟩, none⟩, ⟨.nodes [.text "b"], none⟩],
      ⟨0, 13⟩⟩,
    .reference ⟨"N", none, false, [⟨0, .script ⟨"y", ⟨23, 26⟩⟩⟩, ⟨1, .script ⟨"z", ⟨33, 36⟩⟩⟩],
      some (.script ⟨"w", ⟨38, 41⟩⟩), false, ⟨13, 42⟩⟩], [], []⟩

/-- Its list follows the text. -/
theorem scripts_of_read_inStep :
    Document.read "\x7bN: [x], (b)\x7d\x7b@N: 0 -> [y], 1 -> [z], [w]\x7d".toList = .ok inStep ∧
      (∀ block, .script block ∈ inStep.choices ↔
        block ∈ inStep.scripts ∨ block ∈ inStep.ruleScripts) ∧ Ascend inStep.scripts := by
  have read : Document.read "\x7bN: [x], (b)\x7d\x7b@N: 0 -> [y], 1 -> [z], [w]\x7d".toList =
      .ok inStep := by
    with_unfolding_all exact rfl
  obtain ⟨listed, ascend⟩ := scripts_of_read read
  refine ⟨read, listed, ascend.2 fun reference within => ?_⟩
  simp only [inStep, nodesWithin, Node.within, withinBranches, withinMappings, withinFallback,
    Choice.within, List.mem_append, List.mem_cons, List.not_mem_nil, or_false, false_or,
    Node.reference.injEq, reduceCtorEq] at within
  subst within
  simp [Reference.InStep, Precede, Choice.spans, Choice.span?, Choice.within]

/-- What is seen in the document that is read, as soon as it can be computed. -/
theorem exists_of_seen {source : List Char} {α : Type} {view : Document → α} {value : α}
    (seen : (Document.read source).toOption.map view = some value) :
    ∃ document, Document.read source = .ok document ∧ view document = value := by
  cases read : Document.read source with
  | error error =>
    rw [read] at seen
    cases seen
  | ok document =>
    rw [read] at seen
    exact ⟨document, rfl, Option.some.inj seen⟩

/-- The list is not that of all script blocks, each once and in the order of the text: a block in
the rule of a mode is passed over, one behind two indices is listed twice, and one in front of
another is listed behind it if its index is greater. -/
theorem not_scripts_inOrder :
    (∃ document, Document.read "\x7bmode M: \"a\" -> [x]\x7d".toList = .ok document ∧
      .script ⟨"x", ⟨16, 19⟩⟩ ∈ document.choices ∧ document.scripts = []) ∧
    (∃ document, Document.read "\x7bN: (a), (b)\x7d\x7b@N: 0, 1 -> [x]\x7d".toList = .ok document ∧
      document.scripts = [⟨"x", ⟨26, 29⟩⟩, ⟨"x", ⟨26, 29⟩⟩]) ∧
    ∃ document,
      Document.read "\x7bN: (a), (b)\x7d\x7b@N: 1 -> [x], 0 -> [y]\x7d".toList = .ok document ∧
      document.scripts = [⟨"y", ⟨33, 36⟩⟩, ⟨"x", ⟨23, 26⟩⟩] := by
  refine ⟨?_, exists_of_seen (by decide +kernel), exists_of_seen (by decide +kernel)⟩
  have seen : (Document.read "\x7bmode M: \"a\" -> [x]\x7d".toList).toOption.map
      (fun document => (document.scripts, document.ruleScripts)) =
        some ([], [⟨"x", ⟨16, 19⟩⟩]) := by
    decide +kernel
  obtain ⟨document, read, same⟩ := exists_of_seen seen
  obtain ⟨listed, ruled⟩ := Prod.mk.inj same
  exact ⟨document, read, script_mem_choices.2 (.inr (ruled ▸ List.mem_singleton_self _)), listed⟩

end Document

end BranchText
