import BranchText.Proofs.Reading.Nested
import Mathlib.Data.List.Pairwise

/-!
# Spans

The spans of a document cut their parts out of the source: forks and references from brace to brace,
script blocks from bracket to bracket. What a node holds lies inside its span, what follows one
another in the text has spans that do, and nodes with one start are one node, which a reference
holds several times because it maps a list of branches to one choice.
-/

namespace BranchText

/-! ## The spans of a document -/

/-- The span of a choice that is no sequence. -/
def Choice.span? : Choice → Option Span
  | .nodes _ => none
  | .script block => some block.span
  | .call called => some called.span

/-- The span of a node, and those of the script blocks and calls that it chooses among. -/
def Node.spans (node : Node) : List Span :=
  node.span?.toList ++ node.choices.filterMap Choice.span?

/-- The spans of everything inside a choice. -/
def Choice.spans (choice : Choice) : List Span :=
  choice.span?.toList ++ choice.within.flatMap Node.spans

/-- Every choice of a document, which is one itself, and of the rules of its modes. -/
def Document.choices (document : Document) : List Choice :=
  (Choice.nodes document.nodes).nested ++
    (document.modes.flatMap (·.rules)).flatMap (·.replacement.nested)

/-- A span that starts with an opening brace and ends with a closing one. -/
structure IsBraced (source : List Char) (span : Span) : Prop where
  filled : span.start < span.stop
  inside : span.stop ≤ byteLength source
  opens : (bytesOf source)[span.start]? = some '{'
  closes : (bytesOf source)[span.stop - 1]? = some '}'

/-- A script block whose span holds its text between two brackets. -/
def IsBracketed (source : List Char) (block : ScriptBlock) : Prop :=
  ∃ front back, source = front ++ '[' :: block.source.toList ++ ']' :: back ∧
    block.span = ⟨byteLength front, byteLength (front ++ '[' :: block.source.toList ++ [']'])⟩

/-- Spans that end before others start. -/
def Precede (front back : List Span) : Prop :=
  ∀ one ∈ front, ∀ other ∈ back, one.stop ≤ other.start

/-- The nodes follow one another in the text. -/
def InOrder (nodes : List Node) : Prop :=
  nodes.Pairwise fun one other => Precede one.span?.toList other.span?.toList

/-- The node is in a choice that a reference among the nodes has for two branches. -/
def IsShared (nodes : List Node) (node : Node) : Prop :=
  ∃ reference, .reference reference ∈ nodes ∧
    ∃ first ∈ reference.mappings, ∃ second ∈ reference.mappings, first.branch ≠ second.branch ∧
      first.choice = second.choice ∧ node ∈ first.choice.within

/-- Two nodes that start at one place are equal, and made for two branches of an index list. -/
def AreClones (nodes : List Node) (one other : Node) : Prop :=
  ∀ place, one.start? = some place → other.start? = some place → one = other ∧ IsShared nodes one

/-- The spans of a document, against its source. -/
structure Document.Spanned (document : Document) (source : List Char) : Prop where
  braced : ∀ node ∈ nodesWithin document.nodes, ∀ span ∈ node.span?, IsBraced source span
  bracketed : ∀ block, .script block ∈ document.choices → IsBracketed source block
  inside : ∀ node ∈ nodesWithin document.nodes, ∀ span ∈ node.span?, ∀ choice ∈ node.choices,
    ∀ inner ∈ choice.spans, span.start < inner.start ∧ inner.stop < span.stop
  sequences : ∀ nodes ∈ sequences document.nodes, InOrder nodes
  entries : ∀ fork, .fork fork ∈ nodesWithin document.nodes →
    fork.branches.Pairwise fun one other => Precede one.choice.spans other.choice.spans
  clones : (nodesWithin document.nodes).Pairwise (AreClones (nodesWithin document.nodes))

section Spans

variable {source : List Char} {first last start stop : Nat}

theorem IsNode.lt {node : Node} (here : IsNode source node start stop) : start < stop := by
  cases here with
  | fork opens inside entries filled closes =>
    have forward := entries.placed.order
    have outside := closes.lt
    omega
  | reference opens inside mapped closes =>
    have forward := mapped.placed.order
    have outside := closes.lt
    omega

/-- An ASCII character that stands at a place is the byte there. -/
theorem StandsAt.byte {c : Char} (stands : StandsAt source first [c]) (ascii : isAscii c = true) :
    (bytesOf source)[first]? = some c := by
  obtain ⟨rest, isIn⟩ := stands
  have bytes := isIn.drop_bytesOf
  rw [List.cons_append, bytesOf_of_isAscii ascii] at bytes
  exact (Indexed.getElem?_of_drop bytes).1

theorem StandsAt.lt {c : Char} (stands : StandsAt source first [c]) :
    first < byteLength source := by
  obtain ⟨rest, isIn⟩ := stands
  have total := isIn.stop_eq
  have positive := c.utf8Size_pos
  rw [List.cons_append, byteLength_cons] at total
  dsimp only at total
  omega

/-- Nodes are written from brace to brace. -/
theorem IsNode.braced {node : Node} (here : IsNode source node start stop) :
    IsBraced source ⟨start, stop⟩ := by
  have both : StandsAt source start ['{'] ∧ ∃ last, IsClosed source last stop := by
    cases here with
    | fork opens _ _ _ closes => exact ⟨opens, _, closes⟩
    | reference opens _ _ closes => exact ⟨opens, _, closes⟩
  obtain ⟨opens, last, close, -, closes, rfl⟩ := both
  exact ⟨here.lt, closes.lt, opens.byte (by decide), closes.byte (by decide)⟩

/-- Script blocks are written from bracket to bracket. -/
theorem IsChoice.bracketed {block : ScriptBlock}
    (here : IsChoice source (.script block) first last) : IsBracketed source block := by
  cases here with
  | script behind stands measured =>
    rename_i text start
    obtain ⟨rest, front, split, offset⟩ := stands
    dsimp only at split offset
    refine ⟨front, rest, ?_, ?_⟩
    · rw [split, String.toList_ofList]
      simp
    · rw [String.toList_ofList, List.append_assoc, byteLength_append, offset, measured]

/-- The span of a choice lies between the places that it is written between. -/
theorem IsChoice.span?_between {choice : Choice} (here : IsChoice source choice first last)
    {span : Span} (member : choice.span? = some span) :
    first ≤ span.start ∧ span.start < span.stop ∧ span.stop ≤ last := by
  cases here with
  | nodes => cases member
  | script behind stands measured =>
    cases member
    have positive := '['.utf8Size_pos
    rw [List.cons_append, byteLength_cons] at measured
    dsimp only
    omega
  | call behind filled =>
    cases member
    exact ⟨behind, filled, Nat.le_refl _⟩

/-- So do all spans inside it. -/
theorem IsChoice.spans_between {choice : Choice} (here : IsChoice source choice first last) :
    ∀ span ∈ choice.spans, first ≤ span.start ∧ span.start < span.stop ∧ span.stop ≤ last := by
  intro span member
  rcases List.mem_append.1 member with own | inside
  · exact here.span?_between (Option.mem_toList.1 own)
  · obtain ⟨node, within, listed⟩ := List.mem_flatMap.1 inside
    rcases node.text_or_start with ⟨content, rfl⟩ | ⟨place, stands⟩
    · cases listed
    obtain ⟨stop, written, lower, upper⟩ := here.placed.written node within place stands
    rcases List.mem_append.1 listed with own | chosen
    · rw [written.span?_eq, Option.toList_some, List.mem_singleton] at own
      subst own
      exact ⟨lower, written.lt, upper⟩
    · obtain ⟨choice, among, same⟩ := List.mem_filterMap.1 chosen
      obtain ⟨first, last, behind, choiceHere, before⟩ := written.choices choice among
      obtain ⟨start, filled, stop⟩ := choiceHere.span?_between same
      exact ⟨by omega, filled, by omega⟩

/-! ## What follows one another -/

/-- One choice is written before another. -/
def IsAhead (source : List Char) (one other : Choice) : Prop :=
  ∃ first middle start last, IsChoice source one first middle ∧ middle ≤ start ∧
    IsChoice source other start last

theorem IsAhead.precede {one other : Choice} (ahead : IsAhead source one other) :
    Precede one.spans other.spans := by
  obtain ⟨first, middle, start, last, here, order, there⟩ := ahead
  intro span member follower listed
  have before := here.spans_between span member
  have behind := there.spans_between follower listed
  omega

/-- The entries of a fork follow one another, here the last one first. -/
theorem AreEntries.inOrder {branches : List Branch} {first last : Nat}
    (read : AreEntries source branches first last) :
    branches.Pairwise fun later earlier => IsAhead source earlier.choice later.choice := by
  induction read using AreEntries.along with
  | none => exact .nil
  | entry before behind chosen weighed order ih =>
    refine List.pairwise_cons.2 ⟨fun branch member => ?_, ih⟩
    obtain ⟨start, stop, place, -, here, weighed, upper⟩ := before.entries branch member
    have weightOrder := weighed.order
    exact ⟨start, stop, _, _, here, by omega, chosen⟩

/-- Mappings of different branches, to one choice or to two that do not overlap. -/
def AreSeparate (source : List Char) (one other : Mapping) : Prop :=
  one.branch ≠ other.branch ∧ (one.choice = other.choice ∨
    IsAhead source one.choice other.choice ∨ IsAhead source other.choice one.choice)

theorem AreSeparate.symm {one other : Mapping} (separate : AreSeparate source one other) :
    AreSeparate source other one := by
  obtain ⟨different, same | ahead | behind⟩ := separate
  · exact ⟨different.symm, .inl same.symm⟩
  · exact ⟨different.symm, .inr (.inr ahead)⟩
  · exact ⟨different.symm, .inr (.inl behind)⟩

theorem perm_insertMapping (extra : Mapping) (mappings : List Mapping) :
    (Reader.insertMapping extra mappings).Perm (extra :: mappings) := by
  induction mappings with
  | nil => exact .refl _
  | cons other rest ih =>
    rw [Reader.insertMapping]
    split
    · exact .refl _
    · exact (ih.cons other).trans (.swap extra other rest)

/-- A list of indices adds mappings to one choice, each of another branch. -/
theorem separate_of_addMappings {choice : Choice} {indices : List (Nat × Nat)}
    {found mapped : List Mapping} (added : Reader.addMappings choice indices found = .ok mapped)
    (separate : found.Pairwise (AreSeparate source))
    (ahead : ∀ mapping ∈ found, mapping.choice = choice ∨ IsAhead source mapping.choice choice) :
    mapped.Pairwise (AreSeparate source) := by
  induction indices generalizing found with
  | nil =>
    cases added
    exact separate
  | cons entry rest ih =>
    obtain ⟨branch, offset⟩ := entry
    rw [Reader.addMappings] at added
    split at added
    · cases added
    · rename_i fresh
      simp only [List.any_eq_true, decide_eq_true_eq, not_exists, not_and] at fresh
      refine ih added ?_ fun mapping member => ?_
      · refine ((perm_insertMapping _ _).pairwise_iff AreSeparate.symm).2
          (List.pairwise_cons.2 ⟨fun mapping member => ?_, separate⟩)
        refine ⟨Ne.symm (fresh mapping member), ?_⟩
        exact (ahead mapping member).imp Eq.symm .inr
      · rcases Reader.mem_insertMapping member with rfl | before
        · exact .inl rfl
        · exact ahead mapping before

/-- What a mapping has is written before what comes behind the mappings. -/
theorem AreMapped.isAhead {mappings : List Mapping} {fallback : Option Choice}
    {choice : Choice} (before : AreMapped source mappings fallback first last)
    (order : last ≤ start) (chosen : IsChoice source choice start stop) :
    ∀ mapping ∈ mappings, IsAhead source mapping.choice choice := by
  intro mapping member
  obtain ⟨place, close, -, here, upper⟩ :=
    before.choices _ (List.mem_append_left _ (List.mem_map_of_mem member))
  exact ⟨place, close, start, stop, here, by omega, chosen⟩

/-- The mappings of a reference are separate, and its fallback is written behind them. -/
theorem AreMapped.separate {mappings : List Mapping} {fallback : Option Choice}
    {first last : Nat} (read : AreMapped source mappings fallback first last) :
    mappings.Pairwise (AreSeparate source) ∧
      ∀ choice ∈ fallback, ∀ mapping ∈ mappings, IsAhead source mapping.choice choice := by
  induction read using AreMapped.along with
  | none =>
    refine ⟨.nil, ?_⟩
    rintro choice ⟨⟩
  | mapped before behind chosen added _ ih =>
    refine ⟨separate_of_addMappings added ih.1 fun mapping member =>
      .inr (before.isAhead behind chosen mapping member), ?_⟩
    rintro choice ⟨⟩
  | fallback before behind chosen _ ih =>
    refine ⟨ih.1, ?_⟩
    rintro choice ⟨⟩
    exact before.isAhead behind chosen

/-- Text has no place, so that it may be joined anywhere. -/
theorem inOrder_flush {passage : Passage}
    (order : passage.nodes.Pairwise fun later earlier =>
      Precede earlier.span?.toList later.span?.toList) :
    passage.flush.Pairwise fun later earlier =>
      Precede earlier.span?.toList later.span?.toList := by
  have ofText : ∀ {content : String} {nodes : List Node}, ∀ node ∈ nodes,
      Precede node.span?.toList (Node.text content).span?.toList :=
    fun _ _ _ _ _ member => absurd member List.not_mem_nil
  unfold Passage.flush
  split
  · exact order
  · split
    · rename_i same
      rw [same] at order
      exact List.pairwise_cons.2 ⟨ofText, (List.pairwise_cons.1 order).2⟩
    · exact List.pairwise_cons.2 ⟨ofText, order⟩

/-- The nodes of a passage follow one another, here the last one first. -/
theorem IsPassage.inOrder {passage : Passage} {first last : Nat}
    (read : IsPassage source passage first last) :
    passage.nodes.Pairwise fun later earlier =>
      Precede earlier.span?.toList later.span?.toList := by
  induction read using IsPassage.along with
  | empty => exact .nil
  | text before content order ih => exact ih
  | nothing before order ih => exact inOrder_flush ih
  | node before behind here order ih =>
    refine List.pairwise_cons.2 ⟨fun node member span listed other behindIt => ?_,
      inOrder_flush ih⟩
    rcases node.text_or_start with ⟨content, rfl⟩ | ⟨place, stands⟩
    · cases listed
    have placed := (before.nothing (Nat.le_refl _)).placed
    obtain ⟨stop, written, -, upper⟩ := placed.written node
      (within_subset_of_mem member (Node.self_mem_within node)) place stands
    rw [written.span?_eq, Option.toList_some, List.mem_singleton] at listed
    rw [here.span?_eq, Option.toList_some, List.mem_singleton] at behindIt
    subst listed behindIt
    dsimp only
    omega

/-! ## Clones -/

/-- No two of the nodes were read at the same place. -/
def Unmixed (nodes : List Node) : Prop :=
  ∀ node ∈ nodes, ∀ other ∈ nodes, ∀ place,
    node.start? = some place → other.start? = some place → node = other

section Clones

variable {front back : List Node} {one other : Node}

theorem AreClones.symm (clones : AreClones front one other) : AreClones front other one := by
  intro place here there
  obtain ⟨same, shared⟩ := clones place there here
  exact ⟨same.symm, same ▸ shared⟩

theorem AreClones.mono (clones : AreClones front one other)
    (references : ∀ reference, .reference reference ∈ front → .reference reference ∈ back) :
    AreClones back one other := by
  intro place here there
  obtain ⟨same, reference, member, mapped⟩ := clones place here there
  exact ⟨same, reference, references reference member, mapped⟩

/-- All nodes that start at one place are clones. -/
def Clones (nodes : List Node) : Prop := nodes.Pairwise (AreClones nodes)

/-- The same forks and references in another order, with or without text. -/
theorem Clones.perm (clones : Clones front)
    (same : (front.filter (·.start?.isSome)).Perm (back.filter (·.start?.isSome))) :
    Clones back := by
  have references : ∀ reference, .reference reference ∈ front → .reference reference ∈ back := by
    intro reference member
    have marked : .reference reference ∈ front.filter (·.start?.isSome) :=
      List.mem_filter.2 ⟨member, rfl⟩
    exact (List.mem_filter.1 (same.subset marked)).1
  have kept : (front.filter (·.start?.isSome)).Pairwise (AreClones back) :=
    (clones.imp fun clones => clones.mono references).sublist List.filter_sublist
  have moved := List.pairwise_filter.1 ((same.pairwise_iff AreClones.symm).1 kept)
  refine moved.imp fun clones place here there => ?_
  exact clones (by rw [here]; rfl) (by rw [there]; rfl) place here there

/-- No place starts a node of both. -/
def StartApart (front back : List Node) : Prop :=
  ∀ one ∈ front, ∀ other ∈ back, ∀ place, one.start? = some place → other.start? ≠ some place

theorem StartApart.symm (apart : StartApart front back) : StartApart back front :=
  fun one member other listed place here there => apart other listed one member place there here

theorem Placed.apart {middle : Nat} (before : Placed source front first middle)
    (behind : Placed source back start last) (order : middle ≤ start) : StartApart front back := by
  intro one member other listed place here there
  obtain ⟨stop, written, -, upper⟩ := before.written one member place here
  obtain ⟨-, -, lower, -⟩ := behind.written other listed place there
  have filled := written.lt
  omega

theorem IsAhead.apart {one other : Choice} (ahead : IsAhead source one other) :
    StartApart one.within other.within := by
  obtain ⟨first, middle, start, last, here, order, there⟩ := ahead
  exact here.placed.apart there.placed order

theorem Clones.append (before : Clones front) (behind : Clones back)
    (apart : StartApart front back) : Clones (front ++ back) := by
  refine List.pairwise_append.2 ⟨before.imp fun clones => clones.mono fun _ =>
    List.mem_append_left _, behind.imp fun clones => clones.mono fun _ =>
    List.mem_append_right _, fun one member other listed place here there => ?_⟩
  exact absurd there (apart one member other listed place here)

theorem Clones.unmixed (clones : Clones front) : Unmixed front := by
  let AreEqual (one other : Node) : Prop := ∀ place,
    one.start? = some place → other.start? = some place → one = other
  have symm : Std.Symm AreEqual :=
    ⟨fun _ _ same place here there => (same place there here).symm⟩
  have equal : front.Pairwise AreEqual :=
    clones.imp fun clones place here there => (clones place here there).1
  intro one member other listed
  exact equal.forall_of_forall (fun _ _ _ _ _ => rfl) member listed

theorem filter_flush (passage : Passage) :
    (nodesWithin passage.flush).filter (·.start?.isSome) =
      (nodesWithin passage.nodes).filter (·.start?.isSome) := by
  have ofText : ∀ content, (Node.text content).within.filter (·.start?.isSome) = [] :=
    fun _ => rfl
  unfold Passage.flush
  split
  · rfl
  · split
    · rename_i same
      rw [same, nodesWithin, nodesWithin, List.filter_append, List.filter_append, ofText, ofText]
    · rw [nodesWithin, List.filter_append, ofText, List.nil_append]

/-- A node that starts before everything within it. -/
theorem Clones.cons (behind : Clones back) (placed : Placed source back first last)
    {node : Node} (stands : node.start? = some start) (order : start < first) :
    Clones (node :: back) := by
  refine Clones.append (List.pairwise_singleton _ node) behind fun one member other listed => ?_
  rw [List.mem_singleton.1 member]
  intro place here there
  obtain ⟨-, -, lower, -⟩ := placed.written other listed place there
  rw [stands] at here
  cases here
  omega

/-- What a reference has for several branches of a list is one choice, which stands there once for
each of them. -/
theorem clones_reference {reference : Reference}
    (mapped : ∀ mapping ∈ reference.mappings, Clones mapping.choice.within)
    (fallen : Clones (withinFallback reference.fallback))
    (separate : reference.mappings.Pairwise (AreSeparate source))
    (ahead : ∀ choice ∈ reference.fallback, ∀ mapping ∈ reference.mappings,
      IsAhead source mapping.choice choice)
    (placed : Placed source reference.nested first last) (order : reference.span.start < first) :
    Clones (.reference reference :: reference.nested) := by
  have inMappings : ∀ mapping ∈ reference.mappings,
      mapping.choice.within ⊆ .reference reference :: reference.nested := fun mapping listed =>
    List.Subset.trans (within_subset_of_mapping listed)
      (List.subset_cons_of_subset _ (List.subset_append_left ..))
  have inFallback :
      withinFallback reference.fallback ⊆ .reference reference :: reference.nested :=
    List.subset_cons_of_subset _ (List.subset_append_right ..)
  refine List.pairwise_cons.2 ⟨fun other listed place here there => ?_, ?_⟩
  · obtain ⟨-, -, lower, -⟩ := placed.written other listed place there
    cases here
    omega
  refine List.pairwise_append.2 ⟨?_, fallen.imp fun clones => clones.mono fun _ =>
    (inFallback ·), fun one member other listed place here there => ?_⟩
  · rw [withinMappings_eq, List.pairwise_flatMap]
    refine ⟨fun mapping listed => (mapped mapping listed).imp fun clones =>
      clones.mono fun _ => (inMappings mapping listed ·), separate.imp_of_mem ?_⟩
    rintro one other member listed ⟨different, same | before | behind⟩ node inside clone insideToo
      place here there
    · rw [← same] at insideToo
      have equal := (mapped one member).unmixed node inside clone insideToo place here there
      exact ⟨equal, reference, List.mem_cons_self .., one, member, other, listed, different, same,
        inside⟩
    · exact absurd there (before.apart node inside clone insideToo place here)
    · exact absurd here (behind.apart clone insideToo node inside place there)
  · obtain ⟨mapping, among, inside⟩ := mem_withinMappings.1 member
    cases fallback : reference.fallback with
    | none =>
      rw [fallback] at listed
      cases listed
    | some choice =>
      rw [fallback] at listed
      exact absurd there
        ((ahead choice fallback mapping among).apart one inside other listed place here)

end Clones

mutual

theorem IsPassage.clones {passage : Passage} {first last : Nat} :
    IsPassage source passage first last → Clones (nodesWithin passage.nodes)
  | .empty _ => .nil
  | .text before _ _ => before.clones
  | .nothing before _ => before.clones.perm (by rw [Passage.addBlock, filter_flush])
  | .node before behind here _ => by
    have placed := (before.nothing (Nat.le_refl _)).placed
    rw [Passage.addBlock, nodesWithin]
    exact here.clones.append (before.clones.perm (by rw [filter_flush]))
      (placed.apart here.placedWithin behind).symm

theorem AreEntries.clones {branches : List Branch} {first last : Nat} :
    AreEntries source branches first last → Clones (withinBranches branches)
  | .none _ => .nil
  | .entry before behind chosen _ _ => by
    rw [withinBranches]
    exact chosen.clones.append before.clones (before.placed.apart chosen.placed behind).symm

theorem AreMapped.clones {mappings : List Mapping} {fallback : Option Choice} {first last : Nat} :
    AreMapped source mappings fallback first last →
      (∀ mapping ∈ mappings, Clones mapping.choice.within) ∧ Clones (withinFallback fallback)
  | .none _ => ⟨fun _ member => (nomatch member), .nil⟩
  | .mapped before _ chosen added _ => by
    refine ⟨fun mapping member => ?_, .nil⟩
    rcases Reader.yields_mapped _ added mapping member with same | earlier
    · rw [same]
      exact chosen.clones
    · exact before.clones.1 mapping earlier
  | .fallback before _ chosen _ => ⟨before.clones.1, chosen.clones⟩

theorem IsNode.clones {node : Node} {start stop : Nat} :
    IsNode source node start stop → Clones node.within
  | .fork _ inside entries _ _ => by
    refine Clones.cons (entries.clones.perm ?_) entries.placed.reverse rfl inside
    rw [withinBranches_eq, withinBranches_eq]
    exact ((List.reverse_perm _).flatMap_right _).symm.filter _
  | .reference _ inside mapped _ =>
    clones_reference mapped.clones.1 mapped.clones.2 mapped.separate.1 mapped.separate.2
      mapped.placed inside

theorem IsChoice.clones {choice : Choice} {first last : Nat} :
    IsChoice source choice first last → Clones choice.within
  | .nodes _ read => by
    refine read.clones.perm ?_
    rw [← filter_flush, Choice.within, Passage.close, nodesWithin_eq, nodesWithin_eq]
    exact ((List.reverse_perm _).flatMap_right _).symm.filter _
  | .script _ _ _ => .nil
  | .call _ _ => .nil

end

end Spans

namespace Document

variable {source : List Char} {document : Document}

/-- Every script block of a document that was read is written in its source. -/
theorem isBracketed_of_read (read : Document.read source = .ok document) {block : ScriptBlock}
    (member : .script block ∈ document.choices) : IsBracketed source block := by
  rcases List.mem_append.1 member with inNodes | inModes
  · obtain ⟨first, last, here⟩ := (isChoice_of_read read).nested _ inNodes
    exact here.bracketed
  · obtain ⟨rule, ofMode, nested⟩ := List.mem_flatMap.1 inModes
    obtain ⟨mode, declared, listed⟩ := List.mem_flatMap.1 ofMode
    obtain ⟨-, first, last, -, -, rules⟩ := (isWritten_of_read read).2 mode declared
    rcases rules rule listed with ⟨content, literal⟩ | ⟨start, stop, -, written, -⟩
    · rw [literal] at nested
      simp [Choice.nested, Choice.within, nodesWithin, Node.within, Node.choices] at nested
    · obtain ⟨first, last, here⟩ := written.nested _ nested
      exact here.bracketed

/-- The spans of a document that was read are where its parts stand in the source. -/
theorem spanned_of_read (read : Document.read source = .ok document) :
    document.Spanned source where
  braced node within span member := (isNode_of_read read within member).braced
  bracketed block := isBracketed_of_read read
  inside node within span member choice among inner inside := by
    obtain ⟨first, last, lower, written, upper⟩ :=
      (isNode_of_read read within member).choices choice among
    obtain ⟨behind, -, before⟩ := written.spans_between inner inside
    exact ⟨Nat.lt_of_lt_of_le lower behind, Nat.lt_of_le_of_lt before upper⟩
  sequences nodes member := by
    obtain ⟨passage, first, last, written, rfl⟩ := isPassage_of_read read member
    exact List.pairwise_reverse.2 (inOrder_flush written.inOrder)
  entries fork within := by
    cases isNode_of_read read within (Option.mem_some_self _) with
    | fork opens inside entries filled closes =>
      exact List.pairwise_reverse.2 (entries.inOrder.imp fun ahead => ahead.precede)
  clones := (isChoice_of_read read).clones

/-- No two nodes of a document that was read stand at the same place, however deep they lie. -/
theorem unmixed_of_read (read : Document.read source = .ok document) :
    Unmixed (nodesWithin document.nodes) := (isChoice_of_read read).clones.unmixed

/-- A document whose reference has one fork for both branches of its target. -/
def cloning : Document :=
  let clone : Choice := .nodes [.fork ⟨none, false, false, [⟨.nodes [.text "c"], none⟩], ⟨27, 32⟩⟩]
  ⟨[.fork ⟨some "N", false, false, [⟨.script ⟨"x", ⟨4, 7⟩⟩, none⟩, ⟨.nodes [.text "b"], none⟩],
      ⟨0, 13⟩⟩,
    .reference ⟨"N", none, false, [⟨0, clone⟩, ⟨1, clone⟩], none, false, ⟨13, 34⟩⟩], [], []⟩

/-- Its spans, the two equal ones too, are where its parts stand. -/
theorem spanned_of_read_cloning :
    Document.read "\x7bN: [x], (b)\x7d\x7b@N: 0, 1 -> (\x7b(c)\x7d)\x7d".toList = .ok cloning ∧
      cloning.Spanned "\x7bN: [x], (b)\x7d\x7b@N: 0, 1 -> (\x7b(c)\x7d)\x7d".toList := by
  have read : Document.read "\x7bN: [x], (b)\x7d\x7b@N: 0, 1 -> (\x7b(c)\x7d)\x7d".toList =
      .ok cloning := by
    with_unfolding_all exact rfl
  exact ⟨read, spanned_of_read read⟩

end Document

end BranchText
