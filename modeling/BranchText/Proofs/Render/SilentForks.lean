import BranchText.Proofs.Document.Rephrasing
import BranchText.Proofs.Render.Dormant
import BranchText.Proofs.Render.Pairs

/-!
# Silent forks leak only their index

Two documents that differ only in the texts of silent forks with a name render alike, if every
reference to the name has something else to render than those texts. The two renders draw the same;
their ledgers differ in the forks that are recorded, and in the text that is recorded under the
name, which nothing puts out.
-/

namespace BranchText

/-- The fork with other texts, and the same weights left. -/
def LiveFork.rephrased (name : String) (texts : Nat → String) (live : LiveFork) : LiveFork :=
  ⟨live.fork.rephrased name texts, live.deck⟩

@[simp]
theorem LiveFork.ofFork_rephrased {name : String} {texts : Nat → String} (fork : Fork) :
    LiveFork.ofFork (fork.rephrased name texts) = (ofFork fork).rephrased name texts :=
  congrArg (LiveFork.mk _) fork.deck_rephrased

/-- The records are of forks that differ in their texts. Only under the name they may have given
different ones. -/
structure Record.Rephrases (name : String) (texts : Nat → String) (key : String)
    (entry other : Record) : Prop where
  live : other.live = entry.live.rephrased name texts
  chosen : other.chosen = entry.chosen
  origin : other.origin = entry.origin
  rendered : key ≠ name → other.rendered = entry.rendered

namespace Rendering

/-- The fork is one of the nodes, and recorded under the name if it has the name. -/
structure Owns (nodes : List Node) (name key : String) (live : LiveFork) : Prop where
  within : .fork live.fork ∈ nodesWithin nodes
  named : live.fork.identifier = some name → key = name

/-- The second state is the first one with other texts. -/
structure Veiled (nodes : List Node) (name : String) (texts : Nat → String)
    (left right : RenderState) : Prop where
  generator : right.generator = left.generator
  warnings : right.warnings = left.warnings
  ledger : ∀ key, Option.Rel (Record.Rephrases name texts key) (left.ledger.get? key)
    (right.ledger.get? key)
  anonymousSets : ∀ offset, right.anonymousSets.get? offset =
    (left.anonymousSets.get? offset).map (LiveFork.rephrased name texts)
  recorded : ∀ key entry, left.ledger.get? key = some entry → Owns nodes name key entry.live
  kept : ∀ offset live, left.anonymousSets.get? offset = some live →
    .fork live.fork ∈ nodesWithin nodes ∧ live.fork.identifier = none

variable {nodes : List Node} {name : String} {texts : Nat → String}

theorem veiled_initial (generator : Generator) :
    Veiled nodes name texts (.initial generator) (.initial generator) where
  generator := rfl
  warnings := rfl
  ledger _ := .none
  anonymousSets _ := rfl
  recorded _ _ found := by cases found
  kept _ _ found := by cases found

namespace Veiled

variable {left right : RenderState} (veiled : Veiled nodes name texts left right)
include veiled

theorem noted (event other : Event) :
    Veiled nodes name texts (left.noted event) (right.noted other) :=
  { veiled with }

theorem recording {key : String} {entry other : Record}
    (rephrases : entry.Rephrases name texts key other) (owns : Owns nodes name key entry.live) :
    Veiled nodes name texts (left.recording key entry) (right.recording key other) := by
  refine { veiled with ledger := fun found => ?_, recorded := fun found present given => ?_ }
  · rw [RenderState.get?_recording, RenderState.get?_recording]
    split
    · rename_i same
      exact .some (same ▸ rephrases)
    · exact veiled.ledger found
  · rw [RenderState.get?_recording] at given
    split at given
    · rename_i same
      cases given
      exact same ▸ owns
    · exact veiled.recorded found present given

/-- What is recorded under a key in both states. -/
theorem origin (key : String) :
    (right.ledger.get? key).map (·.origin) = (left.ledger.get? key).map (·.origin) := by
  have here := veiled.ledger key
  generalize left.ledger.get? key = entry, right.ledger.get? key = other at here ⊢
  cases here with
  | none => rfl
  | some rephrases => exact congrArg some rephrases.origin

theorem registering {fork : Fork} (within : .fork fork ∈ nodesWithin nodes) :
    Veiled nodes name texts (left.registering fork)
      (right.registering (fork.rephrased name texts)) := by
  unfold RenderState.registering
  simp only [Fork.identifier_rephrased, Fork.span_rephrased, LiveFork.ofFork_rephrased]
  cases identifier : fork.identifier with
  | none => exact veiled
  | some key =>
    simp only [veiled.origin key]
    split
    · exact veiled
    · have owns : Owns nodes name key (.ofFork fork) :=
        ⟨within, fun named => Option.some.inj (identifier.symm.trans named)⟩
      exact veiled.recording ⟨rfl, rfl, rfl, fun _ => rfl⟩ owns

theorem keeping {fork : Fork} {live : LiveFork} (within : .fork live.fork ∈ nodesWithin nodes)
    (named : ∀ key, live.fork.identifier = some name → fork.identifier = some key → key = name)
    (unnamed : fork.identifier = none → live.fork.identifier = none) (index : Nat)
    {rendered other : String} (seen : fork.identifier ≠ some name → other = rendered) :
    Veiled nodes name texts (left.keeping fork live index rendered)
      (right.keeping (fork.rephrased name texts) (live.rephrased name texts) index other) := by
  unfold RenderState.keeping
  simp only [Fork.identifier_rephrased, Fork.span_rephrased]
  have same : (fork.rephrased name texts).isSet = fork.isSet := rfl
  cases identifier : fork.identifier with
  | some key =>
    rw [identifier] at seen
    have owns : Owns nodes name key live := ⟨within, fun isName => named key isName identifier⟩
    exact veiled.recording ⟨rfl, rfl, rfl, fun apart => seen fun same =>
      apart (Option.some.inj same)⟩ owns
  | none =>
    dsimp only
    by_cases isSet : fork.isSet = true
    · rw [if_pos isSet, if_pos (same.trans isSet)]
      refine { veiled with
        anonymousSets := fun offset => ?_, kept := fun offset found given => ?_ }
      · rw [Table.get?_insert, Table.get?_insert]
        split
        · rfl
        · exact veiled.anonymousSets offset
      · rw [Table.get?_insert] at given
        split at given
        · cases given
          exact ⟨within, unnamed identifier⟩
        · exact veiled.kept offset found given
    · rw [if_neg isSet, if_neg (same ▸ isSet)]
      exact veiled

/-- A fork is drawn from the same weights. -/
theorem liveOf (fork : Fork) :
    right.liveOf (fork.rephrased name texts) = (left.liveOf fork).rephrased name texts := by
  unfold RenderState.liveOf
  simp only [Fork.identifier_rephrased, Fork.span_rephrased, Fork.isSet_rephrased,
    LiveFork.ofFork_rephrased]
  cases fork.identifier with
  | some key =>
    have here := veiled.ledger key
    dsimp only
    generalize left.ledger.get? key = entry, right.ledger.get? key = other at here ⊢
    cases here with
    | none => rfl
    | some rephrases =>
      simp only [rephrases.origin, rephrases.live]
      split <;> rfl
  | none =>
    simp only [veiled.anonymousSets]
    split
    · cases left.anonymousSets.get? fork.span.start <;> rfl
    · rfl

/-- The fork that is drawn from is one of the nodes, with a name if the fork has one. -/
theorem owns_liveOf {fork : Fork} (within : .fork fork ∈ nodesWithin nodes) :
    .fork (left.liveOf fork).fork ∈ nodesWithin nodes ∧
      (∀ key, (left.liveOf fork).fork.identifier = some name → fork.identifier = some key →
        key = name) ∧
      (fork.identifier = none → (left.liveOf fork).fork.identifier = none) := by
  have source := left.liveOf_source fork
  generalize left.liveOf fork = live at source
  cases source with
  | full =>
    exact ⟨within, fun key isName found => Option.some.inj (found.symm.trans isName), id⟩
  | recorded identifier found _ =>
    have owns := veiled.recorded _ _ found
    refine ⟨owns.within, fun key isName here => ?_, fun none => ?_⟩
    · rw [← Option.some.inj (identifier.symm.trans here)]
      exact owns.named isName
    · cases identifier.symm.trans none
  | kept unnamed _ found =>
    obtain ⟨within, none⟩ := veiled.kept _ live found
    exact ⟨within, fun key isName _ => (by cases none.symm.trans isName), fun _ => none⟩

end Veiled

/-! ## Forks and references -/

section Steps

theorem paired_note (event other : Event) :
    Paired (Veiled nodes name texts) (fun _ _ => True) (note event) (note other) :=
  paired_modify fun _ _ veiled => veiled.noted event other

theorem paired_warn (warning : Warning) :
    Paired (Veiled nodes name texts) (fun _ _ => True) (warn warning) (warn warning) :=
  paired_modify fun _ _ veiled =>
    { veiled with warnings := congrArg (· ++ [warning]) veiled.warnings }

/-- Parts that go on with what is recorded under a key. -/
theorem paired_recorded {α β : Type} {same : α → β → Prop} {key : String}
    {next : Option Record → Rendering α} {following : Option Record → Rendering β}
    (found : ∀ entry other, Option.Rel (Record.Rephrases name texts key) entry other →
      (∀ target, entry = some target → Owns nodes name key target.live) →
        Paired (Veiled nodes name texts) same (next entry) (following other)) :
    Paired (Veiled nodes name texts) same (recorded key >>= next) (recorded key >>= following) :=
  fun left right veiled =>
    found _ _ (veiled.ledger key) (veiled.recorded key) left right veiled

/-- A name is taken in both renders or in none. -/
theorem paired_checkUnique (key : String) (origin : Origin) (offset : Nat) :
    Paired (Veiled nodes name texts) (fun _ _ => True) (checkUnique key origin offset)
      (checkUnique key origin offset) := by
  unfold checkUnique
  refine paired_recorded fun entry other records _ => ?_
  cases records with
  | none => exact paired_pure trivial
  | @some entry other rephrases =>
    obtain ⟨_, _, _, found⟩ := entry
    obtain ⟨_, _, _, given⟩ := other
    obtain rfl : given = found := rephrases.origin
    cases given with
    | imported => exact paired_pure trivial
    | declared existing =>
      dsimp only
      split
      · exact paired_pure trivial
      · exact paired_throw _

theorem paired_reach (fork : Fork) :
    Paired (Veiled nodes name texts) (fun _ _ => True) (reach fork)
      (reach (fork.rephrased name texts)) := by
  unfold reach
  refine (paired_note _ _).bind fun _ _ _ => ?_
  rw [Fork.identifier_rephrased, Fork.span_rephrased]
  split
  · exact paired_checkUnique _ _ _
  · exact paired_pure trivial

/-- The same branch is drawn. -/
theorem paired_draw (key : Option String) (live : LiveFork) :
    Paired (Veiled nodes name texts)
      (fun drawn other => other = (drawn.1.rephrased name texts, drawn.2) ∧
        drawn.1.fork = live.fork)
      (draw key live) (draw key (live.rephrased name texts)) := by
  unfold draw
  refine paired_get fun left right veiled => ?_
  have same : (live.rephrased name texts).deck = live.deck := rfl
  rw [same, veiled.generator]
  rcases live.deck.draw Generator.below left.generator with ⟨drawn, deck, generator⟩
  refine (paired_set { veiled with generator := rfl }).bind fun _ _ _ => ?_
  cases drawn with
  | none => exact paired_throw _
  | some drawn =>
    refine (paired_note _ _).bind fun _ _ _ => ?_
    dsimp only
    split
    · exact (paired_warn _).bind fun _ _ _ => paired_pure ⟨rfl, rfl⟩
    · exact paired_pure ⟨rfl, rfl⟩

variable {nested : Choice → Rendering String}

/-- What renders choices: it renders those of the nodes with other texts as it renders them, and
goes on alike behind mere texts. -/
structure Conceals (nodes : List Node) (name : String) (texts : Nat → String)
    (nested : Choice → Rendering String) : Prop where
  parts : ∀ choice : Choice, choice.PartOf nodes →
    Paired (Veiled nodes name texts) Eq (nested choice) (nested (choice.rephrased name texts))
  plain : ∀ content other, Paired (Veiled nodes name texts) (fun _ _ => True)
    (nested (.nodes [.text content])) (nested (.nodes [.text other]))

variable (conceals : Conceals nodes name texts nested)
  (hides : ∀ node ∈ nodesWithin nodes, node.Hides name)

section Executions

variable {fork : Fork} (within : .fork fork ∈ nodesWithin nodes)
include conceals hides within

/-- A branch gives the same, unless its fork has the name. -/
theorem paired_renderBranch (index : Nat) :
    Paired (Veiled nodes name texts)
      (fun rendered other => fork.identifier ≠ some name → other = rendered)
      (renderBranch nested fork index)
      (renderBranch nested (fork.rephrased name texts) index) := by
  unfold renderBranch
  by_cases named : fork.identifier = some name
  · rw [Fork.getElem?_rephrased_of_eq fork named]
    cases found : fork.branches[index]? with
    | none => exact paired_pure fun apart => absurd named apart
    | some branch =>
      have hidden : fork.Hides name := hides _ within
      obtain ⟨content, text⟩ := (hidden named).2 branch (List.mem_of_getElem? found)
      dsimp only [Option.map_some]
      rw [text]
      exact fun left right veiled => (conceals.plain content (texts index) left right veiled).imp
        fun _ _ _ apart => absurd named apart
  · rw [Fork.getElem?_rephrased_of_ne fork named]
    cases found : fork.branches[index]? with
    | none => exact paired_pure fun _ => rfl
    | some branch =>
      have part := fork.partOf_of_branch within (List.mem_of_getElem? found)
      exact fun left right veiled => (conceals.parts _ part left right veiled).imp
        fun _ _ same _ => same.symm

/-- So does an execution. -/
theorem paired_execute (key : Option String) {live : LiveFork} (ofFork : live.fork = fork) :
    Paired (Veiled nodes name texts)
      (fun outcome other => other.1 = outcome.1.rephrased name texts ∧ other.2.1 = outcome.2.1 ∧
        outcome.1.fork = fork ∧ (fork.identifier ≠ some name → other.2.2 = outcome.2.2))
      (execute nested key live) (execute nested key (live.rephrased name texts)) := by
  unfold execute
  refine (paired_draw key live).bind ?_
  rintro ⟨drawn, index⟩ _ ⟨rfl, same⟩
  have isFork : drawn.fork = fork := same.trans ofFork
  have branch := paired_renderBranch conceals hides within index
  rw [← isFork] at branch ⊢
  refine branch.bind fun rendered other seen => ?_
  exact (paired_note _ _).bind fun _ _ _ => paired_pure ⟨rfl, rfl, rfl, seen⟩

end Executions

include conceals hides

/-- A fork gives the same, unless it has the name. -/
theorem paired_renderFork {fork : Fork} (within : .fork fork ∈ nodesWithin nodes) :
    Paired (Veiled nodes name texts)
      (fun rendered other => fork.identifier ≠ some name → other = rendered)
      (renderFork nested fork) (renderFork nested (fork.rephrased name texts)) := by
  unfold renderFork
  refine (paired_reach fork).bind fun _ _ _ => ?_
  rw [Fork.silent_rephrased, Fork.isSet_rephrased]
  split
  · exact (paired_modify fun _ _ veiled => veiled.registering within).bind
      fun _ _ _ => paired_pure fun _ => rfl
  · refine paired_get fun left right veiled => ?_
    obtain ⟨liveWithin, named, unnamed⟩ := veiled.owns_liveOf within
    rw [veiled.liveOf fork, Fork.identifier_rephrased]
    refine (paired_execute conceals hides liveWithin _ rfl).bind ?_
    rintro ⟨live, index, rendered⟩ ⟨further, place, other⟩ ⟨isLive, isIndex, same, seen⟩
    dsimp only at isLive isIndex same seen ⊢
    subst isLive isIndex
    rw [← same] at liveWithin named unnamed seen
    have shown : fork.identifier ≠ some name → other = rendered := fun apart => seen fun isName => by
      cases identifier : fork.identifier with
      | none => cases (unnamed identifier).symm.trans isName
      | some key => exact apart (identifier.trans (congrArg some (named key isName identifier)))
    exact (paired_modify fun _ _ veiled => veiled.keeping liveWithin named unnamed place shown).bind
      fun _ _ _ => paired_pure shown

section References

variable {reference : Reference} (within : .reference reference ∈ nodesWithin nodes)
include within

omit within in
/-- Both references answer to the same branch. What it gave differs at most under the name. -/
theorem paired_branchOf {entry other : Record}
    (rephrases : entry.Rephrases name texts reference.target other)
    (owns : Owns nodes name reference.target entry.live) :
    Paired (Veiled nodes name texts)
      (fun taken found => found.1 = taken.1.rephrased name texts ∧ found.2.1 = taken.2.1 ∧
        Owns nodes name reference.target taken.1 ∧
        (reference.target ≠ name → found.2.2 = taken.2.2))
      (branchOf nested reference entry)
      (branchOf nested (reference.rephrased name texts) other) := by
  have executes : Paired (Veiled nodes name texts)
      (fun taken found => found.1 = taken.1.rephrased name texts ∧ found.2.1 = taken.2.1 ∧
        Owns nodes name reference.target taken.1 ∧
        (reference.target ≠ name → found.2.2 = taken.2.2))
      (execute nested (some reference.target) entry.live >>= fun outcome => do
        modify (·.recording reference.target
          ⟨outcome.1, some outcome.2.1, outcome.2.2, entry.origin⟩)
        return outcome)
      (execute nested (some reference.target) other.live >>= fun outcome => do
        modify (·.recording reference.target
          ⟨outcome.1, some outcome.2.1, outcome.2.2, other.origin⟩)
        return outcome) := by
    rw [rephrases.live, rephrases.origin]
    refine (paired_execute conceals hides owns.within _ rfl).bind ?_
    rintro ⟨live, index, rendered⟩ ⟨further, place, found⟩ ⟨isLive, isIndex, same, seen⟩
    dsimp only at isLive isIndex same seen ⊢
    subst isLive isIndex
    have ownsLive : Owns nodes name reference.target live := ⟨same ▸ owns.within, same ▸ owns.named⟩
    have shown : reference.target ≠ name → found = rendered :=
      fun apart => seen fun isName => apart (owns.named isName)
    exact (paired_modify fun _ _ veiled =>
      veiled.recording ⟨rfl, rfl, rfl, shown⟩ ownsLive).bind
        fun _ _ _ => paired_pure ⟨rfl, rfl, ownsLive, shown⟩
  unfold branchOf
  rw [rephrases.chosen, Reference.reruns_rephrased, Reference.target_rephrased]
  cases entry.chosen with
  | none => exact executes
  | some index =>
    cases reference.reruns with
    | true => exact executes
    | false => exact paired_pure ⟨rephrases.live, rfl, owns, rephrases.rendered⟩

/-- What a reference renders is the same. -/
theorem paired_answer (index : Nat) {rendered other : String}
    (seen : reference.target ≠ name → other = rendered) :
    Paired (Veiled nodes name texts) Eq (answer nested reference index rendered)
      (answer nested (reference.rephrased name texts) index other) := by
  unfold answer
  rw [Reference.isCopy_rephrased, Reference.answer_rephrased]
  have hidden : reference.Hides name := hides _ within
  split
  · rename_i copies
    refine paired_pure (seen fun isName => ?_).symm
    exact absurd ((hidden.2 isName).2.symm.trans copies) (by decide)
  · cases found : (reference.mapping? index).or reference.fallback with
    | none => exact (paired_warn _).bind fun _ _ _ => paired_pure rfl
    | some choice =>
      exact (paired_note _ _).bind fun _ _ _ =>
        conceals.parts choice (reference.partOf_of_answer within found)

omit hides in
theorem paired_answerAbsent :
    Paired (Veiled nodes name texts) Eq (answerAbsent nested reference)
      (answerAbsent nested (reference.rephrased name texts)) := by
  unfold answerAbsent
  refine (paired_note _ _).bind fun _ _ _ => ?_
  rw [Reference.reruns_rephrased, Reference.fallback_rephrased]
  split
  · exact paired_throw _
  · cases found : reference.fallback with
    | none => exact (paired_warn _).bind fun _ _ _ => paired_pure rfl
    | some choice => exact conceals.parts choice (reference.partOf_of_fallback within found)

omit conceals in
/-- A reference that has a name records the same under it. -/
theorem paired_nameOutcome {live : LiveFork} (owns : Owns nodes name reference.target live)
    (index : Nat) (output : String) :
    Paired (Veiled nodes name texts) (fun _ _ => True) (nameOutcome reference live index output)
      (nameOutcome (reference.rephrased name texts) (live.rephrased name texts) index output) := by
  unfold nameOutcome
  rw [Reference.identifier_rephrased, Reference.span_rephrased]
  have hidden : reference.Hides name := hides _ within
  cases identifier : reference.identifier with
  | none => exact paired_pure trivial
  | some key =>
    have ownsKey : Owns nodes name key live := by
      refine ⟨owns.within, fun isName => ?_⟩
      cases identifier.symm.trans (hidden.2 (owns.named isName)).1
    exact (paired_checkUnique _ _ _).bind fun _ _ _ => paired_modify fun _ _ veiled =>
      veiled.recording ⟨rfl, rfl, rfl, fun _ => rfl⟩ ownsKey

/-- References render alike. -/
theorem paired_renderReference :
    Paired (Veiled nodes name texts) Eq (renderReference nested reference)
      (renderReference nested (reference.rephrased name texts)) := by
  unfold renderReference
  refine (paired_note _ _).bind fun _ _ _ => ?_
  refine paired_recorded fun entry other records known => ?_
  cases records with
  | none => exact paired_answerAbsent conceals within
  | @some entry other rephrases =>
    refine (paired_branchOf conceals hides rephrases (known entry rfl)).bind ?_
    rintro ⟨live, index, rendered⟩ ⟨further, place, found⟩ ⟨isLive, isIndex, owns, seen⟩
    dsimp only at isLive isIndex owns seen ⊢
    subst isLive isIndex
    refine (paired_answer conceals hides within place seen).bind ?_
    rintro output _ rfl
    exact (paired_nameOutcome hides within owns place output).map fun _ _ _ => rfl

end References

/-- Sequences of nodes render alike: a fork with the name is silent. -/
theorem paired_renderNodes {among : List Node} (partOf : (Choice.nodes among).PartOf nodes)
    (startsLine : Bool) :
    Paired (Veiled nodes name texts) Eq (renderNodes nested among startsLine)
      (renderNodes nested (rephrasedNodes name texts among) startsLine) := by
  unfold renderNodes
  rw [rephrasedNodes_eq_map]
  refine (paired_foldlM among (fun line node member => ?_) _).map fun _ _ same => by rw [same]
  have within : node ∈ nodesWithin nodes :=
    partOf.within (within_subset_of_mem member (Node.self_mem_within node))
  cases node with
  | text content => exact paired_pure rfl
  | fork fork =>
    rw [Node.rephrased_fork]
    refine (paired_renderFork conceals hides within).map fun rendered other seen => ?_
    rw [Fork.silent_rephrased]
    by_cases named : fork.identifier = some name
    · have hidden : fork.Hides name := hides _ within
      rw [Line.addRendered, Line.addRendered, if_pos (hidden named).1, if_pos (hidden named).1]
    · rw [seen named]
  | reference reference =>
    rw [Node.rephrased_reference]
    refine (paired_renderReference conceals hides within).map fun rendered other same => ?_
    rw [same, Reference.silent_rephrased]

end Steps

/-! ## Whole renders -/

/-- Inert renders keep to the nodes at every depth. -/
theorem conceals_inert (hides : ∀ node ∈ nodesWithin nodes, node.Hides name) (depth : Nat) :
    Conceals nodes name texts (inert depth) := by
  induction depth with
  | zero => exact ⟨fun _ _ => paired_throw _, fun _ _ => paired_throw _⟩
  | succ depth ih =>
    refine ⟨fun choice partOf => ?_, fun content other => paired_pure trivial⟩
    cases choice with
    | nodes among => exact paired_renderNodes ih hides partOf false
    | script block => exact (paired_note _ _).bind fun _ _ _ => paired_throw _
    | call call => exact (paired_note _ _).bind fun _ _ _ => paired_throw _

theorem paired_inertDocument {document : Document}
    (hides : ∀ node ∈ nodesWithin document.nodes, node.Hides name) :
    Paired (Veiled document.nodes name texts) Eq (inertDocument document)
      (inertDocument (document.rephrased name texts)) := by
  have whole : (Choice.nodes document.nodes).PartOf document.nodes :=
    ⟨List.Subset.refl _, List.Subset.refl _⟩
  have rendered : Paired (Veiled document.nodes name texts) Eq _ _ :=
    paired_renderNodes (conceals_inert hides depthLimit) hides whole true
  have modes : (document.rephrased name texts).usesModes = document.usesModes := rfl
  unfold inertDocument renderWhole
  rw [modes]
  split
  · exact (paired_warn _).bind fun _ _ _ => rendered
  · exact rendered

/-- A document without script blocks renders the same text with the same warnings, or fails alike,
whatever the branches of its silent forks with a name give, as long as every reference to the name
has no name of its own and renders something for the index. -/
theorem document_rephrased (setting : Setting) (generator : Generator) (document : Document)
    (name : String) (texts : Nat → String) (scriptless : document.scripts = [])
    (hides : ∀ node ∈ nodesWithin document.nodes, node.Hides name) :
    let ended := (Rendering.document setting document).run (.initial generator)
    let other := (Rendering.document setting (document.rephrased name texts)).run
      (.initial generator)
    other.1 = ended.1 ∧ other.2.warnings = ended.2.warnings := by
  dsimp only
  rw [(inStep_document (.inr scriptless) _ (dormant_initial _ _)).1,
    (inStep_document (.inr (Document.scripts_rephrased scriptless)) _ (dormant_initial _ _)).1]
  have ends := @paired_inertDocument name texts document hides _ _ (veiled_initial generator)
  generalize (inertDocument document).run (.initial generator) = ended at ends ⊢
  generalize (inertDocument (document.rephrased name texts)).run (.initial generator) = other
    at ends ⊢
  cases ends with
  | well same veiled => exact ⟨congrArg Except.ok same.symm, veiled.warnings⟩
  | failed veiled => exact ⟨rfl, veiled.warnings⟩

/-- A document that draws from a silent fork twice, and each time puts out something of its own. -/
def guessing : Document :=
  ⟨[.fork ⟨some "N", true, false,
      [⟨.nodes [.text "a"], none⟩, ⟨.nodes [.text "b"], none⟩], ⟨0, 14⟩⟩,
    .reference ⟨"N", none, false, [⟨0, .nodes [.text "x"]⟩], some (.nodes [.text "y"]), false,
      ⟨14, 33⟩⟩,
    .text " ",
    .reference ⟨"N", none, false, [⟨1, .nodes [.text "z"]⟩], none, true, ⟨34, 53⟩⟩], [], []⟩

theorem guessing_hides : ∀ node ∈ nodesWithin guessing.nodes, node.Hides "N" := by
  intro node member
  simp only [guessing, nodesWithin, Node.within, withinBranches, withinMappings, withinFallback,
    Choice.within, List.append_nil, List.cons_append, List.nil_append, List.mem_cons,
    List.not_mem_nil, or_false] at member
  rcases member with rfl | rfl | rfl | rfl | rfl | rfl | rfl | rfl | rfl
  all_goals simp [Node.Hides, Fork.Hides, Reference.Hides, Reference.isCopy]

/-- How the guessing ends. -/
def endOfGuessing (document : Document) : Except RenderError String × RenderState :=
  (Rendering.document ⟨true, ".", .unavailable⟩ document).run (.initial (.ofSeed 1))

/-- The guessing ends the same whatever stands in the branches of its fork. -/
theorem document_rephrased_guessing :
    (endOfGuessing guessing).1.toOption = some "y z" ∧
      (endOfGuessing (guessing.rephrased "N" fun _ => "c")).1 = (endOfGuessing guessing).1 ∧
      (endOfGuessing (guessing.rephrased "N" fun _ => "c")).2.warnings =
        (endOfGuessing guessing).2.warnings := by
  refine ⟨by decide +kernel, ?_⟩
  have scriptless : guessing.scripts = [] := by decide
  unfold endOfGuessing
  exact document_rephrased ⟨true, ".", .unavailable⟩ (.ofSeed 1) guessing "N" (fun _ => "c")
    scriptless guessing_hides

end Rendering

end BranchText
