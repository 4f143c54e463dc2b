import BranchText.Proofs.Document.Parts
import BranchText.Proofs.Render.OwnBranches

/-!
# Names that one fork declares

References draw from the record of their target and write it anew, whatever fork it was of, while
the branches that they render do the same. Under a name that nothing but one fork declares there is
all the same never anything else than weights of that fork, and the place of one of its branches.
-/

namespace BranchText

/-- Among the nodes, nothing but the fork declares the name. -/
def DeclaredBy (nodes : List Node) (name : String) (fork : Fork) : Prop :=
  ∀ node ∈ nodesWithin nodes, ∀ place, node.declaration? = some (name, place) → node = .fork fork

/-- The record is one of the fork, and of one of its branches if any was taken. -/
structure Record.Of (entry : Record) (fork : Fork) : Prop where
  live : entry.live.Of fork
  index_lt : ∀ index, entry.chosen = some index → index < fork.branches.length

section DeclaredBy

variable {nodes : List Node} {name : String} {fork : Fork} (only : DeclaredBy nodes name fork)
include only

theorem DeclaredBy.eq {other : Fork} (within : .fork other ∈ nodesWithin nodes)
    (identifier : other.identifier = some name) : other = fork :=
  Node.fork.inj (only _ within other.span.start (by rw [Node.declaration?, identifier]; rfl))

theorem DeclaredBy.ne {reference : Reference} (within : .reference reference ∈ nodesWithin nodes)
    {declared : String} (identifier : reference.identifier = some declared) : declared ≠ name := by
  rintro rfl
  cases only _ within reference.span.start (by rw [Node.declaration?, identifier]; rfl)

end DeclaredBy

namespace Rendering

/-- Only forks and references within the nodes were reached or can be, and the record under the
name, if there is one, is one of the fork. -/
structure OwnedBy (nodes : List Node) (name : String) (fork : Fork) (state : RenderState) :
    Prop where
  inside : Inside nodes state
  own : ∀ entry, state.ledger.get? name = some entry → entry.Of fork

/-- A draw from live weights leaves these, and takes this branch. -/
structure Leaves (live rest : LiveFork) (index : Nat) : Prop where
  same : rest.fork = live.fork
  own : ∀ fork, live.Of fork → rest.Of fork ∧ index < fork.branches.length

theorem Leaves.record {live rest : LiveFork} {index : Nat} (leaves : Leaves live rest index)
    {fork : Fork} (of : live.Of fork) (rendered : String) (origin : Origin) :
    (⟨rest, some index, rendered, origin⟩ : Record).Of fork where
  live := (leaves.own fork of).1
  index_lt _ taken := by
    cases taken
    exact (leaves.own fork of).2

section OwnedBy

variable {nodes : List Node} {name : String} {fork : Fork} {state : RenderState}

theorem ownedBy_initial (nodes : List Node) (name : String) (fork : Fork) (generator : Generator) :
    OwnedBy nodes name fork (.initial generator) where
  inside := inside_initial nodes generator
  own _ found := by cases found

variable (owned : OwnedBy nodes name fork state)
include owned

/-- Only the ledger has records. -/
theorem OwnedBy.of_ledger {later : RenderState} (inside : Inside nodes later)
    (same : later.ledger = state.ledger) : OwnedBy nodes name fork later :=
  ⟨inside, by rw [same]; exact owned.own⟩

theorem OwnedBy.recording {entry : Record} (within : .fork entry.live.fork ∈ nodesWithin nodes)
    (other : String) (own : other = name → entry.Of fork) :
    OwnedBy nodes name fork (state.recording other entry) where
  inside := owned.inside.recording within other
  own found present := by
    rw [RenderState.get?_recording] at present
    split at present
    · rename_i same
      cases present
      exact own same.symm
    · exact owned.own found present

variable (only : DeclaredBy nodes name fork)
include only

theorem OwnedBy.registering {other : Fork} (within : .fork other ∈ nodesWithin nodes) :
    OwnedBy nodes name fork (state.registering other) := by
  unfold RenderState.registering
  split
  · exact owned
  · rename_i declared identifier
    split
    · exact owned
    · refine owned.recording within declared fun same => ⟨?_, fun _ none => by cases none⟩
      rw [only.eq within (identifier.trans (congrArg some same))]
      exact LiveFork.of_ofFork fork

/-- What the fork is drawn from is its own. -/
theorem OwnedBy.liveOf {other : Fork} (within : .fork other ∈ nodesWithin nodes)
    (identifier : other.identifier = some name) : (state.liveOf other).Of fork := by
  have source := state.liveOf_source other
  generalize state.liveOf other = live at source
  cases source with
  | full =>
    rw [only.eq within identifier]
    exact LiveFork.of_ofFork fork
  | recorded declared found _ =>
    rw [identifier] at declared
    cases declared
    exact (owned.own _ found).live
  | kept unnamed _ _ =>
    rw [identifier] at unnamed
    cases unnamed

omit only in
theorem OwnedBy.keeping {other : Fork} {live : LiveFork} {index : Nat} {rendered : String}
    (within : .fork live.fork ∈ nodesWithin nodes)
    (own : other.identifier = some name →
      (⟨live, some index, rendered, .declared other.span.start⟩ : Record).Of fork) :
    OwnedBy nodes name fork (state.keeping other live index rendered) := by
  have inside := owned.inside.keeping within other index rendered
  unfold RenderState.keeping at inside ⊢
  split at inside
  · rename_i declared identifier
    exact owned.recording within declared fun same => own (identifier.trans (congrArg some same))
  · split at inside
    · rename_i isSet
      rw [if_pos isSet]
      exact owned.of_ledger inside rfl
    · rename_i isSet
      rw [if_neg isSet]
      exact owned

theorem OwnedBy.naming {reference : Reference} (within : .reference reference ∈ nodesWithin nodes)
    {live : LiveFork} (liveWithin : .fork live.fork ∈ nodesWithin nodes) (index : Nat)
    (output : String) : OwnedBy nodes name fork (state.naming reference live index output) := by
  unfold RenderState.naming
  split
  · rename_i declared identifier
    exact owned.recording liveWithin declared fun same => absurd same (only.ne within identifier)
  · exact owned

end OwnedBy

/-- Unless something was included, names that one fork declares go on to be owned by it. -/
def StaysOwned (nodes : List Node) (name : String) (fork : Fork) :
    RenderState → RenderState → Prop :=
  UnlessLoaded (OwnedBy nodes name fork)

section Steps

variable {nodes : List Node} {name : String} {fork : Fork}

theorem motion_staysOwned :
    Motion (StaysOwned nodes name fork) (StaysOwned nodes name fork) :=
  motion_unlessLoaded (fun same owned => owned.of_ledger (owned.inside.of_unseen same) same.ledger)
    fun _ _ isQuiet owned => owned.of_ledger
      (owned.inside.noted (by cases isQuiet <;> simp) (by cases isQuiet <;> simp)) rfl

/-- Draws and the ends of executions tell of nothing that is reached. -/
theorem staysOwned_noted (state : RenderState) {event : Event}
    (noFork : ∀ fork, event ≠ .reached fork)
    (noReference : ∀ reference, event ≠ .referred reference) :
    StaysOwned nodes name fork state (state.noted event) :=
  ⟨grows_noted state event, .inr fun owned =>
    owned.of_ledger (owned.inside.noted noFork noReference) rfl⟩

theorem staysOwned_referred (state : RenderState) {reference : Reference}
    (within : .reference reference ∈ nodesWithin nodes) :
    StaysOwned nodes name fork state (state.noted (.referred reference)) :=
  ⟨grows_noted state _, .inr fun owned => owned.of_ledger (owned.inside.noted_referred within) rfl⟩

theorem staysOwned_reached (state : RenderState) {other : Fork}
    (within : .fork other ∈ nodesWithin nodes) :
    StaysOwned nodes name fork state (state.noted (.reached other)) :=
  ⟨grows_noted state _, .inr fun owned => owned.of_ledger (owned.inside.noted_reached within) rfl⟩

/-- A draw leaves weights of the same fork. -/
theorem staysOwned_draw (drawsFor : Option String) (live : LiveFork) (state : RenderState) :
    Ensures (draw drawsFor live) state
      (fun drawn later => Leaves live drawn.1 drawn.2 ∧ StaysOwned nodes name fork state later)
      (StaysOwned nodes name fork state) := by
  refine ensures_draw (fun after unseen => motion_staysOwned.unseen unseen)
    fun draw rest after deals drew => ⟨?_, ?_⟩
  · exact ⟨rfl, fun fork of => ⟨of.deals deals, deals.index_lt of.fits⟩⟩
  · exact motion_staysOwned.trans
      (staysOwned_noted state (fun _ => Event.noConfusion) fun _ => Event.noConfusion)
      (motion_staysOwned.unseen drew)

variable {nested : Choice → Rendering String}
  (inner : ∀ choice, AllowedChoice (AllWithin nodes) choice →
    Follows (StaysOwned nodes name fork) (StaysOwned nodes name fork) (nested choice))
include inner

theorem staysOwned_execute (drawsFor : Option String) {live : LiveFork}
    (within : .fork live.fork ∈ nodesWithin nodes) (state : RenderState) :
    Ensures (execute nested drawsFor live) state
      (fun outcome later => Leaves live outcome.1 outcome.2.1 ∧
        StaysOwned nodes name fork state later)
      (StaysOwned nodes name fork state) := by
  rw [execute, ensures_bind]
  refine (staysOwned_draw drawsFor live state).imp ?_ fun _ failed => failed
  rintro ⟨drawn, index⟩ after ⟨leaves, moved⟩
  have same : drawn.fork = live.fork := leaves.same
  have branches : ∀ branch ∈ drawn.fork.branches,
      Follows (StaysOwned nodes name fork) (StaysOwned nodes name fork) (nested branch.choice) := by
    intro branch member
    rw [same] at member
    exact inner _ (allowed_of_within (List.Subset.trans (Fork.branch_within member)
      (within_subset_nodesWithin nodes _ within)))
  simp only [ensures_bind, ensures_note, ensures_pure]
  refine (motion_staysOwned.ensures_of_moves
    (motion_staysOwned.follows_renderBranch branches index) moved).imp
    (fun rendered later moved => ⟨leaves, ?_⟩) fun _ failed => failed
  exact motion_staysOwned.trans moved
    (staysOwned_noted later (fun _ => Event.noConfusion) fun _ => Event.noConfusion)

theorem staysOwned_renderFork (only : DeclaredBy nodes name fork) {other : Fork}
    (within : .fork other ∈ nodesWithin nodes) (state : RenderState)
    (owned : OwnedBy nodes name fork state) :
    Ensures (renderFork nested other) state (fun _ later => StaysOwned nodes name fork state later)
      (StaysOwned nodes name fork state) := by
  have reached : StaysOwned nodes name fork state (state.noted (.reached other)) :=
    staysOwned_reached state within
  have liveWithin := owned.inside.liveOf within
  refine ensures_renderFork reached (fun _ _ _ => ?_) fun _ _ => ?_
  · exact motion_staysOwned.trans reached
      ⟨grows_registering _ _, .inr fun owned => owned.registering only within⟩
  · refine (staysOwned_execute inner _ liveWithin _).imp ?_
      fun _ => motion_staysOwned.fails_after reached
    rintro ⟨live, index, rendered⟩ later ⟨leaves, moved⟩
    have sameWithin : .fork live.fork ∈ nodesWithin nodes := leaves.same ▸ liveWithin
    refine motion_staysOwned.trans (motion_staysOwned.trans reached moved)
      ⟨grows_keeping .., .inr fun later => later.keeping sameWithin fun identifier => ?_⟩
    exact leaves.record (owned.liveOf only within identifier) _ _

/-- The branch that a reference answers to leaves a record of the same fork. -/
theorem staysOwned_branchOf (reference : Reference) {target : Record}
    (within : .fork target.live.fork ∈ nodesWithin nodes)
    (own : reference.target = name → target.live.Of fork) (state : RenderState) :
    Ensures (branchOf nested reference target) state
      (fun taken later => taken.1.fork = target.live.fork ∧ StaysOwned nodes name fork state later)
      (StaysOwned nodes name fork state) := by
  refine ensures_branchOf (fun _ _ _ => ⟨rfl, motion_staysOwned.same state⟩) ?_
  refine (staysOwned_execute inner _ within state).imp ?_ fun _ failed => failed
  rintro ⟨live, index, rendered⟩ later ⟨leaves, moved⟩
  have sameWithin : .fork live.fork ∈ nodesWithin nodes := leaves.same ▸ within
  exact ⟨leaves.same, motion_staysOwned.trans moved ⟨List.suffix_rfl, .inr fun owned =>
    owned.recording sameWithin _ fun same => leaves.record (own same) _ _⟩⟩

theorem staysOwned_renderReference (only : DeclaredBy nodes name fork) {reference : Reference}
    (within : .reference reference ∈ nodesWithin nodes) (state : RenderState)
    (owned : OwnedBy nodes name fork state) :
    Ensures (renderReference nested reference) state
      (fun _ later => StaysOwned nodes name fork state later)
      (StaysOwned nodes name fork state) := by
  have referred : StaysOwned nodes name fork state (state.noted (.referred reference)) :=
    staysOwned_referred state within
  have below : ∀ {choice : Choice}, choice.within ⊆ (Node.reference reference).within →
      Follows (StaysOwned nodes name fork) (StaysOwned nodes name fork) (nested choice) :=
    fun inside => inner _ (allowed_of_within (List.Subset.trans inside
      (within_subset_nodesWithin nodes _ within)))
  refine ensures_renderReference (fun _ => ?_) fun target found => ?_
  · exact motion_staysOwned.ensures_of_moves (motion_staysOwned.follows_answerAbsent
      fun choice fallback => below (Reference.fallback_within fallback)) referred
  · have targetWithin := owned.inside.recorded _ target found
    refine (staysOwned_branchOf inner reference targetWithin (fun same => ?_) _).imp ?_
      fun _ => motion_staysOwned.fails_after referred
    · exact (owned.own target (same ▸ found)).live
    rintro ⟨live, index, rendered⟩ later ⟨same, moved⟩
    have sameWithin : .fork live.fork ∈ nodesWithin nodes := same ▸ targetWithin
    refine (motion_staysOwned.ensures_of_moves (motion_staysOwned.follows_answer
      (fun index choice found => below (Reference.answer_within found)) index rendered)
      (motion_staysOwned.trans referred moved)).imp
      (fun output after answered => ⟨answered, fun _ => ?_⟩) fun _ failed => failed
    exact motion_staysOwned.trans answered
      ⟨grows_naming .., .inr fun later => later.naming only within sameWithin index output⟩

end Steps

theorem track_staysOwned {nodes : List Node} {name : String} {fork : Fork}
    (only : DeclaredBy nodes name fork) :
    Track Growing (AllWithin nodes) (StaysOwned nodes name fork) (StaysOwned nodes name fork) :=
  track_unlessLoaded motion_staysOwned
    (fun _ _ within inner =>
      staysOwned_renderFork inner only (within (Node.self_mem_within _)))
    fun _ _ within inner =>
      staysOwned_renderReference inner only (within (Node.self_mem_within _))

end Rendering

end BranchText
