import BranchText.Document.Within
import BranchText.Proofs.Render.Tracks

/-!
# What a render reaches

A render that includes nothing reaches only forks and references within its document, and keeps
live weights of such forks only.
-/

namespace BranchText

namespace Rendering

/-- All forks and references that were reached, or can be by drawing, are within the nodes. -/
structure Inside (nodes : List Node) (state : RenderState) : Prop where
  recorded : ∀ name entry, state.ledger.get? name = some entry →
    .fork entry.live.fork ∈ nodesWithin nodes
  kept : ∀ offset live, state.anonymousSets.get? offset = some live →
    .fork live.fork ∈ nodesWithin nodes
  reached : ∀ fork, .reached fork ∈ state.events → .fork fork ∈ nodesWithin nodes
  referred : ∀ reference, .referred reference ∈ state.events →
    .reference reference ∈ nodesWithin nodes

theorem inside_initial (nodes : List Node) (generator : Generator) :
    Inside nodes (.initial generator) where
  recorded _ _ found := by cases found
  kept _ _ found := by cases found
  reached _ member := by cases member
  referred _ member := by cases member

namespace Inside

variable {nodes : List Node} {state : RenderState} (inside : Inside nodes state)
include inside

theorem of_unseen {after : RenderState} (unseen : Unseen state after) : Inside nodes after where
  recorded := by rw [unseen.ledger]; exact inside.recorded
  kept := by rw [unseen.anonymousSets]; exact inside.kept
  reached := by rw [unseen.events]; exact inside.reached
  referred := by rw [unseen.events]; exact inside.referred

theorem noted_reached {fork : Fork} (within : .fork fork ∈ nodesWithin nodes) :
    Inside nodes (state.noted (.reached fork)) where
  recorded := inside.recorded
  kept := inside.kept
  reached other member := by
    rcases List.mem_cons.1 member with same | earlier
    · cases same
      exact within
    · exact inside.reached other earlier
  referred other member := inside.referred other (List.mem_of_ne_of_mem (by simp) member)

theorem noted_referred {reference : Reference}
    (within : .reference reference ∈ nodesWithin nodes) :
    Inside nodes (state.noted (.referred reference)) where
  recorded := inside.recorded
  kept := inside.kept
  reached other member := inside.reached other (List.mem_of_ne_of_mem (by simp) member)
  referred other member := by
    rcases List.mem_cons.1 member with same | earlier
    · cases same
      exact within
    · exact inside.referred other earlier

/-- Events that reach nothing. -/
theorem noted {event : Event} (noFork : ∀ fork, event ≠ .reached fork)
    (noReference : ∀ reference, event ≠ .referred reference) :
    Inside nodes (state.noted event) where
  recorded := inside.recorded
  kept := inside.kept
  reached other member := inside.reached other
    (List.mem_of_ne_of_mem (fun same => noFork other same.symm) member)
  referred other member := inside.referred other
    (List.mem_of_ne_of_mem (fun same => noReference other same.symm) member)

theorem recording {entry : Record} (within : .fork entry.live.fork ∈ nodesWithin nodes)
    (name : String) : Inside nodes (state.recording name entry) where
  recorded other found present := by
    rw [RenderState.get?_recording] at present
    split at present
    · cases present
      exact within
    · exact inside.recorded other found present
  kept := inside.kept
  reached := inside.reached
  referred := inside.referred

theorem registering {fork : Fork} (within : .fork fork ∈ nodesWithin nodes) :
    Inside nodes (state.registering fork) := by
  unfold RenderState.registering
  split
  · exact inside
  · split
    · exact inside
    · exact inside.recording within _

theorem keeping {live : LiveFork} (within : .fork live.fork ∈ nodesWithin nodes) (fork : Fork)
    (index : Nat) (rendered : String) : Inside nodes (state.keeping fork live index rendered) := by
  unfold RenderState.keeping
  split
  · exact inside.recording within _
  · split
    · refine ⟨inside.recorded, fun offset found present => ?_, inside.reached, inside.referred⟩
      rw [Table.get?_insert] at present
      split at present
      · cases present
        exact within
      · exact inside.kept offset found present
    · exact inside

theorem naming {live : LiveFork} (within : .fork live.fork ∈ nodesWithin nodes)
    (reference : Reference) (index : Nat) (output : String) :
    Inside nodes (state.naming reference live index output) := by
  unfold RenderState.naming
  split
  · exact inside.recording within _
  · exact inside

/-- The weights that a fork within the nodes is drawn from are those of such a fork. -/
theorem liveOf {fork : Fork} (within : .fork fork ∈ nodesWithin nodes) :
    .fork (state.liveOf fork).fork ∈ nodesWithin nodes := by
  have source := state.liveOf_source fork
  generalize state.liveOf fork = live at source
  cases source with
  | full => exact within
  | recorded _ found _ => exact inside.recorded _ _ found
  | kept _ _ found => exact inside.kept _ live found

end Inside

/-- Unless something was included, what is within the nodes stays within them. -/
def StaysInside (nodes : List Node) (before after : RenderState) : Prop :=
  Grows before after ∧ (Loaded after.events ∨ (Inside nodes before → Inside nodes after))

section Steps

variable {nodes : List Node}

theorem motion_staysInside : Motion (StaysInside nodes) (StaysInside nodes) :=
  motion_unlessLoaded (fun same inside => inside.of_unseen same) fun _ _ isQuiet inside =>
    inside.noted (by cases isQuiet <;> simp) (by cases isQuiet <;> simp)

/-- Every node within the node is within the nodes. -/
def AllWithin (nodes : List Node) (node : Node) : Prop := node.within ⊆ nodesWithin nodes

theorem allowed_of_within {choice : Choice} (within : choice.within ⊆ nodesWithin nodes) :
    AllowedChoice (AllWithin nodes) choice := by
  cases choice with
  | nodes inner =>
    exact fun node member => List.Subset.trans (within_subset_of_mem member) within
  | script block => trivial
  | call call => trivial

variable {nested : Choice → Rendering String}

/-- An execution of a fork within the nodes leaves live weights of that fork. -/
theorem staysInside_execute (name : Option String) {live : LiveFork}
    (within : .fork live.fork ∈ nodesWithin nodes)
    (inner : ∀ choice, AllowedChoice (AllWithin nodes) choice →
      Follows (StaysInside nodes) (StaysInside nodes) (nested choice))
    {state later : RenderState} (moved : StaysInside nodes state later) :
    Ensures (execute nested name live) later (fun outcome after =>
      outcome.1.fork = live.fork ∧ StaysInside nodes state after) (StaysInside nodes state) := by
  refine ensures_execute (fun after unseen => motion_staysInside.trans moved
    (motion_staysInside.unseen unseen)) fun draw rest after _ drew => ?_
  have drawn : StaysInside nodes later after := motion_staysInside.trans
    ⟨grows_noted later _, .inr fun inside => inside.noted (by simp) (by simp)⟩
    (motion_staysInside.unseen drew)
  have branches : ∀ branch ∈ live.fork.branches,
      Follows (StaysInside nodes) (StaysInside nodes) (nested branch.choice) := fun branch member =>
    inner _ (allowed_of_within (List.Subset.trans (Fork.branch_within member)
      (within_subset_nodesWithin nodes _ within)))
  refine (motion_staysInside.ensures_of_moves
    (motion_staysInside.follows_renderBranch branches draw.index)
    (motion_staysInside.trans moved drawn)).imp (fun _ finished moved => ⟨rfl, ?_⟩)
    fun _ failed => failed
  exact motion_staysInside.trans moved
    ⟨grows_noted finished _, .inr fun inside => inside.noted (by simp) (by simp)⟩

/-- A fork within the nodes stays inside them. -/
theorem staysInside_renderFork {fork : Fork} (within : .fork fork ∈ nodesWithin nodes)
    (inner : ∀ choice, AllowedChoice (AllWithin nodes) choice →
      Follows (StaysInside nodes) (StaysInside nodes) (nested choice))
    (state : RenderState) (inside : Inside nodes state) :
    Ensures (renderFork nested fork) state (fun _ later => StaysInside nodes state later)
      (StaysInside nodes state) := by
  have reached : StaysInside nodes state (state.noted (.reached fork)) :=
    ⟨grows_noted state _, .inr fun inside => inside.noted_reached within⟩
  have liveWithin := inside.liveOf within
  refine ensures_renderFork reached (fun _ _ _ => ?_) fun _ _ => ?_
  · exact motion_staysInside.trans reached
      ⟨grows_registering _ _, .inr fun inside => inside.registering within⟩
  · refine (staysInside_execute _ liveWithin inner reached).imp ?_ fun _ failed => failed
    rintro ⟨live, index, rendered⟩ later ⟨same, moved⟩
    have sameWithin : .fork live.fork ∈ nodesWithin nodes := same ▸ liveWithin
    exact motion_staysInside.trans moved
      ⟨grows_keeping .., .inr fun inside => inside.keeping sameWithin ..⟩

/-- A reference within the nodes stays inside them. -/
theorem staysInside_renderReference {reference : Reference}
    (within : .reference reference ∈ nodesWithin nodes)
    (inner : ∀ choice, AllowedChoice (AllWithin nodes) choice →
      Follows (StaysInside nodes) (StaysInside nodes) (nested choice))
    (state : RenderState) (inside : Inside nodes state) :
    Ensures (renderReference nested reference) state
      (fun _ later => StaysInside nodes state later) (StaysInside nodes state) := by
  have referred : StaysInside nodes state (state.noted (.referred reference)) :=
    ⟨grows_noted state _, .inr fun inside => inside.noted_referred within⟩
  have answers : ∀ index choice,
      (reference.mapping? index).or reference.fallback = some choice →
        Follows (StaysInside nodes) (StaysInside nodes) (nested choice) := fun index choice found =>
    inner _ (allowed_of_within (List.Subset.trans (Reference.answer_within found)
      (within_subset_nodesWithin nodes _ within)))
  refine ensures_renderReference (fun _ => ?_) fun target found => ?_
  · exact motion_staysInside.ensures_of_moves (motion_staysInside.follows_answerAbsent
      fun choice fallback => inner _ (allowed_of_within (List.Subset.trans
        (Reference.fallback_within fallback) (within_subset_nodesWithin nodes _ within))))
      referred
  · have targetWithin := inside.recorded _ target found
    have taken : Ensures (branchOf nested reference target) (state.noted (.referred reference))
        (fun taken later => taken.1.fork = target.live.fork ∧ StaysInside nodes state later)
        (StaysInside nodes state) := by
      refine ensures_branchOf (fun _ _ _ => ⟨rfl, referred⟩) ?_
      refine (staysInside_execute _ targetWithin inner referred).imp ?_ fun _ failed => failed
      rintro ⟨live, index, rendered⟩ later ⟨same, moved⟩
      have sameWithin : .fork live.fork ∈ nodesWithin nodes := same ▸ targetWithin
      exact ⟨same, motion_staysInside.trans moved
        ⟨List.suffix_rfl, .inr fun inside => inside.recording sameWithin _⟩⟩
    refine taken.imp ?_ fun _ failed => failed
    rintro ⟨live, index, rendered⟩ later ⟨same, moved⟩
    have sameWithin : .fork live.fork ∈ nodesWithin nodes := same ▸ targetWithin
    refine (motion_staysInside.ensures_of_moves
      (motion_staysInside.follows_answer answers index rendered) moved).imp
      (fun output after answered => ⟨answered, fun _ => ?_⟩) fun _ failed => failed
    exact motion_staysInside.trans answered
      ⟨grows_naming .., .inr fun inside => inside.naming sameWithin ..⟩

theorem track_staysInside :
    Track Growing (AllWithin nodes) (StaysInside nodes) (StaysInside nodes) :=
  track_unlessLoaded motion_staysInside
    (fun _ _ within => staysInside_renderFork (within (Node.self_mem_within _)))
    fun _ _ within => staysInside_renderReference (within (Node.self_mem_within _))

/-- A render that includes nothing reaches only what is within its document. -/
theorem inside_document (setting : Setting) (document : Document) (generator : Generator)
    (noIncludes : ¬ Loaded ((Rendering.document setting document).run
      (.initial generator)).2.events) :
    Inside document.nodes ((Rendering.document setting document).run (.initial generator)).2 := by
  have stays := track_staysInside.follows_document growing_choice setting document
    (fun node member => within_subset_of_mem member) (.initial generator)
  have stayed := ensures_always.1 stays
  rcases stayed.2 with loaded | inside
  · exact absurd loaded noIncludes
  · exact inside (inside_initial _ generator)

end Steps

end Rendering

end BranchText
