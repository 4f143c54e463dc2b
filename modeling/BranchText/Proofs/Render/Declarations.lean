import BranchText.Proofs.Render.Dormant
import BranchText.Proofs.Render.Replacement

/-!
# Names that are declared once

A fork finds out that its name is taken when it is reached, and is recorded once its branch has
been rendered; a reference finds out, and is recorded, once its text is known. A record is never
handed over to another place of the document. So two places that declare a name can both be
executed only if one of them is reached while the fork at the other is still without a record, or
is a reference that finds no record of its target and so does not declare its name after all.
-/

namespace BranchText

namespace Event

/-- The name that an event declares, and the place of the node that does. -/
def declaration? : Event → Option (String × Nat)
  | reached fork => (Node.fork fork).declaration?
  | referred reference => (Node.reference reference).declaration?
  | _ => none

/-- The place of the fork with the name that was reached last and drew a branch, unless a branch
drawn under the name has been finished since. -/
def openFork (name : String) : List Event → Option Nat
  | [] => none
  | reached fork :: earlier =>
    if fork.identifier = some name ∧ ¬ (fork.silent && fork.isSet) = true then some fork.span.start
    else openFork name earlier
  | finished (some other) _ :: earlier =>
    if other = name then none else openFork name earlier
  | _ :: earlier => openFork name earlier

/-- While a fork with the name is being executed, no other node is reached that declares it. -/
def Unshadowed (name : String) : List Event → Prop
  | [] => True
  | event :: earlier =>
    Unshadowed name earlier ∧ ∀ declared ∈ event.declaration?, declared.1 = name →
      ∀ place ∈ openFork name earlier, declared.2 = place

instance Unshadowed.instDecidable (name : String) :
    (events : List Event) → Decidable (Unshadowed name events)
  | [] => .isTrue trivial
  | _ :: earlier =>
    have := instDecidable name earlier
    instDecidableAnd

theorem Unshadowed.of_suffix {name : String} {events later : List Event}
    (unshadowed : Unshadowed name later) (grows : events <:+ later) : Unshadowed name events := by
  obtain ⟨front, rfl⟩ := grows
  induction front with
  | nil => exact unshadowed
  | cons event front ih => exact ih unshadowed.1

/-- The references that found no record of their target. -/
def missedIn (events : List Event) : List Reference :=
  events.filterMap fun
    | missed reference => some reference
    | _ => none

/-- The event is a reference that found no record of its target. -/
def IsMissed (events : List Event) (event : Event) : Prop :=
  ∃ reference ∈ missedIn events, event = .referred reference

theorem IsMissed.grow {events later : List Event} {event : Event} (missed : IsMissed events event)
    (grows : events <:+ later) : IsMissed later event := by
  obtain ⟨reference, listed, same⟩ := missed
  exact ⟨reference, (grows.sublist.filterMap _).subset listed, same⟩

theorem isMissed_of_mem {events : List Event} {reference : Reference}
    (member : missed reference ∈ events) : IsMissed events (referred reference) :=
  ⟨reference, List.mem_filterMap.2 ⟨_, member, rfl⟩, rfl⟩

/-- The event by which a fork declares the name. -/
theorem declaration?_reached {name : String} {fork : Fork}
    (declares : fork.identifier = some name) :
    (reached fork).declaration? = some (name, fork.span.start) := by
  rw [declaration?, Node.declaration?, declares]
  rfl

/-- The event by which a reference declares the name. -/
theorem declaration?_referred {name : String} {reference : Reference}
    (declares : reference.identifier = some name) :
    (referred reference).declaration? = some (name, reference.span.start) := by
  rw [declaration?, Node.declaration?, declares]
  rfl

/-- The event does not matter to the name: it neither declares it nor opens or closes a fork. -/
structure Skips (name : String) (event : Event) : Prop where
  declaration : ∀ place, event.declaration? ≠ some (name, place)
  openFork : ∀ earlier, Event.openFork name (event :: earlier) = Event.openFork name earlier

section Skips

variable {name : String}

theorem skips_reached {fork : Fork} (other : fork.identifier ≠ some name) :
    Skips name (.reached fork) where
  declaration place same := by
    obtain ⟨found, identifier, pair⟩ := Option.map_eq_some_iff.1 same
    cases pair
    exact other identifier
  openFork earlier := if_neg fun opened => other opened.1

theorem skips_referred {reference : Reference} (other : reference.identifier ≠ some name) :
    Skips name (.referred reference) where
  declaration place same := by
    obtain ⟨found, identifier, pair⟩ := Option.map_eq_some_iff.1 same
    cases pair
    exact other identifier
  openFork _ := rfl

theorem skips_drew (drawn : Option String) (live : LiveFork) (draw : Draw) :
    Skips name (.drew drawn live draw) where
  declaration place same := by cases same
  openFork _ := rfl

theorem skips_finished {drawn : Option String} (other : drawn ≠ some name) (live : LiveFork) :
    Skips name (.finished drawn live) where
  declaration place same := by cases same
  openFork earlier := by
    cases drawn with
    | none => rfl
    | some found => exact if_neg fun same => other (congrArg some same)

theorem skips_of_quiet {event : Event} (quiet : Rendering.Quiet event) : Skips name event where
  declaration place same := by cases quiet <;> cases same
  openFork earlier := by cases quiet <;> rfl

end Skips

end Event

namespace Rendering

open Event

/-! ## No false duplicates -/

/-- A document without scripts in which every name is declared at one place only never fails for a
name that is declared twice. -/
theorem no_false_duplicate (document : Document) (scriptless : document.scripts = [])
    (unique : ∀ name start place, (name, start) ∈ declarations document.nodes →
      (name, place) ∈ declarations document.nodes → start = place)
    (setting : Setting) (generator : Generator) (name : String) (offset : Nat) :
    ((Rendering.document setting document).run (.initial generator)).1 ≠
      .error (.duplicateIdentifier name offset) := by
  intro failed
  obtain ⟨-, rests⟩ := inStep_document (.inr scriptless) _
    (dormant_initial document.nodes generator)
  generalize (Rendering.document setting document).run (.initial generator) = outcome
    at failed rests
  obtain ⟨_, later⟩ := outcome
  cases failed
  obtain ⟨declared, place, different, other⟩ := rests.duplicate name offset rfl
  exact different (unique name place offset other declared)

/-- A fork that is named at the place and has one branch. -/
def single (name : String) (inner : List Node) (start stop : Nat) : Node :=
  .fork ⟨some name, false, false, [⟨.nodes inner, none⟩], ⟨start, stop⟩⟩

/-- A fork within a fork that is executed twice. -/
def executedAgain : Document :=
  ⟨[single "Outer" [single "Inner" [.text "a"] 9 21] 0 23,
    .reference ⟨"Outer", none, false, [], none, true, ⟨24, 37⟩⟩], [], []⟩

/-- The fork within is reached twice, and is no duplicate of itself. -/
theorem no_false_duplicate_executedAgain :
    let ended := (Rendering.document scriptless executedAgain).run (.initial (.ofSeed 1))
    ended.2.events.filterMap declaration? = [("Inner", 9), ("Inner", 9), ("Outer", 0)] ∧
      ended.1 ≠ .error (.duplicateIdentifier "Inner" 9) := by
  intro ended
  have declared : declarations executedAgain.nodes = [("Outer", 0), ("Inner", 9)] := by
    decide +kernel
  refine ⟨by decide +kernel, no_false_duplicate executedAgain (by decide +kernel) ?_ _ _ _ _⟩
  intro name start place here there
  simp only [declared, List.mem_cons, Prod.mk.injEq, List.not_mem_nil, or_false] at here there
  rcases here with ⟨rfl, rfl⟩ | ⟨rfl, rfl⟩ <;> simp_all

/-! ## Who owns a name -/

/-- The record of the name is that of the node at the place. -/
def OwnedAt (name : String) (place : Nat) (state : RenderState) : Prop :=
  ∃ entry, state.ledger.get? name = some entry ∧ entry.origin = .declared place

theorem OwnedAt.unique {name : String} {place other : Nat} {state : RenderState}
    (owned : OwnedAt name place state) (owned' : OwnedAt name other state) : place = other := by
  obtain ⟨entry, found, origin⟩ := owned
  obtain ⟨_, found', origin'⟩ := owned'
  cases found.symm.trans found'
  cases origin.symm.trans origin'
  rfl

theorem OwnedAt.ne_none {name : String} {place : Nat} {state : RenderState}
    (owned : OwnedAt name place state) : state.ledger.get? name ≠ none := by
  obtain ⟨entry, found, -⟩ := owned
  rw [found]
  exact Option.some_ne_none entry

/-- The fork at the place has the record of the name, or will have the first one. -/
def Holds (name : String) (place : Nat) (state : RenderState) : Prop :=
  OwnedAt name place state ∨
    state.ledger.get? name = none ∧ openFork name state.events = some place

theorem Holds.unique {name : String} {place other : Nat} {state : RenderState}
    (holds : Holds name place state) (holds' : Holds name other state) : place = other := by
  rcases holds with owned | ⟨absent, opened⟩
  · rcases holds' with owned' | ⟨absent, -⟩
    · exact owned.unique owned'
    · exact absurd absent owned.ne_none
  · rcases holds' with owned | ⟨-, opened'⟩
    · exact absurd absent owned.ne_none
    · exact Option.some.inj (opened.symm.trans opened')

/-- Every fork with the name that was reached holds it, and no include has brought it. -/
structure Accounted (name : String) (state : RenderState) : Prop where
  forks : ∀ fork, .reached fork ∈ state.events → fork.identifier = some name →
    Holds name fork.span.start state
  own : ∀ entry, state.ledger.get? name = some entry → entry.origin ≠ .imported

/-- What a part of a render does to a name: whatever declared it owns it, unless it is a reference
that found no record of its target. -/
structure Advances (name : String) (before after : RenderState) : Prop where
  accounted : Accounted name after
  declared : ∀ event ∈ after.events, ∀ place, event.declaration? = some (name, place) →
    event ∈ before.events ∨ OwnedAt name place after ∨ IsMissed after.events event
  keeps : ∀ place, OwnedAt name place before → OwnedAt name place after
  untouched : after.ledger.get? name = none →
    before.ledger.get? name = none ∧ openFork name after.events = openFork name before.events

/-- As long as no node shadows a fork that is being executed, the name advances. -/
def Declares (name : String) (before after : RenderState) : Prop :=
  Grows before after ∧
    (Unshadowed name after.events → Accounted name before → Advances name before after)

section Laws

variable {name : String} {before between after state : RenderState}

theorem Advances.trans (first : Advances name before between) (second : Advances name between after)
    (grows : Grows between after) : Advances name before after where
  accounted := second.accounted
  keeps place owned := second.keeps place (first.keeps place owned)
  declared event member place declares := by
    rcases second.declared event member place declares with earlier | settled
    · rcases first.declared event earlier place declares with earlier | owned | missed
      · exact .inl earlier
      · exact .inr (.inl (second.keeps place owned))
      · exact .inr (.inr (missed.grow grows))
    · exact .inr settled
  untouched absent := by
    obtain ⟨absentBetween, opened⟩ := second.untouched absent
    obtain ⟨absentBefore, openedBefore⟩ := first.untouched absentBetween
    exact ⟨absentBefore, opened.trans openedBefore⟩

theorem Declares.trans (first : Declares name before between)
    (second : Declares name between after) : Declares name before after := by
  refine ⟨first.1.trans second.1, fun unshadowed accounted => ?_⟩
  have advanced := first.2 (unshadowed.of_suffix second.1) accounted
  exact advanced.trans (second.2 unshadowed advanced.accounted) second.1

/-- Changes that leave the record of the name alone and add events that skip it. -/
theorem declares_of_skips {events : List Event} (skips : ∀ event ∈ events, Skips name event)
    (ledger : after.ledger.get? name = before.ledger.get? name)
    (added : after.events = events ++ before.events) : Declares name before after := by
  have opened : openFork name after.events = openFork name before.events := by
    rw [added]
    clear added
    induction events with
    | nil => rfl
    | cons event events ih =>
      rw [List.cons_append, (skips event (List.mem_cons_self ..)).openFork,
        ih fun event member => skips event (List.mem_cons_of_mem _ member)]
  have earlier : ∀ event ∈ after.events, ∀ place, event.declaration? = some (name, place) →
      event ∈ before.events := by
    intro event member place declares
    rw [added] at member
    rcases List.mem_append.1 member with new | old
    · exact absurd declares ((skips event new).declaration place)
    · exact old
  have owned : ∀ place, OwnedAt name place after ↔ OwnedAt name place before := by
    intro place
    unfold OwnedAt
    rw [ledger]
  have grows : Grows before after := by
    rw [Grows, added]
    exact List.suffix_append ..
  refine ⟨grows, fun _ accounted => ⟨⟨?_, ?_⟩, ?_, ?_, ?_⟩⟩
  · intro fork member identifier
    have reached := earlier _ member fork.span.start (declaration?_reached identifier)
    unfold Holds
    rw [owned, ledger, opened]
    exact accounted.forks fork reached identifier
  · rw [ledger]
    exact accounted.own
  · intro event member place declares
    exact .inl (earlier event member place declares)
  · intro place ownedBefore
    exact (owned place).2 ownedBefore
  · intro absent
    exact ⟨ledger ▸ absent, opened⟩

theorem declares_noted {event : Event} (skips : Skips name event) (state : RenderState) :
    Declares name state (state.noted event) :=
  declares_of_skips (List.forall_mem_singleton.2 skips) rfl rfl

/-- A name advances to the record of a place that is the only one to have declared it. -/
theorem advances_of_owned {place : Nat} (owned : OwnedAt name place after)
    (forks : ∀ fork, .reached fork ∈ after.events → fork.identifier = some name →
      fork.span.start = place)
    (declared : ∀ event ∈ after.events, ∀ start, event.declaration? = some (name, start) →
      event ∈ before.events ∨ start = place ∨ IsMissed after.events event)
    (only : ∀ start, OwnedAt name start before → start = place) : Advances name before after where
  accounted := by
    constructor
    · intro fork member identifier
      rw [forks fork member identifier]
      exact .inl owned
    · intro entry found imported
      obtain ⟨_, found', origin⟩ := owned
      cases found.symm.trans found'
      rw [imported] at origin
      cases origin
  declared event member start declares := by
    rcases declared event member start declares with earlier | rfl | missed
    · exact .inl earlier
    · exact .inr (.inl owned)
    · exact .inr (.inr missed)
  keeps start ownedBefore := only start ownedBefore ▸ owned
  untouched absent := absurd absent owned.ne_none

theorem motion_declares : Motion (Declares name) (fun _ _ => True) where
  trans := Declares.trans
  fails_after _ _ := trivial
  fails_of_moves _ := trivial
  grows moved := moved.1
  unseen unseen := declares_of_skips (List.forall_mem_nil _) (by rw [unseen.ledger]) unseen.events
  quiet state _ isQuiet := declares_noted (skips_of_quiet isQuiet) state

/-- A node that can declare the name at the place is the only one to own it. -/
theorem Accounted.owned_of_free (accounted : Accounted name state) {place start : Nat}
    (free : state.Free name place) (owned : OwnedAt name start state) : start = place := by
  obtain ⟨entry, found, origin⟩ := owned
  rcases free entry found with same | imported
  · cases origin.symm.trans same
    rfl
  · exact absurd imported (accounted.own entry found)

theorem ownedAt_recording (state : RenderState) (live : LiveFork) (chosen : Option Nat)
    (rendered : String) (place : Nat) :
    OwnedAt name place (state.recording name ⟨live, chosen, rendered, .declared place⟩) :=
  ⟨_, RenderState.get?_recording_self .., rfl⟩

/-- Recording another name. -/
theorem declares_recording_other {other : String} (different : other ≠ name) (entry : Record)
    (state : RenderState) : Declares name state (state.recording other entry) :=
  declares_of_skips (List.forall_mem_nil _)
    (by rw [RenderState.get?_recording, if_neg different.symm]) rfl

end Laws

/-! ## Forks -/

section Forks

variable {name : String} {nested : Choice → Rendering String}
  (inner : ∀ choice, Follows (Declares name) (fun _ _ => True) (nested choice))
include inner

/-- Executions up to the event that the branch is finished. -/
theorem declares_execute (drawn : Option String) (live : LiveFork) (state : RenderState) :
    Ensures (execute nested drawn live) state
      (fun outcome later => ∃ rendered, Declares name state rendered ∧
        later = rendered.noted (.finished drawn outcome.1)) fun _ => True := by
  refine ensures_execute (fun _ _ => trivial) fun draw rest after _ drew => ?_
  have started : Declares name state after :=
    (declares_noted (skips_drew drawn live draw) state).trans (motion_declares.unseen drew)
  refine ((motion_declares.follows_renderBranch (fun branch _ => inner branch.choice) draw.index)
    after).imp (fun _ rendered moved => ?_) fun _ _ => trivial
  exact ⟨rendered, started.trans moved, rfl⟩

/-- An execution that is not drawn under the name. -/
theorem declares_execute_other {drawn : Option String} (other : drawn ≠ some name)
    (live : LiveFork) :
    Follows (Declares name) (fun _ _ => True) (execute nested drawn live) := by
  intro state
  refine (declares_execute inner drawn live state).imp ?_ fun _ _ => trivial
  rintro outcome _ ⟨rendered, moved, rfl⟩
  exact moved.trans (declares_noted (skips_finished other _) rendered)

omit inner in
theorem declares_registering_other {fork : Fork} (other : fork.identifier ≠ some name)
    (state : RenderState) : Declares name state (state.registering fork) := by
  unfold RenderState.registering
  split
  · exact motion_declares.same state
  · rename_i found identifier
    split
    · exact motion_declares.same state
    · refine declares_recording_other (fun same => ?_) _ state
      exact other (identifier.trans (congrArg some same))

omit inner in
theorem declares_keeping_other {fork : Fork} (other : fork.identifier ≠ some name)
    (live : LiveFork) (index : Nat) (rendered : String) (state : RenderState) :
    Declares name state (state.keeping fork live index rendered) := by
  unfold RenderState.keeping
  split
  · rename_i found identifier
    refine declares_recording_other (fun same => ?_) _ state
    exact other (identifier.trans (congrArg some same))
  · split
    · exact declares_of_skips (List.forall_mem_nil _) rfl rfl
    · exact motion_declares.same state

/-- A fork that does not declare the name. -/
theorem declares_renderFork_other {fork : Fork} (other : fork.identifier ≠ some name) :
    Follows (Declares name) (fun _ _ => True) (renderFork nested fork) := by
  intro state
  have reached := declares_noted (skips_reached other) state
  refine ensures_renderFork trivial (fun _ _ _ => ?_) fun _ _ => ?_
  · exact reached.trans (declares_registering_other other _)
  · refine (declares_execute_other inner other _ _).imp (fun outcome later moved => ?_)
      fun _ _ => trivial
    exact (reached.trans moved).trans (declares_keeping_other other ..)

omit inner in
/-- A node that is reached and declares the name without shadowing is at the place that holds it. -/
theorem eq_of_holds {state : RenderState} {event : Event} {place start : Nat}
    (unshadowed : Unshadowed name (event :: state.events))
    (declares : event.declaration? = some (name, place))
    (only : OwnedAt name start state → start = place) (holds : Holds name start state) :
    start = place := by
  rcases holds with owned | ⟨-, opened⟩
  · exact only owned
  · exact (unshadowed.2 _ declares rfl _ opened).symm

/-- A fork that declares the name. -/
theorem declares_renderFork_own {fork : Fork} (declares : fork.identifier = some name) :
    Follows (Declares name) (fun _ _ => True) (renderFork nested fork) := by
  intro state
  have declaresHere := declaration?_reached declares
  refine ensures_renderFork trivial (fun _ _ free => ?_) fun notLazy free => ?_
  · -- A silent set is recorded as soon as it is reached.
    refine ⟨(grows_noted state _).trans (grows_registering ..), fun unshadowed accounted => ?_⟩
    have only : ∀ start, OwnedAt name start state → start = fork.span.start :=
      fun start => accounted.owned_of_free (free name declares)
    have owned : OwnedAt name fork.span.start ((state.noted (.reached fork)).registering fork) := by
      unfold RenderState.registering
      rw [declares]
      simp only
      split
      · rename_i recorded
        obtain ⟨entry, found, origin⟩ := Option.map_eq_some_iff.1 recorded
        exact ⟨entry, found, origin⟩
      · exact ownedAt_recording ..
    rw [RenderState.registering_events] at unshadowed
    refine advances_of_owned owned ?_ ?_ only
    · intro other member identifier
      rw [RenderState.registering_events] at member
      rcases List.mem_cons.1 member with same | earlier
      · cases same
        rfl
      · exact eq_of_holds unshadowed declaresHere (only _)
          (accounted.forks other earlier identifier)
    · intro event member start found
      rw [RenderState.registering_events] at member
      rcases List.mem_cons.1 member with rfl | earlier
      · cases declaresHere.symm.trans found
        exact .inr (.inl rfl)
      · exact .inl earlier
  · -- The fork holds the name while its branch is rendered, and is recorded then.
    refine (declares_execute inner _ _ _).imp ?_ fun _ _ => trivial
    rintro outcome _ ⟨rendered, moved, rfl⟩
    have grows : Grows state rendered := (grows_noted state _).trans moved.1
    refine ⟨(grows.noted _).trans (grows_keeping ..), fun unshadowed accounted => ?_⟩
    rw [RenderState.keeping_events] at unshadowed
    have only : ∀ start, OwnedAt name start state → start = fork.span.start :=
      fun start => accounted.owned_of_free (free name declares)
    have unshadowedHere : Unshadowed name (.reached fork :: state.events) :=
      unshadowed.1.of_suffix moved.1
    have holds : Holds name fork.span.start (state.noted (.reached fork)) := by
      cases found : state.ledger.get? name with
      | none => exact .inr ⟨found, if_pos ⟨declares, notLazy⟩⟩
      | some entry =>
        have declared := (free name declares entry found).resolve_right (accounted.own entry found)
        exact .inl ⟨entry, found, declared⟩
    have accountedHere : Accounted name (state.noted (.reached fork)) := by
      refine ⟨fun other member identifier => ?_, accounted.own⟩
      rcases List.mem_cons.1 member with same | earlier
      · cases same
        exact holds
      · rw [eq_of_holds unshadowedHere declaresHere (only _)
          (accounted.forks other earlier identifier)]
        exact holds
    have advanced := moved.2 unshadowed.1 accountedHere
    have holdsAfter : Holds name fork.span.start rendered :=
      advanced.accounted.forks fork (moved.1.subset (List.mem_cons_self ..)) declares
    have owned : OwnedAt name fork.span.start ((rendered.noted (.finished fork.identifier
        outcome.1)).keeping fork outcome.1 outcome.2.1 outcome.2.2) := by
      unfold RenderState.keeping
      rw [declares]
      exact ownedAt_recording ..
    refine advances_of_owned owned ?_ ?_ only
    · intro other member identifier
      rw [RenderState.keeping_events] at member
      have earlier := List.mem_of_ne_of_mem (by simp) member
      exact (advanced.accounted.forks other earlier identifier).unique holdsAfter
    · intro event member start found
      rw [RenderState.keeping_events] at member ⊢
      rcases List.mem_cons.1 member with rfl | later
      · cases found
      · rcases advanced.declared event later start found with before | ownedAfter | missed
        · rcases List.mem_cons.1 before with rfl | earlier
          · cases declaresHere.symm.trans found
            exact .inr (.inl rfl)
          · exact .inl earlier
        · exact .inr (.inl (Holds.unique (.inl ownedAfter) holdsAfter))
        · exact .inr (.inr (missed.grow (List.suffix_cons ..)))

end Forks

/-! ## References -/

section References

variable {name : String} {nested : Choice → Rendering String}
  (inner : ∀ choice, Follows (Declares name) (fun _ _ => True) (nested choice))
include inner

/-- Executing the target of a reference again leaves its name to the place that owns it. -/
theorem declares_branchOf (reference : Reference) {target : Record} (state : RenderState)
    (found : state.ledger.get? reference.target = some target) :
    Ensures (branchOf nested reference target) state (fun _ later => Declares name state later)
      fun _ => True := by
  refine ensures_branchOf (fun _ _ _ => motion_declares.same state) ?_
  by_cases other : reference.target ≠ name
  · refine (declares_execute_other inner (fun same => other (Option.some.inj same)) _ _).imp
      (fun outcome later moved => ?_) fun _ _ => trivial
    exact moved.trans (declares_recording_other other _ later)
  · refine (declares_execute inner _ _ _).imp ?_ fun _ _ => trivial
    rintro outcome _ ⟨rendered, moved, rfl⟩
    have same : reference.target = name := Classical.not_not.1 other
    subst same
    refine ⟨(moved.1.noted _).trans List.suffix_rfl, fun unshadowed accounted => ?_⟩
    have advanced := moved.2 unshadowed.1 accounted
    cases origin : target.origin with
    | imported => exact absurd origin (accounted.own target found)
    | declared place =>
      have owned : OwnedAt reference.target place state := ⟨target, found, origin⟩
      have ownedAfter : OwnedAt reference.target place rendered := advanced.keeps place owned
      refine advances_of_owned (ownedAt_recording ..) ?_ ?_ fun start ownedAt =>
        ownedAt.unique owned
      · intro fork member identifier
        have earlier := List.mem_of_ne_of_mem (by simp) member
        exact (advanced.accounted.forks fork earlier identifier).unique (.inl ownedAfter)
      · intro event member start declares
        rcases List.mem_cons.1 member with rfl | later
        · cases declares
        · rcases advanced.declared event later start declares with before | ownedAt | missed
          · exact .inl before
          · exact .inr (.inl (ownedAt.unique ownedAfter))
          · exact .inr (.inr (missed.grow (List.suffix_cons ..)))

theorem declares_answerAbsent (reference : Reference) (state : RenderState) :
    Ensures (answerAbsent nested reference) state
      (fun _ later => Declares name state later ∧ .missed reference ∈ later.events)
      fun _ => True := by
  have missed : Declares name state (state.noted (.missed reference)) :=
    declares_noted (skips_of_quiet (.missed reference)) state
  unfold answerAbsent
  rw [ensures_bind, ensures_note]
  split
  · exact trivial
  · split
    · rename_i choice _
      refine (inner choice _).imp (fun _ later moved => ?_) fun _ _ => trivial
      exact ⟨missed.trans moved, moved.1.subset (List.mem_cons_self ..)⟩
    · exact ⟨missed.trans (motion_declares.unseen ⟨rfl, rfl, rfl⟩), List.mem_cons_self ..⟩

omit inner in
theorem declares_naming_other {reference : Reference} (other : reference.identifier ≠ some name)
    (live : LiveFork) (index : Nat) (output : String) (state : RenderState) :
    Declares name state (state.naming reference live index output) := by
  unfold RenderState.naming
  split
  · rename_i found identifier
    refine declares_recording_other (fun same => ?_) _ state
    exact other (identifier.trans (congrArg some same))
  · exact motion_declares.same state

/-- A reference that does not declare the name. -/
theorem declares_renderReference_other {reference : Reference}
    (other : reference.identifier ≠ some name) :
    Follows (Declares name) (fun _ _ => True) (renderReference nested reference) := by
  intro state
  have referred := declares_noted (skips_referred other) state
  refine ensures_renderReference (fun _ => ?_) fun target found => ?_
  · exact motion_declares.ensures_of_moves
      (motion_declares.follows_answerAbsent fun choice _ => inner choice) referred
  · refine (declares_branchOf inner reference (state.noted (.referred reference)) found).imp
      (fun taken later moved => ?_) fun _ _ => trivial
    refine (motion_declares.ensures_of_moves (motion_declares.follows_answer
      (fun _ choice _ => inner choice) _ _) (referred.trans moved)).imp
      (fun output after answered => ⟨trivial, fun _ => ?_⟩) fun _ _ => trivial
    exact answered.trans (declares_naming_other other ..)

/-- A reference that declares the name, unless its target has no record. -/
theorem declares_renderReference_own {reference : Reference}
    (declares : reference.identifier = some name) :
    Follows (Declares name) (fun _ _ => True) (renderReference nested reference) := by
  intro state
  have declaresHere := declaration?_referred declares
  have grown := grows_noted state (.referred reference)
  have accountedHere : Accounted name state →
      Accounted name (state.noted (.referred reference)) := by
    intro accounted
    refine ⟨fun fork member identifier => ?_, accounted.own⟩
    exact accounted.forks fork (List.mem_of_ne_of_mem (by simp) member) identifier
  refine ensures_renderReference (fun _ => ?_) fun target found => ?_
  · refine (declares_answerAbsent inner reference _).imp ?_ fun _ _ => trivial
    rintro _ later ⟨moved, missed⟩
    refine ⟨grown.trans moved.1, fun unshadowed accounted => ?_⟩
    have advanced := moved.2 unshadowed (accountedHere accounted)
    refine { advanced with declared := fun event member start found => ?_ }
    rcases advanced.declared event member start found with before | settled
    · rcases List.mem_cons.1 before with rfl | earlier
      · exact .inr (.inr (isMissed_of_mem missed))
      · exact .inl earlier
    · exact .inr settled
  · refine (declares_branchOf inner reference (state.noted (.referred reference)) found).imp
      (fun taken later moved => ?_) fun _ _ => trivial
    refine (motion_declares.ensures_of_moves (motion_declares.follows_answer
      (fun _ choice _ => inner choice) _ _) moved).imp
      (fun output after answered => ⟨trivial, fun free => ?_⟩) fun _ _ => trivial
    refine ⟨(grown.trans answered.1).trans (grows_naming ..), fun unshadowed accounted => ?_⟩
    rw [RenderState.naming_events] at unshadowed
    have advanced := answered.2 unshadowed (accountedHere accounted)
    have only : ∀ start, OwnedAt name start after → start = reference.span.start :=
      fun start => advanced.accounted.owned_of_free (free name declares)
    have owned : OwnedAt name reference.span.start
        (after.naming reference taken.1 taken.2.1 output) := by
      unfold RenderState.naming
      rw [declares]
      exact ownedAt_recording ..
    refine advances_of_owned owned ?_ ?_ fun start ownedBefore =>
      only start (advanced.keeps start ownedBefore)
    · intro fork member identifier
      rw [RenderState.naming_events] at member
      rcases advanced.accounted.forks fork member identifier with ownedAfter | ⟨absent, opened⟩
      · exact only _ ownedAfter
      · -- The fork was open when the reference was reached.
        have openedBefore := (advanced.untouched absent).2.symm.trans opened
        have unshadowedHere : Unshadowed name (.referred reference :: state.events) :=
          unshadowed.of_suffix answered.1
        exact (unshadowedHere.2 _ declaresHere rfl _ openedBefore).symm
    · intro event member start declared
      rw [RenderState.naming_events] at member ⊢
      rcases advanced.declared event member start declared with before | ownedAfter | missed
      · rcases List.mem_cons.1 before with rfl | earlier
        · cases declaresHere.symm.trans declared
          exact .inr (.inl rfl)
        · exact .inl earlier
      · exact .inr (.inl (only start ownedAfter))
      · exact .inr (.inr missed)

end References

/-! ## Whole renders -/

/-- Inert renders keep to the law of the name. -/
theorem declares_inertDocument (name : String) (document : Document) :
    Follows (Declares name) (fun _ _ => True) (inertDocument document) := by
  refine motion_declares.follows_inertDocument (fun nested fork inner => ?_)
    (fun nested reference inner => ?_) document
  · by_cases declares : fork.identifier = some name
    · exact declares_renderFork_own inner declares
    · exact declares_renderFork_other inner declares
  · by_cases declares : reference.identifier = some name
    · exact declares_renderReference_own inner declares
    · exact declares_renderReference_other inner declares

/-- In a successful render of a document without scripts, a name is declared at one place only:
as long as no other node that declares it is reached while a fork with the name is being executed,
and but for references that found no record of their target. -/
theorem declared_once_of_unshadowed {setting : Setting} {document : Document}
    {generator : Generator} {text : String} {state : RenderState}
    (scriptless : document.scripts = [])
    (rendered : (Rendering.document setting document).run (.initial generator) = (.ok text, state))
    {name : String} (unshadowed : Unshadowed name state.events) {event other : Event}
    (occurred : event ∈ state.events) (otherOccurred : other ∈ state.events)
    (found : ¬ IsMissed state.events event) (otherFound : ¬ IsMissed state.events other)
    {start place : Nat} (declares : event.declaration? = some (name, start))
    (otherDeclares : other.declaration? = some (name, place)) : start = place := by
  have inert : (inertDocument document).run (.initial generator) = (.ok text, state) := by
    obtain ⟨same, -⟩ := inStep_document (.inr scriptless) _
      (dormant_initial document.nodes generator)
    exact same.symm.trans rendered
  have moved := declares_inertDocument name document (.initial generator)
  rw [ensures_of_run_ok inert] at moved
  have accounted : Accounted name (.initial generator) :=
    ⟨fun _ member => absurd member List.not_mem_nil, fun _ found => by cases found⟩
  have advanced := moved.2 unshadowed accounted
  have owned : ∀ {event place}, event ∈ state.events → ¬ IsMissed state.events event →
      event.declaration? = some (name, place) → OwnedAt name place state := by
    intro event place occurred found declares
    rcases advanced.declared event occurred place declares with before | owned | missed
    · exact absurd before List.not_mem_nil
    · exact owned
    · exact absurd missed found
  exact (owned occurred found declares).unique (owned otherOccurred otherFound otherDeclares)

/-- The fork within is executed twice from the same place. -/
theorem declared_once_of_unshadowed_executedAgain :
    let ended := (Rendering.document scriptless executedAgain).run (.initial (.ofSeed 1))
    ended.1.toOption = some "aa" ∧ Unshadowed "Inner" ended.2.events ∧
      ∀ start place, ("Inner", start) ∈ ended.2.events.filterMap declaration? →
        ("Inner", place) ∈ ended.2.events.filterMap declaration? → start = place := by
  intro ended
  have rendered : ended.1.toOption = some "aa" := by decide +kernel
  have noneMissed : (missedIn ended.2.events).isEmpty = true := by decide +kernel
  have found : ∀ event, ¬ IsMissed ended.2.events event := by
    rintro event ⟨reference, listed, -⟩
    rw [List.isEmpty_iff.1 noneMissed] at listed
    exact List.not_mem_nil listed
  refine ⟨rendered, by decide +kernel, ?_⟩
  intro start place here there
  obtain ⟨event, occurred, declares⟩ := List.mem_filterMap.1 here
  obtain ⟨other, otherOccurred, otherDeclares⟩ := List.mem_filterMap.1 there
  exact @declared_once_of_unshadowed scriptless executedAgain (.ofSeed 1) "aa" ended.2
    (by decide +kernel) (run_of_toOption rendered) "Inner" (by decide +kernel) event other occurred
    otherOccurred (found _) (found _) start place declares otherDeclares

/-- A fork in the branch of a fork with the same name. -/
def shadowing : Document := ⟨[single "A" [single "A" [.text "x"] 5 13] 0 15], [], []⟩

/-- The inner fork is reached while the outer one has no record yet, and neither is a duplicate. -/
theorem not_declared_once_shadowing :
    ¬ ∀ (setting : Setting) (document : Document) (generator : Generator) (text : String)
        (state : RenderState), document.scripts = [] →
      (Rendering.document setting document).run (.initial generator) = (.ok text, state) →
      ∀ event ∈ state.events, ∀ other ∈ state.events, ∀ name start place,
        event.declaration? = some (name, start) → other.declaration? = some (name, place) →
          start = place := by
  intro claim
  let ended := (Rendering.document scriptless shadowing).run (.initial (.ofSeed 1))
  have rendered : ended.1.toOption = some "x" := by decide +kernel
  have declared : ended.2.events.filterMap declaration? = [("A", 5), ("A", 0)] := by decide +kernel
  have inner : ("A", 5) ∈ ended.2.events.filterMap declaration? := by rw [declared]; decide
  have outer : ("A", 0) ∈ ended.2.events.filterMap declaration? := by rw [declared]; decide
  obtain ⟨event, occurred, declares⟩ := List.mem_filterMap.1 inner
  obtain ⟨other, otherOccurred, otherDeclares⟩ := List.mem_filterMap.1 outer
  have same := claim scriptless shadowing (.ofSeed 1) "x" ended.2 (by decide +kernel)
    (run_of_toOption rendered) event occurred other otherOccurred "A" 5 0 declares otherDeclares
  exact absurd same (by decide)

end Rendering

end BranchText
