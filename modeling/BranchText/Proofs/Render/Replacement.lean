import BranchText.Proofs.Render.Reached
import BranchText.Render.Output

/-!
# Drawing without replacement over whole renders

A render draws from a copy of the record of a name and writes the record once the branch has been
rendered. What a draw avoids is therefore what the record knew when it was made: `dealt` keeps
count of this along the events. As long as nothing is drawn from the name while one of its branches
is rendered, the record knows all draws, and no branch is taken twice between two refills.
-/

namespace BranchText

namespace Event

/-- The draw of an event that draws from the record of the fork with the name. -/
def drawFrom? (name : String) : Event → Option Draw
  | .drew (some other) live draw =>
    if other = name ∧ live.fork.identifier = some name then some draw else none
  | _ => none

/-- Whether the event finishes the branch of a draw from the fork with the name. -/
def finishes (name : String) : Event → Bool
  | .finished (some other) live => other = name ∧ live.fork.identifier = some name
  | _ => false

/-- The draws from the fork with the name, in order. -/
def drawsFrom (name : String) (events : List Event) : List Draw :=
  (events.filterMap (drawFrom? name)).reverse

end Event

/-- What has been drawn from a name, the latest first. -/
structure Dealt where
  /-- The draws that the record of the name knows. -/
  settled : List Draw
  /-- For each draw whose branch is still being rendered, the innermost first: the draws that the
  record will know when it is. -/
  pending : List (List Draw)

namespace Dealt

/-- What has been drawn after one more event. -/
def after (name : String) (event : Event) (dealt : Dealt) : Dealt :=
  match event.drawFrom? name with
  | some draw => ⟨dealt.settled, (draw :: dealt.settled) :: dealt.pending⟩
  | none =>
    if event.finishes name then
      match dealt.pending with
      | [] => dealt
      | settled :: pending => ⟨settled, pending⟩
    else dealt

/-- What has been drawn in events, the latest of which comes first. -/
def of (name : String) (events : List Event) : Dealt := events.foldr (after name) ⟨[], []⟩

end Dealt

/-- No draw is made from the name while a branch drawn from it is being rendered. -/
def Unnested (name : String) : List Event → Prop
  | [] => True
  | event :: earlier =>
    ((event.drawFrom? name).isSome → (Dealt.of name earlier).pending = []) ∧ Unnested name earlier

instance Unnested.instDecidable (name : String) :
    (events : List Event) → Decidable (Unnested name events)
  | [] => .isTrue trivial
  | _ :: earlier =>
    have := instDecidable name earlier
    instDecidableAnd

/-- Every draw from the name avoids what its record knew to be taken since the last refill. -/
def AvoidsKnown (name : String) : List Event → Prop
  | [] => True
  | event :: earlier =>
    (∀ draw, event.drawFrom? name = some draw → draw.refilled = false →
      draw.index ∉ Deck.spentSince (Dealt.of name earlier).settled) ∧ AvoidsKnown name earlier

section Events

variable {name : String} {event : Event} {earlier : List Event}

theorem Dealt.of_draw {draw : Draw} (draws : event.drawFrom? name = some draw) :
    Dealt.of name (event :: earlier) = ⟨(Dealt.of name earlier).settled,
      (draw :: (Dealt.of name earlier).settled) :: (Dealt.of name earlier).pending⟩ := by
  change Dealt.after name event (Dealt.of name earlier) = _
  rw [Dealt.after, draws]

theorem Dealt.of_other (noDraw : event.drawFrom? name = none)
    (noFinish : event.finishes name = false) :
    Dealt.of name (event :: earlier) = Dealt.of name earlier := by
  change Dealt.after name event (Dealt.of name earlier) = _
  rw [Dealt.after, noDraw, noFinish]
  rfl

theorem Dealt.of_stray (noDraw : event.drawFrom? name = none)
    (closed : (Dealt.of name earlier).pending = []) :
    Dealt.of name (event :: earlier) = Dealt.of name earlier := by
  change Dealt.after name event (Dealt.of name earlier) = _
  rw [Dealt.after, noDraw]
  simp only [closed]
  split <;> rfl

theorem Dealt.of_finish {settled : List Draw} {pending : List (List Draw)}
    (noDraw : event.drawFrom? name = none) (finishes : event.finishes name = true)
    (isPending : (Dealt.of name earlier).pending = settled :: pending) :
    Dealt.of name (event :: earlier) = ⟨settled, pending⟩ := by
  change Dealt.after name event (Dealt.of name earlier) = _
  rw [Dealt.after, noDraw, finishes]
  simp only [if_true, isPending]

/-- While no draw is nested in another, the record of the name knows all draws but the open one. -/
theorem dealt_of_unnested {events : List Event} (unnested : Unnested name events) :
    (Dealt.of name events).pending = [] ∧
        (Dealt.of name events).settled = events.filterMap (Event.drawFrom? name) ∨
      (Dealt.of name events).pending = [events.filterMap (Event.drawFrom? name)] := by
  induction events with
  | nil => exact .inl ⟨rfl, rfl⟩
  | cons event earlier ih =>
    obtain ⟨here, unnestedBefore⟩ := unnested
    rw [List.filterMap_cons]
    cases draws : event.drawFrom? name with
    | some draw =>
      have closed := here (by rw [draws]; rfl)
      rcases ih unnestedBefore with ⟨-, settled⟩ | opened
      · refine .inr ?_
        rw [Dealt.of_draw draws, closed, settled]
      · rw [closed] at opened
        cases opened
    | none =>
      rcases ih unnestedBefore with ⟨closed, settled⟩ | opened
      · rw [Dealt.of_stray draws closed]
        exact .inl ⟨closed, settled⟩
      · by_cases finishes : event.finishes name = true
        · rw [Dealt.of_finish draws finishes opened]
          exact .inl ⟨rfl, rfl⟩
        · rw [Dealt.of_other draws (Bool.eq_false_iff.2 finishes)]
          exact .inr opened

/-- While no draw is nested in another, every draw avoids all that were made since the last
refill. -/
theorem avoids_of_unnested {events : List Event} (unnested : Unnested name events)
    (avoids : AvoidsKnown name events) : Deck.Avoids (events.filterMap (Event.drawFrom? name)) := by
  induction events with
  | nil => exact trivial
  | cons event earlier ih =>
    obtain ⟨here, unnestedBefore⟩ := unnested
    obtain ⟨known, avoidsBefore⟩ := avoids
    have before := ih unnestedBefore avoidsBefore
    rw [List.filterMap_cons]
    cases draws : event.drawFrom? name with
    | none => exact before
    | some draw =>
      have closed := here (by rw [draws]; rfl)
      rcases dealt_of_unnested unnestedBefore with ⟨-, settled⟩ | opened
      · rw [settled] at known
        exact ⟨known draw draws, before⟩
      · rw [closed] at opened
        cases opened

end Events

namespace Rendering

/-! ## The record of the name -/

section Record

variable {name : String} {fork : Fork}

/-- The record of the name is one that the fork declared. -/
def Owned (name : String) (fork : Fork) (state : RenderState) : Prop :=
  ∃ entry, state.ledger.get? name = some entry ∧ entry.origin = .declared fork.span.start

/-- The live weights are those of the fork, and none are left of what its record knows to be
taken. -/
structure Drawable (name : String) (fork : Fork) (events : List Event) (live : LiveFork) :
    Prop where
  fork : live.fork = fork
  isSet : live.deck.isSet = true
  depleted : live.deck.Depleted (Deck.spentSince (Dealt.of name events).settled)

/-- What holds of the record of the name between the steps of a render. -/
structure Tracked (name : String) (fork : Fork) (state : RenderState) : Prop where
  /-- The record was not imported. -/
  declared : ∀ entry, state.ledger.get? name = some entry → entry.origin ≠ .imported
  own : ∀ entry, state.ledger.get? name = some entry →
    entry.origin = .declared fork.span.start → Drawable name fork state.events entry.live
  /-- Weights of the fork are recorded under other names only after the fork was. -/
  owner : ∀ other entry, state.ledger.get? other = some entry →
    entry.live.fork.identifier = some name → Owned name fork state
  settled : ¬ Owned name fork state → (Dealt.of name state.events).settled = []
  avoids : AvoidsKnown name state.events

/-- What a part of a render leaves as it was: which branches are being rendered, and who declared
the name. -/
structure Keeps (name : String) (fork : Fork) (before after : RenderState) : Prop where
  tracked : Tracked name fork after
  pending : (Dealt.of name after.events).pending = (Dealt.of name before.events).pending
  origin : ∀ entry, before.ledger.get? name = some entry →
    ∃ later, after.ledger.get? name = some later ∧ later.origin = entry.origin

/-- Nothing is claimed of a render that includes, or in which another node declares the name. -/
inductive Spoiled (name : String) (fork : Fork) (events : List Event) : Prop
  | loaded (loaded : Loaded events)
  | reached (other : Fork) (member : .reached other ∈ events)
    (declares : other.identifier = some name) (different : other ≠ fork)
  | referred (reference : Reference) (member : .referred reference ∈ events)
    (declares : reference.identifier = some name)
    (place : reference.span.start = fork.span.start)

theorem Spoiled.grow {events later : List Event} (spoiled : Spoiled name fork events)
    (grows : events <:+ later) : Spoiled name fork later := by
  cases spoiled with
  | loaded loaded => exact .loaded (loaded.grow grows)
  | reached other member declares different =>
    exact .reached other (grows.subset member) declares different
  | referred reference member declares place =>
    exact .referred reference (grows.subset member) declares place

/-- A part of a render that is not spoiled keeps track of the name. -/
def Proceeds (name : String) (fork : Fork) (before after : RenderState) : Prop :=
  Grows before after ∧
    (Spoiled name fork after.events ∨ (Tracked name fork before → Keeps name fork before after))

theorem Keeps.trans {first second third : RenderState} (earlier : Keeps name fork first second)
    (later : Keeps name fork second third) : Keeps name fork first third where
  tracked := later.tracked
  pending := later.pending.trans earlier.pending
  origin entry found := by
    obtain ⟨middle, foundMiddle, sameMiddle⟩ := earlier.origin entry found
    obtain ⟨last, foundLast, sameLast⟩ := later.origin middle foundMiddle
    exact ⟨last, foundLast, sameLast.trans sameMiddle⟩

theorem Keeps.owned {before after : RenderState} (keeps : Keeps name fork before after)
    (owned : Owned name fork before) : Owned name fork after := by
  obtain ⟨entry, found, origin⟩ := owned
  obtain ⟨later, foundLater, same⟩ := keeps.origin entry found
  exact ⟨later, foundLater, same.trans origin⟩

theorem Proceeds.trans {first second third : RenderState} (earlier : Proceeds name fork first second)
    (later : Proceeds name fork second third) : Proceeds name fork first third := by
  refine ⟨earlier.1.trans later.1, ?_⟩
  rcases later.2 with spoiled | keepsLater
  · exact .inl spoiled
  · rcases earlier.2 with spoiled | keepsEarlier
    · exact .inl (spoiled.grow later.1)
    · exact .inr fun tracked => (keepsEarlier tracked).trans
        (keepsLater (keepsEarlier tracked).tracked)

/-- A step at the end of a part, for which one may use what the part kept. -/
theorem Proceeds.step {first second third : RenderState} (earlier : Proceeds name fork first second)
    (grows : Grows second third)
    (keeps : Tracked name fork first → Keeps name fork first second →
      Keeps name fork second third) : Proceeds name fork first third := by
  refine ⟨earlier.1.trans grows, ?_⟩
  rcases earlier.2 with spoiled | kept
  · exact .inl (spoiled.grow grows)
  · exact .inr fun tracked => (kept tracked).trans (keeps tracked (kept tracked))

/-- States with the same ledger, and events from which the same is known. -/
theorem Tracked.same {before after : RenderState} (tracked : Tracked name fork before)
    (ledger : after.ledger = before.ledger)
    (dealt : (Dealt.of name after.events).settled = (Dealt.of name before.events).settled)
    (avoids : AvoidsKnown name after.events) : Tracked name fork after := by
  have owned : Owned name fork after ↔ Owned name fork before := by
    unfold Owned
    rw [ledger]
  refine ⟨?_, ?_, ?_, ?_, avoids⟩
  · rw [ledger]
    exact tracked.declared
  · rw [ledger]
    intro entry found origin
    obtain ⟨fork, isSet, depleted⟩ := tracked.own entry found origin
    exact ⟨fork, isSet, by rw [dealt]; exact depleted⟩
  · rw [ledger, owned]
    exact tracked.owner
  · rw [owned, dealt]
    exact tracked.settled

theorem keeps_same {before after : RenderState} (tracked : Tracked name fork before)
    (ledger : after.ledger = before.ledger) (events : after.events = before.events) :
    Keeps name fork before after where
  tracked := tracked.same ledger (by rw [events]) (by rw [events]; exact tracked.avoids)
  pending := by rw [events]
  origin entry found := ⟨entry, by rw [ledger]; exact found, rfl⟩

/-- Events that neither draw from the name nor finish a branch of it. -/
theorem keeps_noted {state : RenderState} (tracked : Tracked name fork state) {event : Event}
    (noDraw : event.drawFrom? name = none) (noFinish : event.finishes name = false) :
    Keeps name fork state (state.noted event) where
  tracked := tracked.same rfl (by rw [RenderState.noted_events, Dealt.of_other noDraw noFinish])
    ⟨fun draw draws => (by rw [noDraw] at draws; cases draws), tracked.avoids⟩
  pending := by rw [RenderState.noted_events, Dealt.of_other noDraw noFinish]
  origin entry found := ⟨entry, found, rfl⟩

/-! ### Recording -/

/-- A record under another name; if it is of weights of the fork, then the fork has its own. -/
theorem keeps_recording_other {state : RenderState} (tracked : Tracked name fork state)
    {other : String} (different : other ≠ name) {entry : Record}
    (owner : entry.live.fork.identifier = some name → Owned name fork state) :
    Keeps name fork state (state.recording other entry) := by
  have same : (state.recording other entry).ledger.get? name = state.ledger.get? name := by
    rw [RenderState.get?_recording, if_neg (Ne.symm different)]
  have owned : Owned name fork (state.recording other entry) ↔ Owned name fork state := by
    unfold Owned
    rw [same]
  refine ⟨⟨?_, ?_, fun third found present => ?_, ?_, tracked.avoids⟩, rfl, fun found present => ?_⟩
  · rw [same]
    exact tracked.declared
  · rw [same]
    exact tracked.own
  · rw [RenderState.get?_recording] at present
    rw [owned]
    split at present
    · cases present
      exact owner
    · exact tracked.owner third found present
  · rw [owned]
    exact tracked.settled
  · exact ⟨found, same.trans present, rfl⟩

/-- A record under the name by a node elsewhere, of weights of another fork. -/
theorem keeps_recording_elsewhere {state : RenderState} (tracked : Tracked name fork state)
    {entry : Record} (elsewhere : entry.origin ≠ .declared fork.span.start)
    (declared : entry.origin ≠ .imported) (foreign : entry.live.fork.identifier ≠ some name)
    (same : ∀ before, state.ledger.get? name = some before → before.origin = entry.origin) :
    Keeps name fork state (state.recording name entry) := by
  have present := state.get?_recording_self name entry
  have notOwned : ¬ Owned name fork state := fun ⟨before, found, origin⟩ =>
    elsewhere ((same before found).symm.trans origin)
  refine ⟨⟨fun found here => ?_, fun found here origin => ?_, fun other found here of => ?_,
    fun _ => tracked.settled notOwned, tracked.avoids⟩, rfl, fun before here => ?_⟩
  · rw [present] at here
    cases here
    exact declared
  · rw [present] at here
    cases here
    exact absurd origin elsewhere
  · rw [RenderState.get?_recording] at here
    split at here
    · cases here
      exact absurd of foreign
    · exact absurd (tracked.owner other found here of) notOwned
  · exact ⟨entry, present, (same before here).symm⟩

/-- A record of the fork under its own name. -/
theorem tracked_recording_own {state : RenderState} {entry : Record}
    (origin : entry.origin = .declared fork.span.start)
    (drawable : Drawable name fork state.events entry.live)
    (avoids : AvoidsKnown name state.events) :
    Tracked name fork (state.recording name entry) := by
  have present := state.get?_recording_self name entry
  have owned : Owned name fork (state.recording name entry) := ⟨entry, present, origin⟩
  refine ⟨fun found here => ?_, fun found here _ => ?_, fun _ _ _ _ => owned,
    fun notOwned => absurd owned notOwned, avoids⟩
  · rw [present] at here
    cases here
    rw [origin]
    exact Origin.noConfusion
  · rw [present] at here
    cases here
    exact drawable

/-! ### Draws -/

/-- A draw from the name avoids what its record knows to be taken. -/
theorem tracked_drew {state : RenderState} (tracked : Tracked name fork state) {live : LiveFork}
    (drawable : Drawable name fork state.events live) {event : Event} {draw : Draw}
    {rest : Deck Float} (draws : event.drawFrom? name = some draw)
    (deals : live.deck.Deals Generator.below draw rest) :
    Tracked name fork (state.noted event) := by
  refine tracked.same rfl (by rw [RenderState.noted_events, Dealt.of_draw draws])
    ⟨fun other draws' goesOn => ?_, tracked.avoids⟩
  rw [draws] at draws'
  cases draws'
  exact deals.notMem drawable.depleted goesOn

/-- Once its branch has been rendered, the record knows the draw. -/
theorem drawable_finished {state after later : RenderState} {live : LiveFork}
    (drawable : Drawable name fork state.events live) {event finish : Event} {draw : Draw}
    {rest : Deck Float} (draws : event.drawFrom? name = some draw)
    (deals : live.deck.Deals Generator.below draw rest)
    (events : after.events = event :: state.events) (keeps : Keeps name fork after later)
    (noDraw : finish.drawFrom? name = none) (finishes : finish.finishes name = true) :
    Drawable name fork (later.noted finish).events ⟨live.fork, rest⟩ ∧
      (Dealt.of name (later.noted finish).events).pending = (Dealt.of name state.events).pending := by
  have pending := keeps.pending
  rw [events, Dealt.of_draw draws] at pending
  rw [RenderState.noted_events, Dealt.of_finish noDraw finishes pending]
  refine ⟨⟨drawable.fork, deals.isSet.trans drawable.isSet, ?_⟩, rfl⟩
  rw [Dealt.of_finish noDraw finishes pending]
  exact deals.depleted drawable.isSet (by decide +kernel) drawable.depleted

end Record

/-! ## Steps -/

section Steps

variable {name : String} {fork : Fork}

theorem motion_proceeds : Motion (Proceeds name fork) fun _ _ => True where
  trans := Proceeds.trans
  fails_after _ _ := trivial
  fails_of_moves _ := trivial
  grows moved := moved.1
  unseen unseen := ⟨motion_grows.unseen unseen, .inr fun tracked =>
    keeps_same tracked unseen.ledger unseen.events⟩
  quiet state event isQuiet := ⟨grows_noted state event, .inr fun tracked =>
    keeps_noted tracked (by cases isQuiet <;> rfl) (by cases isQuiet <;> rfl)⟩

/-- Growth is all that is asked of a part if nothing is claimed of it. -/
theorem proceeds_of_spoiled {before middle after : RenderState} (grows : Grows before middle)
    (later : Grows middle after) (spoiled : ¬ Tracked name fork before ∨ Spoiled name fork middle.events) :
    Proceeds name fork before after := by
  refine ⟨grows.trans later, ?_⟩
  rcases spoiled with untracked | spoiled
  · exact .inr fun tracked => absurd tracked untracked
  · exact .inl (spoiled.grow later)

variable {nested : Choice → Rendering String}
  (inner : ∀ choice, Follows (Proceeds name fork) (fun _ _ => True) (nested choice))
include inner

/-- Drawing from something else. -/
theorem proceeds_execute_other {state : RenderState} {other : Option String} {live : LiveFork}
    (foreign : other = some name → live.fork.identifier ≠ some name) :
    Ensures (execute nested other live) state (fun outcome later =>
      outcome.1.fork = live.fork ∧ Proceeds name fork state later) fun _ => True := by
  refine ensures_execute (fun _ _ => trivial) fun draw rest after _ drew => ?_
  have noDraw : (Event.drew other live draw).drawFrom? name = none := by
    cases other with
    | none => rfl
    | some other =>
      rw [Event.drawFrom?, if_neg]
      exact fun ⟨same, identifier⟩ => foreign (congrArg some same) identifier
  have noFinish : (Event.finished other ⟨live.fork, rest⟩).finishes name = false := by
    cases other with
    | none => rfl
    | some other =>
      rw [Event.finishes, decide_eq_false_iff_not]
      exact fun ⟨same, identifier⟩ => foreign (congrArg some same) identifier
  have drawn : Proceeds name fork state after := motion_proceeds.trans
    ⟨grows_noted state _, .inr fun tracked => keeps_noted tracked noDraw rfl⟩
    (motion_proceeds.unseen drew)
  refine (motion_proceeds.ensures_of_moves (motion_proceeds.follows_renderBranch
    (fun branch _ => inner branch.choice) draw.index) drawn).imp (fun _ later moved => ⟨rfl, ?_⟩)
    fun _ failed => failed
  exact moved.step (grows_noted later _) fun _ kept => keeps_noted kept.tracked rfl noFinish

/-- Drawing from the name, and recording what is left. -/
theorem proceeds_execute_own {state : RenderState} {live : LiveFork}
    (declares : fork.identifier = some name) (tracked : Tracked name fork state)
    (drawable : Drawable name fork state.events live)
    (origin : ∀ entry, state.ledger.get? name = some entry →
      entry.origin = .declared fork.span.start) :
    Ensures (execute nested (some name) live) state (fun outcome later =>
      outcome.1.fork = live.fork ∧ Proceeds name fork state (later.recording name
        ⟨outcome.1, some outcome.2.1, outcome.2.2, .declared fork.span.start⟩)) fun _ => True := by
  refine ensures_execute (fun _ _ => trivial) fun draw rest after deals drew => ?_
  have identifier : live.fork.identifier = some name := by rw [drawable.fork, declares]
  have draws : (Event.drew (some name) live draw).drawFrom? name = some draw := by
    rw [Event.drawFrom?, if_pos ⟨rfl, identifier⟩]
  have finishes : (Event.finished (some name) ⟨live.fork, rest⟩).finishes name = true := by
    rw [Event.finishes, decide_eq_true_iff]
    exact ⟨rfl, identifier⟩
  have trackedDrew := tracked_drew tracked drawable draws deals
  have trackedAfter := (keeps_same trackedDrew drew.ledger drew.events).tracked
  have drewGrows : Grows state after := (grows_noted state _).trans (motion_grows.unseen drew)
  refine (motion_proceeds.follows_renderBranch (fun branch _ => inner branch.choice)
    draw.index after).imp (fun rendered later moved => ⟨rfl, ?_⟩) fun _ failed => failed
  refine ⟨(drewGrows.trans moved.1).trans (grows_noted later _), ?_⟩
  rcases moved.2 with spoiled | keeps
  · exact .inl (spoiled.grow (grows_noted later _))
  · have kept := keeps trackedAfter
    obtain ⟨drawableLater, pending⟩ :=
      drawable_finished drawable draws deals drew.events kept rfl finishes
    have avoids : AvoidsKnown name (later.noted (.finished (some name) ⟨live.fork, rest⟩)).events :=
      ⟨fun draw draws => (by cases draws), kept.tracked.avoids⟩
    refine .inr fun _ => ⟨tracked_recording_own rfl drawableLater avoids, pending, ?_⟩
    exact fun entry found =>
      ⟨_, RenderState.get?_recording_self .., (origin entry found).symm⟩

omit inner in
/-- Weights of the fork under the name of another are recorded only after the fork. -/
theorem owned_of_liveOf {state : RenderState} (tracked : Tracked name fork state) {other : Fork}
    (different : other.identifier ≠ some name) (named : other.identifier ≠ none)
    (identifier : (state.liveOf other).fork.identifier = some name) : Owned name fork state := by
  have source := state.liveOf_source other
  generalize state.liveOf other = live at source identifier
  cases source with
  | full => exact absurd identifier different
  | recorded _ found _ => exact tracked.owner _ _ found identifier
  | kept unnamed _ _ => exact absurd unnamed named

omit inner in
theorem keeps_keeping_other {state : RenderState} (tracked : Tracked name fork state)
    {other : Fork} (different : other.identifier ≠ some name) {live : LiveFork}
    (owner : other.identifier ≠ none → live.fork.identifier = some name → Owned name fork state)
    (index : Nat) (rendered : String) :
    Keeps name fork state (state.keeping other live index rendered) := by
  unfold RenderState.keeping
  split
  · rename_i third identifier
    refine keeps_recording_other tracked (fun same => ?_) (owner (by rw [identifier]; simp))
    rw [identifier, same] at different
    exact different rfl
  · split
    · exact keeps_same tracked rfl rfl
    · exact keeps_same tracked rfl rfl

omit inner in
theorem keeps_registering_other {state : RenderState} (tracked : Tracked name fork state)
    {other : Fork} (different : other.identifier ≠ some name) :
    Keeps name fork state (state.registering other) := by
  unfold RenderState.registering
  split
  · exact keeps_same tracked rfl rfl
  · rename_i third identifier
    split
    · exact keeps_same tracked rfl rfl
    · refine keeps_recording_other tracked (fun same => ?_) fun own => absurd own different
      rw [identifier, same] at different
      exact different rfl

/-- A fork that does not declare the name. -/
theorem proceeds_renderFork_other {state : RenderState} {other : Fork}
    (tracked : Tracked name fork state) (different : other.identifier ≠ some name) :
    Ensures (renderFork nested other) state (fun _ later => Proceeds name fork state later)
      fun _ => True := by
  have reached : Proceeds name fork state (state.noted (.reached other)) :=
    ⟨grows_noted state _, .inr fun tracked => keeps_noted tracked rfl rfl⟩
  refine ensures_renderFork trivial (fun _ _ _ => ?_) fun _ _ => ?_
  · exact reached.step (grows_registering ..)
      fun _ kept => keeps_registering_other kept.tracked different
  · refine (proceeds_execute_other inner fun same => absurd same different).imp ?_
      fun _ failed => failed
    rintro ⟨live, index, rendered⟩ later ⟨sameFork, moved⟩
    refine (reached.trans moved).step (grows_keeping ..) fun _ kept =>
      keeps_keeping_other kept.tracked different (fun named identifier => kept.owned ?_) ..
    rw [show live.fork = (state.liveOf other).fork from sameFork] at identifier
    exact owned_of_liveOf tracked different named identifier

omit inner in
/-- Nothing has been taken of a fork that has no record. -/
theorem drawable_ofFork {state : RenderState} (isSet : fork.isSet = true)
    (tracked : Tracked name fork state) (notOwned : ¬ Owned name fork state) :
    Drawable name fork state.events (.ofFork fork) := by
  refine ⟨rfl, isSet, ?_⟩
  rw [tracked.settled notOwned]
  exact Deck.depleted_nil _

omit inner in
/-- The weights that the fork is drawn from when it is reached. -/
theorem drawable_liveOf {state : RenderState} (declares : fork.identifier = some name)
    (isSet : fork.isSet = true) (tracked : Tracked name fork state) :
    Drawable name fork state.events (state.liveOf fork) := by
  unfold RenderState.liveOf
  simp only [declares]
  split
  · rename_i entry found
    split
    · rename_i origin
      exact tracked.own entry found origin
    · rename_i elsewhere
      refine drawable_ofFork isSet tracked fun owned => elsewhere ?_
      obtain ⟨other, present, origin⟩ := owned
      rw [found] at present
      cases present
      exact origin
  · rename_i unrecorded
    refine drawable_ofFork isSet tracked fun owned => ?_
    obtain ⟨entry, present, -⟩ := owned
    rw [unrecorded] at present
    cases present

omit inner in
theorem keeps_registering_own {state : RenderState} (declares : fork.identifier = some name)
    (isSet : fork.isSet = true) (tracked : Tracked name fork state)
    (origin : ∀ entry, state.ledger.get? name = some entry →
      entry.origin = .declared fork.span.start) :
    Keeps name fork state (state.registering fork) := by
  unfold RenderState.registering
  rw [declares]
  simp only
  split
  · exact keeps_same tracked rfl rfl
  · rename_i notRecorded
    have unrecorded : ∀ entry, state.ledger.get? name ≠ some entry := fun entry found =>
      notRecorded (by rw [found, Option.map_some, origin entry found])
    have fresh := drawable_ofFork isSet tracked fun owned => owned.elim fun entry found =>
      unrecorded entry found.1
    exact ⟨tracked_recording_own rfl fresh tracked.avoids, rfl,
      fun entry found => absurd found (unrecorded entry)⟩

/-- The fork itself. -/
theorem proceeds_renderFork_own {state : RenderState} (declares : fork.identifier = some name)
    (isSet : fork.isSet = true) (tracked : Tracked name fork state) :
    Ensures (renderFork nested fork) state (fun _ later => Proceeds name fork state later)
      fun _ => True := by
  have reached : Proceeds name fork state (state.noted (.reached fork)) :=
    ⟨grows_noted state _, .inr fun tracked => keeps_noted tracked rfl rfl⟩
  have trackedReached : Tracked name fork (state.noted (.reached fork)) :=
    (keeps_noted tracked rfl rfl).tracked
  have declaredHere : (∀ other, fork.identifier = some other → state.Free other fork.span.start) →
      ∀ entry, state.ledger.get? name = some entry → entry.origin = .declared fork.span.start := by
    intro free entry found
    rcases free name declares entry found with origin | imported
    · exact origin
    · exact absurd imported (tracked.declared entry found)
  refine ensures_renderFork trivial (fun _ _ free => ?_) fun _ free => ?_
  · exact reached.step (grows_registering ..) fun _ kept =>
      keeps_registering_own declares isSet kept.tracked (declaredHere free)
  · rw [declares]
    refine (proceeds_execute_own inner declares trackedReached
      (drawable_liveOf declares isSet trackedReached) (declaredHere free)).imp ?_
      fun _ failed => failed
    rintro ⟨live, index, rendered⟩ later ⟨-, moved⟩
    have keeping : later.keeping fork live index rendered
        = later.recording name ⟨live, some index, rendered, .declared fork.span.start⟩ := by
      rw [RenderState.keeping, declares]
    rw [keeping]
    exact reached.trans moved

/-- A reference that does not declare the name where the fork does. -/
theorem proceeds_branchOf {state : RenderState} (declares : fork.identifier = some name)
    (tracked : Tracked name fork state) (reference : Reference) {target : Record}
    (found : state.ledger.get? reference.target = some target) :
    Ensures (branchOf nested reference target) state (fun taken later =>
      taken.1.fork = target.live.fork ∧ Proceeds name fork state later) fun _ => True := by
  refine ensures_branchOf (fun _ _ _ => ⟨rfl, motion_proceeds.same state⟩) ?_
  by_cases same : reference.target = name
  · rw [same] at found ⊢
    by_cases own : target.live.fork.identifier = some name
    · obtain ⟨entry, present, origin⟩ := tracked.owner _ target found own
      rw [found] at present
      cases present
      refine (proceeds_execute_own inner declares tracked (tracked.own target found origin)
        fun entry present => ?_).imp ?_ fun _ failed => failed
      · rw [found] at present
        cases present
        exact origin
      · rw [origin]
        exact fun _ _ outcome => outcome
    · have elsewhere : target.origin ≠ .declared fork.span.start := fun origin =>
        own (by rw [(tracked.own target found origin).fork, declares])
      refine (proceeds_execute_other inner fun _ => own).imp ?_ fun _ failed => failed
      rintro ⟨live, index, rendered⟩ later ⟨sameFork, moved⟩
      refine ⟨sameFork, moved.step List.suffix_rfl fun _ kept => ?_⟩
      obtain ⟨last, present, sameOrigin⟩ := kept.origin target found
      refine keeps_recording_elsewhere kept.tracked elsewhere (tracked.declared target found) ?_
        fun before here => ?_
      · exact fun identifier => own ((congrArg Fork.identifier sameFork).symm.trans identifier)
      · rw [present] at here
        cases here
        exact sameOrigin
  · refine (proceeds_execute_other inner fun isName => absurd (Option.some.inj isName) same).imp ?_
      fun _ failed => failed
    rintro ⟨live, index, rendered⟩ later ⟨sameFork, moved⟩
    refine ⟨sameFork, moved.step List.suffix_rfl fun tracked kept =>
      keeps_recording_other kept.tracked same fun identifier => kept.owned ?_⟩
    exact tracked.owner _ target found ((congrArg Fork.identifier sameFork).symm.trans identifier)

omit inner in
theorem keeps_naming {state : RenderState} (tracked : Tracked name fork state)
    {reference : Reference}
    (elsewhere : reference.identifier = some name → reference.span.start ≠ fork.span.start)
    (free : ∀ other, reference.identifier = some other → state.Free other reference.span.start)
    {live : LiveFork} (owner : live.fork.identifier = some name → Owned name fork state)
    (index : Nat) (output : String) :
    Keeps name fork state (state.naming reference live index output) := by
  unfold RenderState.naming
  split
  · rename_i other identifier
    by_cases same : other = name
    · subst same
      have place := elsewhere identifier
      have origin : ∀ before, state.ledger.get? other = some before →
          before.origin = .declared reference.span.start := fun before found =>
        (free other identifier before found).resolve_right (tracked.declared before found)
      refine keeps_recording_elsewhere tracked (fun same => place (Origin.declared.inj same))
        Origin.noConfusion (fun identifier => ?_) origin
      obtain ⟨entry, found, declared⟩ := owner identifier
      rw [origin entry found] at declared
      exact place (Origin.declared.inj declared)
    · exact keeps_recording_other tracked same owner
  · exact keeps_same tracked rfl rfl

/-- A reference that is not spoiled. -/
theorem proceeds_renderReference {state : RenderState} (declares : fork.identifier = some name)
    (tracked : Tracked name fork state) {reference : Reference}
    (elsewhere : reference.identifier = some name → reference.span.start ≠ fork.span.start) :
    Ensures (renderReference nested reference) state
      (fun _ later => Proceeds name fork state later) fun _ => True := by
  have referred : Proceeds name fork state (state.noted (.referred reference)) :=
    ⟨grows_noted state _, .inr fun tracked => keeps_noted tracked rfl rfl⟩
  have trackedReferred : Tracked name fork (state.noted (.referred reference)) :=
    (keeps_noted tracked rfl rfl).tracked
  refine ensures_renderReference (fun _ => ?_) fun target found => ?_
  · exact motion_proceeds.ensures_of_moves
      (motion_proceeds.follows_answerAbsent fun choice _ => inner choice) referred
  · refine (proceeds_branchOf inner declares trackedReferred reference found).imp ?_
      fun _ failed => failed
    rintro ⟨live, index, rendered⟩ later ⟨sameFork, taken⟩
    refine (motion_proceeds.ensures_of_moves (motion_proceeds.follows_answer
      (fun _ choice _ => inner choice) index rendered) (referred.trans taken)).imp
      (fun output after answered => ⟨trivial, fun free => ?_⟩) fun _ failed => failed
    refine answered.step (grows_naming ..) fun tracked kept => ?_
    have owner : live.fork.identifier = some name → Owned name fork after := fun identifier =>
      kept.owned (tracked.owner _ target found
        ((congrArg Fork.identifier sameFork).symm.trans identifier))
    exact keeps_naming kept.tracked elsewhere free owner index output

end Steps

/-! ## Whole renders -/

section Whole

variable {name : String} {fork : Fork}

/-- The name is kept track of through whole renders. -/
theorem track_proceeds (declares : fork.identifier = some name) (isSet : fork.isSet = true) :
    Track Growing (fun _ => True) (Proceeds name fork) fun _ _ => True where
  toMotion := motion_proceeds
  fork nested other growing _ inner state := by
    have followed := fun choice => inner choice (allowedChoice_of_forall (fun _ => trivial) choice)
    have grown : (¬ Tracked name fork state ∨
        Spoiled name fork (state.noted (.reached other)).events) →
        Ensures (renderFork nested other) state (fun _ later => Proceeds name fork state later)
          fun _ => True := fun spoiled =>
      (grows_renderFork growing other state).imp
        (fun _ _ grows => proceeds_of_spoiled (grows_noted state _) grows spoiled) fun _ _ => trivial
    by_cases tracked : Tracked name fork state
    · by_cases named : other.identifier = some name
      · by_cases same : other = fork
        · subst same
          exact proceeds_renderFork_own followed named isSet tracked
        · exact grown (.inr (.reached other (List.mem_cons_self ..) named same))
      · exact proceeds_renderFork_other followed tracked named
    · exact grown (.inl tracked)
  reference nested reference growing _ inner state := by
    have followed := fun choice => inner choice (allowedChoice_of_forall (fun _ => trivial) choice)
    have grown : (¬ Tracked name fork state ∨
        Spoiled name fork (state.noted (.referred reference)).events) →
        Ensures (renderReference nested reference) state
          (fun _ later => Proceeds name fork state later) fun _ => True := fun spoiled =>
      (grows_renderReference growing reference state).imp
        (fun _ _ grows => proceeds_of_spoiled (grows_noted state _) grows spoiled) fun _ _ => trivial
    by_cases tracked : Tracked name fork state
    · by_cases elsewhere : reference.identifier = some name →
          reference.span.start ≠ fork.span.start
      · exact proceeds_renderReference followed declares tracked elsewhere
      · obtain ⟨named, place⟩ := Classical.not_imp.1 elsewhere
        exact grown (.inr (.referred reference (List.mem_cons_self ..) named
          (Classical.not_not.1 place)))
    · exact grown (.inl tracked)
  includes child _ setting path state := ⟨grows_renderIncluded child setting path state,
    .inl (.loaded (loaded_of_renderIncluded child setting path state))⟩
  merges _ _ loaded := ⟨List.suffix_cons .., .inl (.loaded (loaded.grow (List.suffix_cons ..)))⟩

theorem tracked_initial (generator : Generator) :
    Tracked name fork (.initial generator) where
  declared _ found := by cases found
  own _ found := by cases found
  owner _ _ found := by cases found
  settled _ := rfl
  avoids := trivial

theorem not_loaded_of_loads {events : List Event} (none : Event.loads events = []) :
    ¬ Loaded events := by
  rintro ⟨path, member⟩
  induction events with
  | nil => cases member
  | cons event earlier ih =>
    obtain ⟨noneBefore, noneHere⟩ := List.append_eq_nil_iff.1 none
    rcases List.mem_cons.1 member with rfl | before
    · cases noneHere
    · exact ih noneBefore before

/-- In a render without includes, every draw from a name that one set fork alone declares avoids
what the record of the name knew to be taken since the last refill. -/
theorem avoidsKnown_document {setting : Setting} {document : Document} {generator : Generator}
    {text : String} {state : RenderState} (declares : fork.identifier = some name)
    (isSet : fork.isSet = true)
    (only : ∀ other, .fork other ∈ nodesWithin document.nodes → other.identifier = some name →
      other = fork)
    (elsewhere : ∀ reference, .reference reference ∈ nodesWithin document.nodes →
      reference.identifier = some name → reference.span.start ≠ fork.span.start)
    (rendered : (Rendering.document setting document).run (.initial generator) = (.ok text, state))
    (noIncludes : Event.loads state.events = []) : AvoidsKnown name state.events := by
  have notLoaded := not_loaded_of_loads noIncludes
  have inside := inside_document setting document generator (by rw [rendered]; exact notLoaded)
  rw [rendered] at inside
  have proceeds := (track_proceeds declares isSet).follows_document growing_choice setting document
    (fun _ _ => trivial) (.initial generator)
  rw [ensures_of_run_ok rendered] at proceeds
  rcases proceeds.2 with spoiled | keeps
  · cases spoiled with
    | loaded loaded => exact absurd loaded notLoaded
    | reached other member named different =>
      exact absurd (only other (inside.reached other member) named) different
    | referred reference member named place =>
      exact absurd place (elsewhere reference (inside.referred reference member) named)
  · exact (keeps (tracked_initial generator)).tracked.avoids

/-- A set fork that alone declares its name is drawn from without replacement in every render
without includes in which nothing is drawn from it while one of its branches is rendered. -/
theorem noRepeat_of_unnested {setting : Setting} {document : Document} {generator : Generator}
    {text : String} {state : RenderState} (declares : fork.identifier = some name)
    (isSet : fork.isSet = true)
    (only : ∀ other, .fork other ∈ nodesWithin document.nodes → other.identifier = some name →
      other = fork)
    (elsewhere : ∀ reference, .reference reference ∈ nodesWithin document.nodes →
      reference.identifier = some name → reference.span.start ≠ fork.span.start)
    (rendered : (Rendering.document setting document).run (.initial generator) = (.ok text, state))
    (noIncludes : Event.loads state.events = []) (unnested : Unnested name state.events) :
    Deck.NoRepeat (Event.drawsFrom name state.events) :=
  Deck.noRepeat_of_avoids (avoids_of_unnested unnested
    (avoidsKnown_document declares isSet only elsewhere rendered noIncludes))

/-- A set fork over a first branch of these nodes and a second one of text. -/
def setOfTwo (silent : Bool) (first : List Node) (stop : Nat) : Fork :=
  ⟨some "N", silent, true, [⟨.nodes first, none⟩, ⟨.nodes [.text "b"], none⟩], ⟨0, stop⟩⟩

/-- A copy of the outcome of the set fork, which is executed again first or not. -/
def copyOfTwo (reruns : Bool) (start stop : Nat) : Node :=
  .reference ⟨"N", none, false, [], none, reruns, ⟨start, stop⟩⟩

/-- A set fork that is executed twice more. -/
def redrawn : Document :=
  ⟨[.fork (setOfTwo false [.text "a"] 14), copyOfTwo true 14 23, copyOfTwo true 23 32], [], []⟩

/-- A set fork that is executed again in its own first branch. -/
def selfDrawing : Document :=
  ⟨[.fork (setOfTwo true [.text "a", copyOfTwo true 8 17] 24), copyOfTwo false 24 28], [], []⟩

/-- Where documents without scripts are rendered. -/
def scriptless : Setting := ⟨false, ".", .unavailable⟩

/-- The three draws of the document that draws its set fork again take both branches, refill and
go on. -/
theorem noRepeat_of_unnested_redrawn :
    let ended := (Rendering.document scriptless redrawn).run (.initial (.ofSeed 4))
    Event.drawsFrom "N" ended.2.events = [⟨1, false⟩, ⟨0, false⟩, ⟨1, true⟩] ∧
      Deck.NoRepeat (Event.drawsFrom "N" ended.2.events) := by
  intro ended
  have draws : Event.drawsFrom "N" ended.2.events = [⟨1, false⟩, ⟨0, false⟩, ⟨1, true⟩] := by
    decide +kernel
  have rendered : ended.1.toOption = some "bab" := by decide +kernel
  refine ⟨draws, ?_⟩
  have declares : (setOfTwo false [.text "a"] 14).identifier = some "N" := rfl
  refine noRepeat_of_unnested declares rfl ?_ ?_ (run_of_toOption rendered) (by decide +kernel)
    (by decide +kernel)
  · simp [redrawn, nodesWithin, Node.within, setOfTwo, copyOfTwo, withinBranches, Choice.within,
      withinMappings, withinFallback]
  · simp [redrawn, nodesWithin, Node.within, setOfTwo, copyOfTwo, withinBranches, Choice.within,
      withinMappings, withinFallback]

/-- A set fork that is drawn from while its own branch is rendered can take a branch twice. -/
theorem not_noRepeat_selfDrawing :
    ¬ ∀ (setting : Setting) (document : Document) (generator : Generator) (text : String)
        (state : RenderState) (name : String) (fork : Fork), fork.identifier = some name →
      fork.isSet = true →
      (∀ other, .fork other ∈ nodesWithin document.nodes → other.identifier = some name →
        other = fork) →
      (∀ reference, .reference reference ∈ nodesWithin document.nodes →
        reference.identifier = some name → reference.span.start ≠ fork.span.start) →
      (Rendering.document setting document).run (.initial generator) = (.ok text, state) →
      Event.loads state.events = [] → Deck.NoRepeat (Event.drawsFrom name state.events) := by
  intro claim
  let ended := (Rendering.document scriptless selfDrawing).run (.initial (.ofSeed 20))
  have rendered : ended.1.toOption = some "aab" := by decide +kernel
  have draws : Event.drawsFrom "N" ended.2.events
      = [⟨0, false⟩, ⟨0, false⟩, ⟨1, false⟩] := by decide +kernel
  have noIncludes : Event.loads ended.2.events = [] := by decide +kernel
  have noRepeat := claim scriptless selfDrawing (.ofSeed 20) "aab" ended.2 "N"
    (setOfTwo true [.text "a", copyOfTwo true 8 17] 24) rfl rfl
    (by simp [selfDrawing, nodesWithin, Node.within, setOfTwo, copyOfTwo, withinBranches,
      Choice.within, withinMappings, withinFallback])
    (by simp [selfDrawing, nodesWithin, Node.within, setOfTwo, copyOfTwo, withinBranches,
      Choice.within, withinMappings, withinFallback])
    (run_of_toOption rendered) noIncludes
  exact noRepeat [] ⟨0, false⟩ [] ⟨0, false⟩ [⟨1, false⟩] draws (by simp) rfl

end Whole

end Rendering

end BranchText
