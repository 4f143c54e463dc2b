import BranchText.Proofs.Render.Reached

/-!
# Whose branches a fork draws

Live weights are kept by the offset of a set fork without a name, or by the name and the offset of
a named one. A fork that is reached is therefore drawn from weights that the first node at its
place left, whichever document that node was read from. A fork draws its own branches in every
render in which no two nodes share a place.
-/

namespace BranchText

namespace Event

/-- What a draw right behind the fork that was reached says of its execution: the fork, the weights
drawn from, and the draw. -/
def execution? : Event → List Event → Option (Fork × LiveFork × Draw)
  | .drew _ live draw, .reached fork :: _ => some (fork, live, draw)
  | _, _ => none

/-- The executions of forks that were reached, the latest first. -/
def executions : List Event → List (Fork × LiveFork × Draw)
  | [] => []
  | event :: earlier => (event.execution? earlier).toList ++ executions earlier

/-- The events of a render among those of another: its own, or those of a document it included. -/
inductive RunIn (events : List Event) : List Event → Prop
  | self : RunIn events events
  | included {run inner : List Event} {path : String} (outer : RunIn events run)
    (member : .included path inner ∈ run) : RunIn events inner

theorem runIn_cons {event : Event} {events run : List Event} (isRun : RunIn (event :: events) run) :
    run = event :: events ∨ (∃ path inner, event = .included path inner ∧ RunIn inner run) ∨
      RunIn events run := by
  induction isRun with
  | self => exact .inl rfl
  | included outer member ih =>
    rcases ih with rfl | ⟨path, inner, here, within⟩ | before
    · rcases List.mem_cons.1 member with here | earlier
      · exact .inr (.inl ⟨_, _, here.symm, .self⟩)
      · exact .inr (.inr (.included .self earlier))
    · exact .inr (.inl ⟨path, inner, here, .included within member⟩)
    · exact .inr (.inr (.included before member))

theorem reached_of_execution {event : Event} {events : List Event} {fork : Fork} {live : LiveFork}
    {draw : Draw} (executed : event.execution? events = some (fork, live, draw)) :
    ∃ name earlier, event = .drew name live draw ∧ events = .reached fork :: earlier := by
  unfold execution? at executed
  split at executed
  · cases executed
    exact ⟨_, _, rfl, rfl⟩
  · cases executed

end Event

open Event

/-- The nodes are the same fork, or two whose live weights are kept at the same place. -/
def SamePlace (fork other : Fork) : Prop :=
  fork = other ∨ (other.identifier = fork.identifier ∧ other.span.start = fork.span.start ∧
    (fork.identifier = none → fork.isSet = true ∧ other.isSet = true))

/-- A reference was reached that records its outcome where the weights of the fork are kept. -/
def ReferencePlace (events : List Event) (name : String) (offset : Nat) : Prop :=
  ∃ reference, .referred reference ∈ events ∧ reference.identifier = some name ∧
    reference.span.start = offset

/-- No two nodes that were reached share a place where live weights are kept. -/
structure Apart (events : List Event) : Prop where
  sets : ∀ fork other, .reached fork ∈ events → .reached other ∈ events →
    fork.identifier = none → other.identifier = none → fork.isSet = true → other.isSet = true →
      fork.span.start = other.span.start → fork = other
  names : ∀ fork other name, .reached fork ∈ events → .reached other ∈ events →
    fork.identifier = some name → other.identifier = some name →
      fork.span.start = other.span.start → fork = other
  references : ∀ fork reference name, .reached fork ∈ events → .referred reference ∈ events →
    fork.identifier = some name → reference.identifier = some name →
      fork.span.start ≠ reference.span.start

/-- Weights of the fork, one for each branch. -/
structure LiveFork.Of (live : LiveFork) (fork : Fork) : Prop where
  same : live.fork = fork
  fits : live.deck.Fits fork.branches.length

theorem LiveFork.of_ofFork (fork : Fork) : (LiveFork.ofFork fork).Of fork := by
  have normalized : (fork.deck : Deck Float).initial.length = fork.branches.length := by
    simp [Fork.deck, Deck.full, Fork.written, Weight.normalize]
  exact ⟨rfl, normalized, normalized⟩

theorem LiveFork.Of.deals {live : LiveFork} {fork : Fork} (of : live.Of fork) {draw : Draw}
    {rest : Deck Float} (deals : live.deck.Deals Generator.below draw rest) :
    (⟨live.fork, rest⟩ : LiveFork).Of fork :=
  ⟨of.same, deals.fits of.fits⟩

/-- Where the weights that a fork is drawn from come from: a fork that was reached at the same
place, or a reference. -/
def Sourced (events : List Event) (fork : Fork) (live : LiveFork) : Prop :=
  (∃ other, .reached other ∈ events ∧ SamePlace fork other ∧ live.Of other) ∨
    ∃ name, fork.identifier = some name ∧ ReferencePlace events name fork.span.start

/-- What an execution of a fork says: unless a reference shares its place, it drew a branch of a
fork that was reached at the same place. -/
def Legit (events : List Event) (fork : Fork) (live : LiveFork) (draw : Draw) : Prop :=
  (∃ other, .reached other ∈ events ∧ SamePlace fork other ∧ live.fork = other ∧
      draw.index < other.branches.length) ∨
    ∃ name, fork.identifier = some name ∧ ReferencePlace events name fork.span.start

/-- Every execution among the events of one render is legit. -/
def Lawful (events : List Event) : Prop :=
  ∀ fork live draw, (fork, live, draw) ∈ executions events →
    .reached fork ∈ events ∧ Legit events fork live draw

section Events

variable {events later : List Event} {fork : Fork} {live : LiveFork} {draw : Draw}

theorem ReferencePlace.grow {name : String} {offset : Nat}
    (shared : ReferencePlace events name offset) (grows : events <:+ later) :
    ReferencePlace later name offset := by
  obtain ⟨reference, member, named, place⟩ := shared
  exact ⟨reference, grows.subset member, named, place⟩

theorem Legit.grow (legit : Legit events fork live draw) (grows : events <:+ later) :
    Legit later fork live draw := by
  rcases legit with ⟨other, member, same, own⟩ | ⟨name, named, shared⟩
  · exact .inl ⟨other, grows.subset member, same, own⟩
  · exact .inr ⟨name, named, shared.grow grows⟩

/-- Drawing leaves weights of the same fork. -/
theorem Sourced.grow (sourced : Sourced events fork live) (grows : events <:+ later)
    {rest : LiveFork} (of : ∀ other, live.Of other → rest.Of other) : Sourced later fork rest := by
  rcases sourced with ⟨other, member, same, ofOther⟩ | ⟨name, named, shared⟩
  · exact .inl ⟨other, grows.subset member, same, of other ofOther⟩
  · exact .inr ⟨name, named, shared.grow grows⟩

theorem Sourced.legit (sourced : Sourced events fork live) {rest : Deck Float}
    (deals : live.deck.Deals Generator.below draw rest) : Legit events fork live draw := by
  rcases sourced with ⟨other, member, same, of⟩ | shared
  · exact .inl ⟨other, member, same, of.same, deals.index_lt of.fits⟩
  · exact .inr shared

/-- One more event; it is an execution only if it is a draw behind a fork that was reached. -/
theorem Lawful.cons (lawful : Lawful events) {event : Event}
    (legit : ∀ fork live draw, event.execution? events = some (fork, live, draw) →
      Legit events fork live draw) : Lawful (event :: events) := by
  intro fork live draw executed
  have grows : events <:+ event :: events := List.suffix_cons ..
  rcases List.mem_append.1 executed with here | before
  · have executed := Option.mem_toList.1 here
    obtain ⟨name, earlier, -, reached⟩ := reached_of_execution executed
    refine ⟨List.mem_cons_of_mem _ (by rw [reached]; exact List.mem_cons_self ..), ?_⟩
    exact (legit fork live draw executed).grow grows
  · obtain ⟨member, isLegit⟩ := lawful fork live draw before
    exact ⟨grows.subset member, isLegit.grow grows⟩

/-- Where no two nodes share a place, a fork draws its own branches. -/
theorem Lawful.own (lawful : Lawful events) (apart : Apart events)
    (executed : (fork, live, draw) ∈ executions events) :
    live.fork = fork ∧ ∃ branch, fork.branches[draw.index]? = some branch := by
  obtain ⟨reached, ⟨other, member, same, rfl, small⟩ | ⟨name, named, shared⟩⟩ :=
    lawful fork live draw executed
  · have own : fork = live.fork := by
      rcases same with same | ⟨identifier, place, sets⟩
      · exact same
      · cases named : fork.identifier with
        | none =>
          rw [named] at identifier
          obtain ⟨isSet, otherSet⟩ := sets named
          exact apart.sets fork _ reached member named identifier isSet otherSet place.symm
        | some name =>
          rw [named] at identifier
          exact apart.names fork _ name reached member named identifier place.symm
    rw [← own] at small
    exact ⟨own.symm, _, List.getElem?_eq_getElem small⟩
  · obtain ⟨reference, referred, identifier, place⟩ := shared
    exact absurd place.symm (apart.references fork reference name reached referred named identifier)

end Events

namespace Rendering

/-! ## What a render keeps -/

/-- Whose weights are kept where. -/
structure Faithful (state : RenderState) : Prop where
  kept : ∀ offset live, state.anonymousSets.get? offset = some live →
    ∃ fork, .reached fork ∈ state.events ∧ fork.identifier = none ∧ fork.isSet = true ∧
      fork.span.start = offset ∧ live.Of fork
  declared : ∀ name entry offset, state.ledger.get? name = some entry →
    entry.origin = .declared offset →
      (∃ fork, .reached fork ∈ state.events ∧ fork.identifier = some name ∧
        fork.span.start = offset ∧ entry.live.Of fork) ∨ ReferencePlace state.events name offset
  lawful : ∀ run, RunIn state.events run → Lawful run

theorem faithful_initial (generator : Generator) : Faithful (.initial generator) where
  kept _ _ found := by cases found
  declared _ _ _ found := by cases found
  lawful run isRun := by
    cases isRun with
    | self => exact fun _ _ _ executed => by cases executed
    | included outer member =>
      have none : ∀ run, RunIn [] run → run = [] := by
        intro run isRun
        induction isRun with
        | self => rfl
        | included _ member ih =>
          rw [ih] at member
          cases member
      rw [none _ outer] at member
      cases member

/-- A part of a render that keeps weights where they belong. -/
def Serves (before after : RenderState) : Prop :=
  Grows before after ∧ (Faithful before → Faithful after)

theorem Serves.trans {first second third : RenderState} (earlier : Serves first second)
    (later : Serves second third) : Serves first third :=
  ⟨earlier.1.trans later.1, fun faithful => later.2 (earlier.2 faithful)⟩

section Steps

variable {state : RenderState}

/-- One more event, behind which the law still holds of all renders. -/
theorem Faithful.noted (faithful : Faithful state) {event : Event}
    (own : Lawful (event :: state.events))
    (inner : ∀ path events, event = .included path events → ∀ run, RunIn events run → Lawful run) :
    Faithful (state.noted event) where
  kept offset live found := by
    obtain ⟨fork, member, rest⟩ := faithful.kept offset live found
    exact ⟨fork, List.mem_cons_of_mem _ member, rest⟩
  declared name entry offset found origin := by
    rcases faithful.declared name entry offset found origin with ⟨fork, member, rest⟩ | shared
    · exact .inl ⟨fork, List.mem_cons_of_mem _ member, rest⟩
    · exact .inr (shared.grow (List.suffix_cons ..))
  lawful run isRun := by
    rcases runIn_cons isRun with rfl | ⟨path, events, here, within⟩ | before
    · exact own
    · exact inner path events here run within
    · exact faithful.lawful run before

/-- Events that are neither draws nor included renders. -/
theorem serves_noted (state : RenderState) {event : Event}
    (noDraw : event.execution? state.events = none)
    (noInclude : ∀ path events, event ≠ .included path events) :
    Serves state (state.noted event) := by
  refine ⟨grows_noted state event, fun faithful => faithful.noted ?_ fun path events here =>
    absurd here (noInclude path events)⟩
  refine (faithful.lawful _ .self).cons fun fork live draw executed => ?_
  rw [noDraw] at executed
  cases executed

theorem serves_reached (state : RenderState) (fork : Fork) :
    Serves state (state.noted (.reached fork)) :=
  serves_noted state rfl fun _ _ => Event.noConfusion

theorem serves_referred (state : RenderState) (reference : Reference) :
    Serves state (state.noted (.referred reference)) :=
  serves_noted state rfl fun _ _ => Event.noConfusion

theorem motion_serves : Motion Serves Serves where
  trans := Serves.trans
  fails_after := Serves.trans
  fails_of_moves := id
  grows moved := moved.1
  unseen unseen := ⟨motion_grows.unseen unseen, fun faithful => by
    refine ⟨?_, ?_, ?_⟩
    · rw [unseen.anonymousSets, unseen.events]
      exact faithful.kept
    · rw [unseen.ledger, unseen.events]
      exact faithful.declared
    · rw [unseen.events]
      exact faithful.lawful⟩
  quiet state event isQuiet := serves_noted state (by cases isQuiet <;> rfl)
    (by cases isQuiet <;> exact fun _ _ => Event.noConfusion)

/-- A record of weights that belong there. -/
theorem serves_recording (state : RenderState) {name : String} {entry : Record}
    (belongs : Faithful state → ∀ offset, entry.origin = .declared offset →
      (∃ fork, .reached fork ∈ state.events ∧ fork.identifier = some name ∧
        fork.span.start = offset ∧ entry.live.Of fork) ∨ ReferencePlace state.events name offset) :
    Serves state (state.recording name entry) := by
  refine ⟨List.suffix_rfl, fun faithful =>
    ⟨faithful.kept, fun other found offset present origin => ?_, faithful.lawful⟩⟩
  rw [RenderState.get?_recording] at present
  split at present
  · rename_i same
    cases present
    rw [same]
    exact belongs faithful offset origin
  · exact faithful.declared other found offset present origin

theorem serves_registering (state : RenderState) {fork : Fork}
    (reached : .reached fork ∈ state.events) : Serves state (state.registering fork) := by
  unfold RenderState.registering
  split
  · exact motion_serves.same state
  · rename_i name identifier
    split
    · exact motion_serves.same state
    · refine serves_recording state fun _ offset origin => .inl ⟨fork, reached, identifier, ?_, ?_⟩
      · exact Origin.declared.inj origin
      · exact LiveFork.of_ofFork fork

/-- The weights that a fork is drawn from when it is reached. -/
theorem Faithful.sourced (faithful : Faithful state) {fork : Fork}
    (reached : .reached fork ∈ state.events) : Sourced state.events fork (state.liveOf fork) := by
  have source := state.liveOf_source fork
  generalize state.liveOf fork = live at source
  cases source with
  | full => exact .inl ⟨fork, reached, .inl rfl, LiveFork.of_ofFork fork⟩
  | recorded identifier found origin =>
    rcases faithful.declared _ _ _ found origin with ⟨other, member, named, place, of⟩ | shared
    · refine .inl ⟨other, member, .inr ⟨named.trans identifier.symm, place, ?_⟩, of⟩
      exact fun unnamed => by rw [identifier] at unnamed; cases unnamed
    · exact .inr ⟨_, identifier, shared⟩
  | kept unnamed isSet found =>
    obtain ⟨other, member, otherUnnamed, otherSet, place, of⟩ := faithful.kept _ live found
    refine .inl ⟨other, member, .inr ⟨otherUnnamed.trans unnamed.symm, place, ?_⟩, of⟩
    exact fun _ => ⟨isSet, otherSet⟩

/-- What the execution of a fork leaves is kept where its weights came from. -/
theorem serves_keeping (state : RenderState) {fork : Fork} {live : LiveFork}
    (sourced : Faithful state → Sourced state.events fork live) (index : Nat) (rendered : String) :
    Serves state (state.keeping fork live index rendered) := by
  unfold RenderState.keeping
  split
  · rename_i name identifier
    refine serves_recording state fun faithful offset origin => ?_
    have place := Origin.declared.inj origin
    rcases sourced faithful with ⟨other, member, same, of⟩ | ⟨other, named, shared⟩
    · rcases same with rfl | ⟨named, otherPlace, -⟩
      · exact .inl ⟨fork, member, identifier, place, of⟩
      · exact .inl ⟨other, member, named.trans identifier, otherPlace.trans place, of⟩
    · rw [identifier] at named
      cases named
      exact .inr (place ▸ shared)
  · rename_i unnamed
    split
    · rename_i isSet
      refine ⟨List.suffix_rfl, fun faithful => ⟨fun offset found present => ?_,
        faithful.declared, faithful.lawful⟩⟩
      rw [Table.get?_insert] at present
      split at present
      · rename_i place
        cases present
        rcases sourced faithful with ⟨other, member, same, of⟩ | ⟨other, named, -⟩
        · rcases same with rfl | ⟨named, otherPlace, sets⟩
          · exact ⟨fork, member, unnamed, isSet, place.symm, of⟩
          · exact ⟨other, member, named.trans unnamed, (sets unnamed).2,
              otherPlace.trans place.symm, of⟩
        · rw [unnamed] at named
          cases named
      · exact faithful.kept offset found present
    · exact motion_serves.same state

theorem serves_naming (state : RenderState) {reference : Reference}
    (referred : .referred reference ∈ state.events) (live : LiveFork) (index : Nat)
    (output : String) : Serves state (state.naming reference live index output) := by
  unfold RenderState.naming
  split
  · rename_i name identifier
    refine serves_recording state fun _ offset origin => .inr ⟨reference, referred, identifier, ?_⟩
    exact Origin.declared.inj origin
  · exact motion_serves.same state

end Steps

/-! ## Parts of a render -/

section Parts

variable {nested : Choice → Rendering String}
  (inner : ∀ choice, Follows Serves Serves (nested choice))
include inner

/-- An execution of a fork that was just reached, or of the target of a reference. -/
theorem serves_execute {state : RenderState} {name : Option String} {live : LiveFork}
    (sourced : ∀ fork earlier, state.events = .reached fork :: earlier →
      Sourced state.events fork live) :
    Ensures (execute nested name live) state (fun outcome later =>
      (∀ fork, live.Of fork → outcome.1.Of fork) ∧ Serves state later) (Serves state) := by
  refine ensures_execute (fun after unseen => motion_serves.unseen unseen)
    fun draw rest after deals drew => ?_
  have noted : Serves state (state.noted (.drew name live draw)) := by
    refine ⟨grows_noted state _, fun faithful => faithful.noted ?_ fun _ _ => Event.noConfusion⟩
    refine (faithful.lawful _ .self).cons fun fork live' draw' executed => ?_
    obtain ⟨name', earlier, same, reached⟩ := reached_of_execution executed
    cases same
    exact (sourced fork earlier reached).legit deals
  have drawn : Serves state after := noted.trans (motion_serves.unseen drew)
  refine (motion_serves.ensures_of_moves (motion_serves.follows_renderBranch
    (fun branch _ => inner branch.choice) draw.index) drawn).imp (fun _ later moved => ?_)
    fun _ failed => failed
  exact ⟨fun fork of => of.deals deals,
    moved.trans (serves_noted later rfl fun _ _ => Event.noConfusion)⟩

theorem serves_renderFork (growing : Growing nested) (fork : Fork) :
    Follows Serves Serves (renderFork nested fork) := by
  intro state
  have reached := serves_reached state fork
  by_cases faithful : Faithful state
  · have here : .reached fork ∈ (state.noted (.reached fork)).events := List.mem_cons_self ..
    have sourced : Sourced (state.noted (.reached fork)).events fork (state.liveOf fork) :=
      (reached.2 faithful).sourced here
    refine ensures_renderFork reached (fun _ _ _ => ?_) fun _ _ => ?_
    · exact reached.trans (serves_registering _ here)
    · refine (serves_execute inner fun other earlier same => ?_).imp ?_
        fun _ failed => reached.trans failed
      · cases same
        exact sourced
      · rintro ⟨live, index, rendered⟩ later ⟨of, moved⟩
        exact (reached.trans moved).trans
          (serves_keeping later (fun _ => sourced.grow moved.1 of) index rendered)
  · refine (grows_renderFork growing fork state).imp (fun _ _ grown => ?_) fun _ grown => ?_
    · exact ⟨reached.1.trans grown, fun faithful' => absurd faithful' faithful⟩
    · exact ⟨reached.1.trans grown, fun faithful' => absurd faithful' faithful⟩

/-- A target that is executed again keeps its place. -/
theorem serves_branchOf {state : RenderState} (faithful : Faithful state) {reference : Reference}
    (referred : ∃ earlier, state.events = .referred reference :: earlier) {target : Record}
    (found : state.ledger.get? reference.target = some target) :
    Ensures (branchOf nested reference target) state (fun _ later => Serves state later)
      (Serves state) := by
  refine ensures_branchOf (fun _ _ _ => motion_serves.same state) ?_
  refine (serves_execute inner fun fork earlier same => ?_).imp ?_ fun _ failed => failed
  · obtain ⟨before, events⟩ := referred
    rw [events] at same
    cases same
  · rintro ⟨live, index, rendered⟩ later ⟨of, moved⟩
    refine moved.trans (serves_recording later fun _ offset origin => ?_)
    rcases faithful.declared _ target offset found origin with
      ⟨fork, member, named, place, ofFork⟩ | shared
    · exact .inl ⟨fork, moved.1.subset member, named, place, of fork ofFork⟩
    · exact .inr (shared.grow moved.1)

theorem serves_renderReference (growing : Growing nested) (reference : Reference) :
    Follows Serves Serves (renderReference nested reference) := by
  intro state
  have referred := serves_referred state reference
  by_cases faithful : Faithful state
  · refine ensures_renderReference (fun _ => ?_) fun target found => ?_
    · exact motion_serves.ensures_of_moves
        (motion_serves.follows_answerAbsent fun choice _ => inner choice) referred
    · refine (serves_branchOf inner (referred.2 faithful) ⟨_, rfl⟩ found).imp
        (fun taken later moved => ?_) fun _ failed => referred.trans failed
      refine (motion_serves.ensures_of_moves (motion_serves.follows_answer
        (fun _ choice _ => inner choice) taken.2.1 taken.2.2) moved).imp
        (fun output after answered => ?_) fun _ failed => referred.trans failed
      have here : .referred reference ∈ after.events := answered.1.subset (List.mem_cons_self ..)
      exact ⟨referred.trans answered,
        fun _ => (referred.trans answered).trans (serves_naming after here ..)⟩
  · refine (grows_renderReference growing reference state).imp (fun _ _ grown => ?_)
      fun _ grown => ?_
    · exact ⟨referred.1.trans grown, fun faithful' => absurd faithful' faithful⟩
    · exact ⟨referred.1.trans grown, fun faithful' => absurd faithful' faithful⟩

end Parts

/-! ## Whole renders -/

/-- The events of a render that is included obey the law already. -/
theorem serves_included (state : RenderState) (path : String) {events : List Event}
    (lawful : ∀ run, RunIn events run → Lawful run) :
    Serves state (state.noted (.included path events)) := by
  refine ⟨grows_noted state _, fun faithful => faithful.noted ?_ fun path' events' same => ?_⟩
  · exact (faithful.lawful _ .self).cons fun fork live draw executed => by cases executed
  · cases same
    exact lawful

/-- An included document is a render of its own. -/
theorem serves_renderIncluded {child : Setting → List Node → Rendering String}
    (inner : ∀ setting nodes, Follows Serves Serves (child setting nodes)) (setting : Setting)
    (path : String) (state : RenderState) :
    Serves state ((renderIncluded child setting path).run state).2 := by
  have whole : ∀ setting document generator run,
      RunIn ((renderWhole (child setting) document).run (.initial generator)).2.events run →
        Lawful run := by
    intro setting document generator
    have follows : Follows Serves Serves (renderWhole (child setting) document) := by
      unfold renderWhole
      split
      · exact motion_serves.follows_bind (motion_serves.follows_warn _)
          fun _ => inner setting document.nodes
      · exact inner setting document.nodes
    exact ((ensures_always.1 (follows (.initial generator))).2
      (faithful_initial generator)).lawful
  rw [← @ensures_always _ state (renderIncluded child setting path) fun later => Serves state later]
  unfold renderIncluded
  simp only [ensures_bind, ensures_note]
  have loaded : Serves state (state.noted (.loaded (Path.join setting.directory path))) :=
    serves_noted state rfl fun _ _ => Event.noConfusion
  cases setting.loader (Path.join setting.directory path) with
  | error error => exact loaded
  | ok text =>
    simp only
    split
    · exact loaded
    · simp only [ensures_bind, ensures_get, ensures_note]
      split
      · exact loaded.trans (serves_included _ _ (whole _ _ _))
      · exact loaded.trans (serves_included _ _ (whole _ _ _))

/-- Documents that are taken over bring imported records only. -/
theorem serves_merged (included : Included) (state : RenderState) :
    Serves state (mergedState included state) := by
  have brought : Serves state { mergedState included state with events := state.events } := by
    refine ⟨List.suffix_rfl, fun faithful =>
      ⟨faithful.kept, fun name entry offset found origin => ?_, faithful.lawful⟩⟩
    rcases Table.mem_or_get?_of_get?_extend found with imported | before
    · obtain ⟨⟨key, taken⟩, -, same⟩ := List.mem_map.1 imported
      cases same
      cases origin
    · exact faithful.declared name entry offset before origin
  have noted := serves_noted { mergedState included state with events := state.events }
    (show Event.execution? (.merged included.path included.ledger) _ = none from rfl)
    fun _ _ => Event.noConfusion
  exact motion_serves.trans brought noted

theorem track_serves : Track Growing (fun _ => True) Serves Serves where
  toMotion := motion_serves
  fork _ fork growing _ inner := serves_renderFork
    (fun choice => inner choice (allowedChoice_of_forall (fun _ => trivial) choice)) growing fork
  reference _ reference growing _ inner := serves_renderReference
    (fun choice => inner choice (allowedChoice_of_forall (fun _ => trivial) choice)) growing
    reference
  includes _ inner := serves_renderIncluded fun setting nodes => inner setting nodes
    fun _ _ => trivial
  merges included state _ := serves_merged included state

/-- In every run of a render, and of every render within it, in which no two nodes that were
reached share a place, every fork that was executed drew one of its own branches. -/
theorem own_branch_of_apart {setting : Setting} {document : Document} {generator : Generator}
    {run : List Event}
    (isRun : RunIn ((Rendering.document setting document).run (.initial generator)).2.events run)
    (apart : Apart run) :
    ∀ fork live draw, (fork, live, draw) ∈ executions run →
      live.fork = fork ∧ ∃ branch, fork.branches[draw.index]? = some branch := by
  have serves := track_serves.follows_document growing_choice setting document
    (fun _ _ => trivial) (.initial generator)
  have faithful := (ensures_always.1 serves).2 (faithful_initial generator)
  exact fun fork live draw executed => (faithful.lawful run isRun).own apart executed

/-! ## Places that are not shared -/

/-- The offset of the fork or the reference that an event reached. -/
def place? : Event → Option Nat
  | .reached fork => some fork.span.start
  | .referred reference => some reference.span.start
  | _ => none

theorem eq_of_nodup_places {events : List Event} (distinct : (events.filterMap place?).Nodup)
    {first second : Event} {offset : Nat} (firstMember : first ∈ events)
    (secondMember : second ∈ events) (firstPlace : place? first = some offset)
    (secondPlace : place? second = some offset) : first = second := by
  induction events with
  | nil => cases firstMember
  | cons event earlier ih =>
    have before : (earlier.filterMap place?).Nodup :=
      distinct.sublist ((List.sublist_cons_self ..).filterMap _)
    have apart : ∀ other ∈ earlier, place? other = some offset → place? event ≠ some offset := by
      intro other member place here
      rw [List.filterMap_cons_some here, List.nodup_cons] at distinct
      exact distinct.1 (List.mem_filterMap.2 ⟨other, member, place⟩)
    rcases List.mem_cons.1 firstMember with rfl | firstBefore
    · rcases List.mem_cons.1 secondMember with rfl | secondBefore
      · rfl
      · exact absurd firstPlace (apart second secondBefore secondPlace)
    · rcases List.mem_cons.1 secondMember with rfl | secondBefore
      · exact absurd secondPlace (apart first firstBefore firstPlace)
      · exact ih before firstBefore secondBefore

/-- Nodes that are reached once each, at different offsets, share no place. -/
theorem apart_of_nodup {events : List Event} (distinct : (events.filterMap place?).Nodup) :
    Apart events where
  sets fork other member otherMember _ _ _ _ same := by
    cases eq_of_nodup_places distinct member otherMember rfl (congrArg some same.symm)
    rfl
  names fork other name member otherMember _ _ same := by
    cases eq_of_nodup_places distinct member otherMember rfl (congrArg some same.symm)
    rfl
  references fork reference name member otherMember _ _ same := by
    cases eq_of_nodup_places distinct member otherMember rfl (congrArg some same.symm)

/-- Without includes, no two nodes share a place if all nodes of the document start at different
offsets. -/
theorem apart_of_inside {nodes : List Node} {state : RenderState} (inside : Inside nodes state)
    (forks : ∀ fork other, .fork fork ∈ nodesWithin nodes → .fork other ∈ nodesWithin nodes →
      fork.span.start = other.span.start → fork = other)
    (references : ∀ fork reference, .fork fork ∈ nodesWithin nodes →
      .reference reference ∈ nodesWithin nodes → fork.span.start ≠ reference.span.start) :
    Apart state.events where
  sets fork other member otherMember _ _ _ _ same :=
    forks fork other (inside.reached fork member) (inside.reached other otherMember) same
  names fork other _ member otherMember _ _ same :=
    forks fork other (inside.reached fork member) (inside.reached other otherMember) same
  references fork reference _ member otherMember _ _ :=
    references fork reference (inside.reached fork member) (inside.referred reference otherMember)

/-- Text, a set fork without a name, a document that is included, and a fork of that document that
is executed again. -/
def including (front : String) : Document :=
  let start := front.length
  ⟨[.text front,
    .fork ⟨none, false, true, [⟨.nodes [.text "x"], none⟩], ⟨start, start + 6⟩⟩,
    .fork ⟨none, false, false,
      [⟨.script ⟨"include(\"lib.txt\")", ⟨start + 7, start + 27⟩⟩, none⟩],
      ⟨start + 6, start + 28⟩⟩,
    .reference ⟨"L", none, false, [], none, true, ⟨start + 28, start + 37⟩⟩], [], []⟩

/-- A setting in which a fork with a set fork at offset 5 can be included. -/
def library : Setting := ⟨true, ".", .ofDocuments [("./lib.txt", "{L: ({|(a)})}")]⟩

/-- How the render of a document that includes the library ends. -/
def endOfIncluding (front : String) : Except RenderError String × RenderState :=
  (Rendering.document library (including front)).run (.initial (.ofSeed 1))

/-- A fork of another document at another offset keeps to its own branch. -/
theorem own_branch_of_apart_including :
    (endOfIncluding "123456").1.toOption = some "123456xaa" ∧
      (executions (endOfIncluding "123456").2.events).length = 3 ∧
      Apart (endOfIncluding "123456").2.events ∧
      ∀ fork live draw, (fork, live, draw) ∈ executions (endOfIncluding "123456").2.events →
        live.fork = fork ∧ ∃ branch, fork.branches[draw.index]? = some branch := by
  have places : (endOfIncluding "123456").2.events.filterMap place? = [5, 34, 12, 6] := by
    decide +kernel
  have apart : Apart (endOfIncluding "123456").2.events := apart_of_nodup (by rw [places]; decide)
  refine ⟨by decide +kernel, by decide +kernel, apart, ?_⟩
  unfold endOfIncluding at apart ⊢
  exact own_branch_of_apart .self apart

/-- The text of a choice that is nothing but text. -/
def literal? : Choice → Option String
  | .nodes [.text content] => some content
  | _ => none

/-- The text of the branch that an execution drew, and those of the branches it could draw. -/
def literals (executed : Fork × LiveFork × Draw) : Option (Option String) × List (Option String) :=
  (executed.2.1.fork.branches[executed.2.2.index]?.map (literal? ·.choice),
    executed.1.branches.map (literal? ·.choice))

/-- A fork of another document at the same offset draws the branch of the fork that was there
first. -/
theorem not_own_branch_including :
    ¬ ∀ (setting : Setting) (document : Document) (generator : Generator) (run : List Event),
      RunIn ((Rendering.document setting document).run (.initial generator)).2.events run →
        ∀ fork live draw, (fork, live, draw) ∈ executions run →
          ∃ drawn, live.fork.branches[draw.index]? = some drawn ∧
            ∃ branch ∈ fork.branches, drawn.choice = branch.choice := by
  intro claim
  have texts : (executions (endOfIncluding "12345").2.events).map literals =
      [(some (some "x"), [some "a"]), (some none, [none]), (some (some "x"), [some "x"])] := by
    decide +kernel
  have foreign : (some (some "x"), [some "a"]) ∈ (executions (endOfIncluding "12345").2.events).map literals := by
    rw [texts]
    exact List.mem_cons_self ..
  obtain ⟨⟨fork, live, draw⟩, executed, same⟩ := List.mem_map.1 foreign
  obtain ⟨isDrawn, own⟩ := Prod.mk.inj same
  unfold endOfIncluding at executed
  obtain ⟨drawn, found, branch, member, sameChoice⟩ := claim _ _ _ _ .self fork live draw executed
  have text : literal? branch.choice = some "x" := by
    rw [found, Option.map_some, sameChoice] at isDrawn
    exact Option.some.inj isDrawn
  have listed : literal? branch.choice ∈ [some "a"] := own ▸ List.mem_map_of_mem member
  rw [text] at listed
  simp at listed

end Rendering

end BranchText
