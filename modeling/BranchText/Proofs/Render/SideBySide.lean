import BranchText.Proofs.Render.Reached

/-!
# Two renders side by side

Two renders of the same nodes that differ in what their includes bring. As long as no include fails
and none brings a name of the nodes, the renders stay aligned: they draw the same, and what is
recorded under the names of the nodes is the same. `Agree` states this for one part of each render,
and there is one rule for each way in which renders are put together. What an include brought is
never taken back, so that a part behind a disturbed one is disturbed as well.
-/

namespace BranchText

/-- The names that a node declares or refers to. -/
def Node.names : Node → List String
  | .text _ => []
  | .fork point => point.identifier.toList
  | .reference look => look.target :: look.identifier.toList

/-- The names that the nodes, or nodes within them, declare or refer to. -/
def namesWithin (nodes : List Node) : List String := (nodesWithin nodes).flatMap Node.names

/-- Whether a choice is a sequence of nodes. -/
def Choice.isNodes : Choice → Bool
  | .nodes _ => true
  | .script _ => false
  | .call _ => false

namespace RenderError

/-- Whether the error is that of a document that was to be included. -/
def isFromInclude : RenderError → Bool
  | notIncluded _ => true
  | within _ _ => true
  | _ => false

end RenderError

namespace Rendering

variable {α β : Type}

/-- A document was taken over that had recorded one of the names. -/
def Brings (names : List String) (events : List Event) : Prop :=
  ∃ path ledger, .merged path ledger ∈ events ∧ ∃ name ∈ names, ledger.get? name ≠ none

theorem Brings.grow {names : List String} {events later : List Event} (brings : Brings names events)
    (grows : events <:+ later) : Brings names later := by
  obtain ⟨path, ledger, member, found⟩ := brings
  exact ⟨path, ledger, grows.subset member, found⟩

theorem brings_of_merged {names : List String} {events : List Event} {path : String}
    {ledger : Table String Record} (member : .merged path ledger ∈ events)
    (present : ¬ ∀ name ∈ names, ledger.get? name = none) : Brings names events := by
  obtain ⟨name, found⟩ := Classical.not_forall.1 present
  obtain ⟨known, found⟩ := Classical.not_imp.1 found
  exact ⟨path, ledger, member, name, known, found⟩

/-- An include failed, or brought one of the names. -/
def Disturbed (names : List String) (outcome : Except RenderError α × RenderState) : Prop :=
  (∃ error, outcome.1 = .error error ∧ error.isFromInclude = true) ∨ Brings names outcome.2.events

/-- A part that is disturbed stays so, whatever comes behind it. -/
theorem Disturbed.bind {names : List String} {part : Rendering β} {next : β → Rendering α}
    {state : RenderState} (disturbed : Disturbed names (part.run state))
    (grows : ∀ value, Follows Grows Grows (next value)) :
    Disturbed names ((part >>= next).run state) := by
  rw [run_bind]
  generalize part.run state = outcome at disturbed
  rcases disturbed with ⟨error, failed, fromInclude⟩ | brings
  · obtain ⟨_, later⟩ := outcome
    cases failed
    exact .inl ⟨error, rfl, fromInclude⟩
  · rcases outcome with ⟨error | value, later⟩
    · exact .inr brings
    · exact .inr (brings.grow (ensures_always.1 (grows value later)))

/-- A fork within the nodes that does not run scripts itself. -/
def Settled (nodes : List Node) (fork : Fork) : Prop :=
  .fork fork ∈ nodesWithin nodes ∧ ∀ branch ∈ fork.branches, branch.choice.isNodes = true

/-- The states draw alike and agree on the names of the nodes, under which only forks of the nodes
are recorded. -/
structure Aligned (nodes : List Node) (left right : RenderState) : Prop where
  generator : left.generator = right.generator
  ledger : ∀ name ∈ namesWithin nodes, left.ledger.get? name = right.ledger.get? name
  anonymousSets : left.anonymousSets = right.anonymousSets
  recorded : ∀ name ∈ namesWithin nodes, ∀ entry, left.ledger.get? name = some entry →
    Settled nodes entry.live.fork
  kept : ∀ offset live, left.anonymousSets.get? offset = some live → Settled nodes live.fork

/-- Both parts ended well, with related values in aligned states, or failed for the same reason. -/
inductive Match (nodes : List Node) (same : α → α → Prop) :
    Except RenderError α × RenderState → Except RenderError α × RenderState → Prop
  | ended {value other : α} {later after : RenderState} (related : same value other)
    (aligned : Aligned nodes later after) : Match nodes same (.ok value, later) (.ok other, after)
  | failed (error : RenderError) (later after : RenderState) :
    Match nodes same (.error error, later) (.error error, after)

theorem Match.imp {nodes : List Node} {same closer : α → α → Prop}
    {first second : Except RenderError α × RenderState} (matched : Match nodes closer first second)
    (weaker : ∀ value other, closer value other → same value other) :
    Match nodes same first second := by
  cases matched with
  | ended related aligned => exact .ended (weaker _ _ related) aligned
  | failed error later after => exact .failed error later after

/-- Run in the two states, the parts match unless one of them is disturbed. -/
def Agree (nodes : List Node) (same : α → α → Prop) (first second : Rendering α)
    (left right : RenderState) : Prop :=
  Disturbed (namesWithin nodes) (first.run left) ∨ Disturbed (namesWithin nodes) (second.run right) ∨
    Match nodes same (first.run left) (second.run right)

/-- Run in aligned states, the parts agree. -/
def Alike (nodes : List Node) (same : α → α → Prop) (first second : Rendering α) : Prop :=
  ∀ left right, Aligned nodes left right → Agree nodes same first second left right

/-! ## Rules -/

section Rules

variable {nodes : List Node} {left right : RenderState} {same : α → α → Prop}

theorem Agree.imp {first second : Rendering α} {closer : α → α → Prop}
    (agree : Agree nodes closer first second left right)
    (weaker : ∀ value other, closer value other → same value other) :
    Agree nodes same first second left right :=
  Or.imp_right (Or.imp_right fun matched => matched.imp weaker) agree

/-- Parts that follow one another agree if the first ones do and the others do from where those
led. -/
theorem Agree.bind {part twin : Rendering β} {next following : β → Rendering α}
    {close : β → β → Prop} (first : Agree nodes close part twin left right)
    (grows : ∀ value, Follows Grows Grows (next value))
    (twinGrows : ∀ value, Follows Grows Grows (following value))
    (second : ∀ value other, close value other → Alike nodes same (next value) (following other)) :
    Agree nodes same (part >>= next) (twin >>= following) left right := by
  rcases first with disturbed | disturbed | matched
  · exact .inl (disturbed.bind grows)
  · exact .inr (.inl (disturbed.bind twinGrows))
  · unfold Agree
    rw [run_bind, run_bind]
    generalize part.run left = outcome at matched
    generalize twin.run right = ending at matched
    cases matched with
    | ended related aligned => exact second _ _ related _ _ aligned
    | failed error later after => exact .inr (.inr (.failed error later after))

theorem Alike.bind {part twin : Rendering β} {next following : β → Rendering α}
    {close : β → β → Prop} (first : Alike nodes close part twin)
    (grows : ∀ value, Follows Grows Grows (next value))
    (twinGrows : ∀ value, Follows Grows Grows (following value))
    (second : ∀ value other, close value other → Alike nodes same (next value) (following other)) :
    Alike nodes same (part >>= next) (twin >>= following) :=
  fun left right aligned => (first left right aligned).bind grows twinGrows second

theorem alike_pure {value other : α} (here : same value other) :
    Alike nodes same (pure value) (pure other) :=
  fun _ _ aligned => .inr (.inr (.ended here aligned))

theorem alike_throw (error : RenderError) :
    Alike nodes same (throw error : Rendering α) (throw error) :=
  fun left right _ => .inr (.inr (.failed error left right))

/-- Parts whose values are only changed behind them. -/
theorem Alike.map {part twin : Rendering β} {close : β → β → Prop} {change other : β → α}
    (first : Alike nodes close part twin)
    (related : ∀ value found, close value found → same (change value) (other found)) :
    Alike nodes same (part >>= fun value => pure (change value))
      (twin >>= fun value => pure (other value)) :=
  first.bind (fun _ => motion_grows.follows_pure _) (fun _ => motion_grows.follows_pure _)
    fun _ _ close => alike_pure (related _ _ close)

/-- Changes that keep states aligned. -/
theorem alike_modify {change other : RenderState → RenderState}
    (keeps : ∀ left right, Aligned nodes left right → Aligned nodes (change left) (other right)) :
    Alike nodes Eq (modify change : Rendering PUnit) (modify other) :=
  fun left right aligned => .inr (.inr (.ended rfl (keeps left right aligned)))

/-- Parts that go on with what they find in the state. -/
theorem alike_get {next following : RenderState → Rendering α}
    (from_state : ∀ left right, Aligned nodes left right →
      Agree nodes same (next left) (following right) left right) :
    Alike nodes same (get >>= next) (get >>= following) := from_state

/-- Items of one list, worked off with related results. -/
theorem alike_foldlM (items : List β) {part twin : α → β → Rendering α}
    (each : ∀ value, ∀ item ∈ items, Alike nodes Eq (part value item) (twin value item))
    (grows : ∀ value item, Follows Grows Grows (part value item))
    (twinGrows : ∀ value item, Follows Grows Grows (twin value item)) (start : α) :
    Alike nodes Eq (items.foldlM part start) (items.foldlM twin start) := by
  induction items generalizing start with
  | nil => exact alike_pure rfl
  | cons item rest ih =>
    rw [List.foldlM_cons, List.foldlM_cons]
    refine (each start item (List.mem_cons_self ..)).bind
      (fun value => motion_grows.follows_foldlM rest (fun value item _ => grows value item) value)
      (fun value => motion_grows.follows_foldlM rest (fun value item _ => twinGrows value item)
        value) ?_
    rintro value _ rfl
    exact ih (fun value item member => each value item (List.mem_cons_of_mem _ member)) value

end Rules

/-! ## Forks and references -/

section Aligned

variable {nodes : List Node} {left right : RenderState} (aligned : Aligned nodes left right)
include aligned

theorem Aligned.noted (event other : Event) :
    Aligned nodes (left.noted event) (right.noted other) :=
  { aligned with }

theorem Aligned.recording {entry : Record} (settled : Settled nodes entry.live.fork)
    (name : String) : Aligned nodes (left.recording name entry) (right.recording name entry) where
  generator := aligned.generator
  anonymousSets := aligned.anonymousSets
  kept := aligned.kept
  ledger other known := by
    rw [RenderState.get?_recording, RenderState.get?_recording, aligned.ledger other known]
  recorded other known found present := by
    rw [RenderState.get?_recording] at present
    split at present
    · cases present
      exact settled
    · exact aligned.recorded other known found present

theorem Aligned.registering {fork : Fork} (settled : Settled nodes fork)
    (known : ∀ name, fork.identifier = some name → name ∈ namesWithin nodes) :
    Aligned nodes (left.registering fork) (right.registering fork) := by
  unfold RenderState.registering
  split
  · exact aligned
  · rename_i name identifier
    rw [aligned.ledger name (known name identifier)]
    split
    · exact aligned
    · exact aligned.recording settled name

theorem Aligned.keeping {live : LiveFork} (settled : Settled nodes live.fork) (fork : Fork)
    (index : Nat) (rendered : String) :
    Aligned nodes (left.keeping fork live index rendered)
      (right.keeping fork live index rendered) := by
  unfold RenderState.keeping
  split
  · exact aligned.recording settled _
  · split
    · refine { aligned with anonymousSets := ?_, kept := ?_ }
      · rw [aligned.anonymousSets]
      · intro offset found present
        rw [Table.get?_insert] at present
        split at present
        · cases present
          exact settled
        · exact aligned.kept offset found present
    · exact aligned

theorem Aligned.liveOf {fork : Fork}
    (known : ∀ name, fork.identifier = some name → name ∈ namesWithin nodes) :
    left.liveOf fork = right.liveOf fork := by
  unfold RenderState.liveOf
  split
  · rename_i name identifier
    rw [aligned.ledger name (known name identifier)]
  · rw [aligned.anonymousSets]

theorem Aligned.settled_liveOf {fork : Fork} (settled : Settled nodes fork)
    (known : ∀ name, fork.identifier = some name → name ∈ namesWithin nodes) :
    Settled nodes (left.liveOf fork).fork := by
  have source := left.liveOf_source fork
  generalize left.liveOf fork = live at source
  cases source with
  | full => exact settled
  | recorded identifier found _ => exact aligned.recorded _ (known _ identifier) _ found
  | kept _ _ found => exact aligned.kept _ live found

end Aligned

section Names

variable {nodes : List Node}

theorem identifier_mem_names {fork : Fork} (within : .fork fork ∈ nodesWithin nodes) (name : String)
    (identifier : fork.identifier = some name) : name ∈ namesWithin nodes := by
  refine List.mem_flatMap.2 ⟨_, within, ?_⟩
  simp only [Node.names, identifier]
  exact List.mem_singleton.2 rfl

theorem target_mem_names {reference : Reference}
    (within : .reference reference ∈ nodesWithin nodes) : reference.target ∈ namesWithin nodes :=
  List.mem_flatMap.2 ⟨_, within, List.mem_cons_self ..⟩

theorem ownName_mem_names {reference : Reference}
    (within : .reference reference ∈ nodesWithin nodes) (name : String)
    (identifier : reference.identifier = some name) : name ∈ namesWithin nodes := by
  refine List.mem_flatMap.2 ⟨_, within, ?_⟩
  simp only [Node.names, identifier]
  exact List.mem_cons_of_mem _ (List.mem_singleton.2 rfl)

end Names

theorem grows_note (event : Event) : Follows Grows Grows (note event) :=
  fun state => grows_noted state event

theorem grows_modify {change : RenderState → RenderState}
    (keeps : ∀ state, (change state).events = state.events) :
    Follows Grows Grows (modify change : Rendering PUnit) := fun state => by
  have kept : state.events <:+ (change state).events := (keeps state).symm ▸ List.suffix_rfl
  exact (ensures_modify change).2 kept

section Steps

variable {nodes : List Node}

/-- Parts that go on with what is recorded under a name of the nodes. -/
theorem alike_recorded {same : α → α → Prop} {name : String} (known : name ∈ namesWithin nodes)
    {next following : Option Record → Rendering α}
    (found : ∀ entry, (∀ target, entry = some target → Settled nodes target.live.fork) →
      Alike nodes same (next entry) (following entry)) :
    Alike nodes same (recorded name >>= next) (recorded name >>= following) := by
  intro left right aligned
  change Agree nodes same (next (left.ledger.get? name)) (following (right.ledger.get? name)) left
    right
  rw [← aligned.ledger name known]
  exact found _ (aligned.recorded name known) left right aligned

theorem alike_note {same : α → α → Prop} (event : Event) {next following : Rendering α}
    (rest : Alike nodes same next following) :
    Alike nodes same (note event >>= fun _ => next) (note event >>= fun _ => following) :=
  fun _ _ aligned => rest _ _ (aligned.noted event event)

theorem alike_warn {same : α → α → Prop} (warning : Warning) {next following : Rendering α}
    (rest : Alike nodes same next following) :
    Alike nodes same (warn warning >>= fun _ => next) (warn warning >>= fun _ => following) :=
  fun _ _ aligned => rest _ _ { aligned with }

theorem alike_checkUnique {name : String} (known : name ∈ namesWithin nodes) (origin : Origin)
    (offset : Nat) :
    Alike nodes Eq (checkUnique name origin offset) (checkUnique name origin offset) := by
  unfold checkUnique
  refine alike_recorded known fun entry _ => ?_
  split
  · split
    · exact alike_pure rfl
    · exact alike_throw _
  · exact alike_pure rfl

theorem alike_reach {fork : Fork} (within : .fork fork ∈ nodesWithin nodes) :
    Alike nodes Eq (reach fork) (reach fork) := by
  unfold reach
  apply alike_note
  split
  · rename_i name identifier
    exact alike_checkUnique (identifier_mem_names within name identifier) _ _
  · exact alike_pure rfl

/-- Aligned renders draw the same. -/
theorem alike_draw (name : Option String) (live : LiveFork) :
    Alike nodes (fun drawn other => drawn = other ∧ drawn.1.fork = live.fork) (draw name live)
      (draw name live) := by
  unfold draw
  apply alike_get
  intro left right aligned
  rw [← aligned.generator]
  rcases live.deck.draw Generator.below left.generator with ⟨drawn, deck, generator⟩
  have moved : Aligned nodes { left with generator := generator }
      { right with generator := generator } := { aligned with generator := rfl }
  change Agree nodes _ _ _ { left with generator := generator }
    { right with generator := generator }
  cases drawn with
  | none => exact alike_throw _ _ _ moved
  | some drawn =>
    refine alike_note _ ?_ _ _ moved
    split
    · exact alike_warn _ (alike_pure ⟨rfl, rfl⟩)
    · exact alike_pure ⟨rfl, rfl⟩

end Steps

end Rendering

end BranchText
