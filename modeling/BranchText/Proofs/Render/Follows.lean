import BranchText.Proofs.Render.Ensures

/-!
# Parts that follow a relation

A relation between the states before and after respects a part of a render if every run of the
part leads to a related state. Relations that compose, a `Motion`, are respected by sequences of
parts that respect them.

Scripts draw and register, and leave the ledger and the events alone except by including: `Unseen`
states that forks and references cannot tell two states apart.
-/

namespace BranchText

namespace RenderState

/-- The state with one more event. -/
def noted (state : RenderState) (event : Event) : RenderState :=
  { state with events := event :: state.events }

@[simp]
theorem noted_ledger (state : RenderState) (event : Event) :
    (state.noted event).ledger = state.ledger := rfl

@[simp]
theorem noted_anonymousSets (state : RenderState) (event : Event) :
    (state.noted event).anonymousSets = state.anonymousSets := rfl

@[simp]
theorem noted_events (state : RenderState) (event : Event) :
    (state.noted event).events = event :: state.events := rfl

end RenderState

namespace Rendering

variable {α β : Type}

/-- The states agree in everything that forks and references read or write, generators and
warnings apart. -/
structure Unseen (before after : RenderState) : Prop where
  ledger : after.ledger = before.ledger
  anonymousSets : after.anonymousSets = before.anonymousSets
  events : after.events = before.events

/-- The text at some path was asked for. -/
def Loaded (events : List Event) : Prop := ∃ path, Event.loaded path ∈ events

theorem Loaded.grow {events later : List Event} (loaded : Loaded events)
    (grows : events <:+ later) : Loaded later := by
  obtain ⟨path, member⟩ := loaded
  exact ⟨path, grows.subset member⟩

/-- From every state, the part leads to related states. -/
def Follows (moves fails : RenderState → RenderState → Prop) (part : Rendering α) : Prop :=
  ∀ state, Ensures part state (fun _ later => moves state later) (fails state)

/-- The events that tell what is rendered and change nothing themselves. -/
inductive Quiet : Event → Prop
  | missed (reference : Reference) : Quiet (.missed reference)
  | answered (reference : Reference) (branch : Nat) (choice : Choice) :
    Quiet (.answered reference branch choice)
  | ran (block : ScriptBlock) : Quiet (.ran block)
  | called (call : FunctionCall) : Quiet (.called call)

/-- Relations that parts can respect one after another: `moves` for parts that end well, `fails`
for those that fail. -/
structure Motion (moves fails : RenderState → RenderState → Prop) : Prop where
  trans : ∀ {first second third}, moves first second → moves second third → moves first third
  fails_after : ∀ {first second third}, moves first second → fails second third →
    fails first third
  fails_of_moves : ∀ {first second}, moves first second → fails first second
  grows : ∀ {first second}, moves first second → first.events <:+ second.events
  unseen : ∀ {before after}, Unseen before after → moves before after
  quiet : ∀ state {event}, Quiet event → moves state (state.noted event)

namespace Motion

variable {moves fails : RenderState → RenderState → Prop} (motion : Motion moves fails)
include motion

theorem same (state : RenderState) : moves state state := motion.unseen ⟨rfl, rfl, rfl⟩

theorem follows_pure (value : α) : Follows moves fails (pure value) :=
  fun state => motion.same state

theorem follows_throw (error : RenderError) :
    Follows moves fails (throw error : Rendering α) :=
  fun state => motion.fails_of_moves (motion.same state)

/-- A part that starts where another one led to. -/
theorem ensures_of_moves {part : Rendering α} (follows : Follows moves fails part)
    {state later : RenderState} (moved : moves state later) :
    Ensures part later (fun _ after => moves state after) (fails state) :=
  (follows later).imp (fun _ _ => motion.trans moved) fun _ => motion.fails_after moved

/-- Parts that follow one another. -/
theorem follows_bind {part : Rendering β} {next : β → Rendering α}
    (first : Follows moves fails part) (second : ∀ value, Follows moves fails (next value)) :
    Follows moves fails (part >>= next) := by
  intro state
  rw [ensures_bind]
  refine (first state).imp (fun value later moved => ?_) fun _ failed => failed
  exact motion.ensures_of_moves (second value) moved

theorem follows_modify {change : RenderState → RenderState}
    (unseen : ∀ state, Unseen state (change state)) :
    Follows moves fails (modify change : Rendering PUnit) :=
  fun state => motion.unseen (unseen state)

theorem follows_warn (warning : Warning) : Follows moves fails (warn warning) :=
  motion.follows_modify fun _ => ⟨rfl, rfl, rfl⟩

theorem follows_note {event : Event} (isQuiet : Quiet event) : Follows moves fails (note event) :=
  fun state => motion.quiet state isQuiet

theorem follows_forM (items : List β) {part : β → Rendering PUnit}
    (each : ∀ item ∈ items, Follows moves fails (part item)) :
    Follows moves fails (items.forM part) := by
  induction items with
  | nil => exact motion.follows_pure _
  | cons item rest ih =>
    change Follows moves fails (part item >>= fun _ => rest.forM part)
    exact motion.follows_bind (each item (List.mem_cons_self ..))
      fun _ => ih fun other member => each other (List.mem_cons_of_mem _ member)

theorem follows_foldlM (items : List β) {part : α → β → Rendering α}
    (each : ∀ value, ∀ item ∈ items, Follows moves fails (part value item)) (start : α) :
    Follows moves fails (items.foldlM part start) := by
  induction items generalizing start with
  | nil => exact motion.follows_pure _
  | cons item rest ih =>
    rw [List.foldlM_cons]
    exact motion.follows_bind (each start item (List.mem_cons_self ..))
      fun value => ih (fun other item member => each other item (List.mem_cons_of_mem _ member)) value

end Motion

end Rendering

end BranchText
