import BranchText.Proofs.Document.Parts
import BranchText.Proofs.Render.Steps
import BranchText.Render.Output

/-!
# Renders in which no script runs

Where scripts are not allowed, or where there are none, a render is the one of `Rendering.inert`,
which has neither a loader nor a directory: a script block and a call make it fail as soon as they
are reached. `InStep` relates the two, one part at a time, and carries along what holds of the
state: no function is known, and every record is one that a node of the document left.
-/

namespace BranchText

namespace Event

/-- Whether an event is one of forks and references only. -/
def isPassive : Event → Bool
  | reached _ => true
  | referred _ => true
  | missed _ => true
  | drew _ _ _ => true
  | finished _ _ => true
  | answered _ _ _ => true
  | ran _ => false
  | called _ => false
  | loaded _ => false
  | included _ _ => false
  | merged _ _ => false

/-- What makes a render fail at an event when no script may run and no function is known. -/
def refusal? : Event → Option RenderError
  | ran block => some (.scriptsDisabled block.span.start)
  | called call => some (.functionNotFound call.name call.span.start)
  | _ => none

theorem not_isPassive {event : Event} {error : RenderError}
    (refused : event.refusal? = some error) : ¬ event.isPassive = true := by
  cases event <;> first | exact Bool.false_ne_true | cases refused

theorem loadsIn_of_refusal? {event : Event} {error : RenderError}
    (refused : event.refusal? = some error) : loadsIn event = [] := by
  cases event <;> first | rfl | cases refused

theorem loads_of_passive {events : List Event}
    (passive : ∀ event ∈ events, event.isPassive = true) : loads events = [] := by
  induction events with
  | nil => rfl
  | cons event earlier ih =>
    obtain ⟨here, before⟩ := List.forall_mem_cons.1 passive
    have none : loadsIn event = [] := by
      cases event <;> first | rfl | cases here
    rw [loads, ih before, none, List.append_nil]

end Event

namespace Rendering

variable {α β : Type}

/-- Renders a choice where script blocks are not allowed and no function is known. -/
def inert : Nat → Choice → Rendering String
  | 0, _ => throw .tooDeep
  | depth + 1, .nodes nodes => renderNodes (inert depth) nodes false
  | _ + 1, .script block => do
    note (.ran block)
    throw (.scriptsDisabled block.span.start)
  | _ + 1, .call call => do
    note (.called call)
    throw (.functionNotFound call.name call.span.start)

/-- Renders a document where script blocks are not allowed and no function is known. -/
def inertDocument (document : Document) : Rendering String :=
  renderWhole (fun nodes => renderNodes (inert depthLimit) nodes true) document

/-! ## States in which no script has run -/

/-- A node of the nodes left the record under the name. -/
structure Stands (nodes : List Node) (name : String) (entry : Record) : Prop where
  within : .fork entry.live.fork ∈ nodesWithin nodes
  declared : ∀ place, entry.origin = .declared place → (name, place) ∈ declarations nodes

/-- No script has run and no call was reached, and all that is kept was left by the nodes. -/
structure Dormant (nodes : List Node) (state : RenderState) : Prop where
  functions : state.functions = .empty
  passive : ∀ event ∈ state.events, event.isPassive = true
  recorded : ∀ name entry, state.ledger.get? name = some entry → Stands nodes name entry
  kept : ∀ offset live, state.anonymousSets.get? offset = some live →
    .fork live.fork ∈ nodesWithin nodes

theorem dormant_initial (nodes : List Node) (generator : Generator) :
    Dormant nodes (.initial generator) where
  functions := rfl
  passive _ member := by cases member
  recorded _ _ found := by cases found
  kept _ _ found := by cases found

namespace Dormant

variable {nodes : List Node} {state : RenderState} (dormant : Dormant nodes state)
include dormant

theorem noted {event : Event} (passive : event.isPassive = true) :
    Dormant nodes (state.noted event) :=
  { dormant with passive := List.forall_mem_cons.2 ⟨passive, dormant.passive⟩ }

theorem recording {name : String} {entry : Record} (stands : Stands nodes name entry) :
    Dormant nodes (state.recording name entry) where
  functions := dormant.functions
  passive := dormant.passive
  kept := dormant.kept
  recorded other found present := by
    rw [RenderState.get?_recording] at present
    split at present
    · rename_i same
      cases present
      exact same ▸ stands
    · exact dormant.recorded other found present

theorem registering {fork : Fork} (within : .fork fork ∈ nodesWithin nodes) :
    Dormant nodes (state.registering fork) := by
  unfold RenderState.registering
  split
  · exact dormant
  · rename_i name identifier
    split
    · exact dormant
    · refine dormant.recording ⟨within, fun place same => ?_⟩
      cases same
      exact fork.mem_declarations within identifier

theorem keeping {fork : Fork} (within : .fork fork ∈ nodesWithin nodes) {live : LiveFork}
    (liveWithin : .fork live.fork ∈ nodesWithin nodes) (index : Nat) (rendered : String) :
    Dormant nodes (state.keeping fork live index rendered) := by
  unfold RenderState.keeping
  split
  · rename_i name identifier
    refine dormant.recording ⟨liveWithin, fun place same => ?_⟩
    cases same
    exact fork.mem_declarations within identifier
  · split
    · refine { dormant with kept := fun offset found present => ?_ }
      rw [Table.get?_insert] at present
      split at present
      · cases present
        exact liveWithin
      · exact dormant.kept offset found present
    · exact dormant

/-- A fork of the nodes is drawn from weights of a fork of the nodes. -/
theorem liveOf {fork : Fork} (within : .fork fork ∈ nodesWithin nodes) :
    .fork (state.liveOf fork).fork ∈ nodesWithin nodes := by
  have source := state.liveOf_source fork
  generalize state.liveOf fork = live at source
  cases source with
  | full => exact within
  | recorded _ found _ => exact (dormant.recorded _ _ found).within
  | kept _ _ found => exact dormant.kept _ live found

end Dormant

/-! ## How a render without scripts fails -/

/-- What made a render without scripts fail: the script block or the call that it reached last, or
else something about forks and references. -/
inductive Reason (error : RenderError) : List Event → Prop
  | node {events : List Event} (passive : ∀ event ∈ events, event.isPassive = true) :
    Reason error events
  | refused {event : Event} {earlier : List Event} (refusal : event.refusal? = some error)
    (passive : ∀ event ∈ earlier, event.isPassive = true) : Reason error (event :: earlier)

section Reason

variable {error : RenderError} {events : List Event} (reason : Reason error events)
include reason

theorem Reason.loads : Event.loads events = [] := by
  cases reason with
  | node passive => exact Event.loads_of_passive passive
  | refused refusal passive =>
    rw [Event.loads, Event.loads_of_passive passive, Event.loadsIn_of_refusal? refusal]
    rfl

theorem Reason.eq_of_mem {event : Event} {other : RenderError} (reached : event ∈ events)
    (refusal : event.refusal? = some other) : error = other := by
  have active := Event.not_isPassive refusal
  cases reason with
  | node passive => exact absurd (passive event reached) active
  | refused found passive =>
    rcases List.mem_cons.1 reached with rfl | earlier
    · exact Option.some.inj (found.symm.trans refusal)
    · exact absurd (passive event earlier) active

end Reason

/-- The render failed for a reason of its own, and for a name declared twice only if two places
of the nodes declare it. -/
structure Halted (nodes : List Node) (error : RenderError) (state : RenderState) : Prop where
  reason : Reason error state.events
  duplicate : ∀ name offset, error = .duplicateIdentifier name offset →
    (name, offset) ∈ declarations nodes ∧
      ∃ place, place ≠ offset ∧ (name, place) ∈ declarations nodes

theorem Dormant.halted {nodes : List Node} {state : RenderState} (dormant : Dormant nodes state)
    {error : RenderError} (different : ∀ name offset, error ≠ .duplicateIdentifier name offset) :
    Halted nodes error state :=
  ⟨.node dormant.passive, fun name offset same => absurd same (different name offset)⟩

/-- A part of a render has ended well, with a good value in a dormant state, or has halted. -/
def Rests (nodes : List Node) (good : α → Prop) : Except RenderError α × RenderState → Prop
  | (.ok value, later) => good value ∧ Dormant nodes later
  | (.error error, later) => Halted nodes error later

section Rests

variable {nodes : List Node} {good : α → Prop} {outcome : Except RenderError α × RenderState}
  (rests : Rests nodes good outcome)
include rests

/-- A part of a render without scripts has asked for nothing. -/
theorem Rests.loads : Event.loads outcome.2.events = [] := by
  obtain ⟨error | value, later⟩ := outcome
  · exact rests.reason.loads
  · exact Event.loads_of_passive rests.2.passive

/-- A script block or a call that was reached is what the part failed for. -/
theorem Rests.refused {event : Event} {error : RenderError} (reached : event ∈ outcome.2.events)
    (refusal : event.refusal? = some error) : outcome.1 = .error error := by
  obtain ⟨found | value, later⟩ := outcome
  · exact congrArg Except.error (rests.reason.eq_of_mem reached refusal)
  · exact absurd (rests.2.passive event reached) (Event.not_isPassive refusal)

end Rests

/-- From every dormant state, the part does what its twin does, and comes to rest. -/
def InStep (nodes : List Node) (good : α → Prop) (part twin : Rendering α) : Prop :=
  ∀ state, Dormant nodes state → part.run state = twin.run state ∧ Rests nodes good (part.run state)

section Rules

variable {nodes : List Node} {good : α → Prop}

theorem inStep_pure {value : α} (here : good value) : InStep nodes good (pure value) (pure value) :=
  fun _ dormant => ⟨rfl, here, dormant⟩

theorem inStep_throw {error : RenderError}
    (different : ∀ name offset, error ≠ .duplicateIdentifier name offset) :
    InStep nodes good (throw error) (throw error) :=
  fun _ dormant => ⟨rfl, dormant.halted different⟩

/-- Parts that follow one another. -/
theorem InStep.bind {part twin : Rendering β} {next following : β → Rendering α}
    {close : β → Prop} (first : InStep nodes close part twin)
    (second : ∀ value, close value → InStep nodes good (next value) (following value)) :
    InStep nodes good (part >>= next) (twin >>= following) := by
  intro state dormant
  obtain ⟨same, rests⟩ := first state dormant
  rw [run_bind, run_bind, ← same]
  generalize part.run state = outcome at rests
  obtain ⟨error | value, later⟩ := outcome
  · exact ⟨rfl, rests⟩
  · exact second value rests.1 later rests.2

theorem InStep.map {part twin : Rendering β} {close : β → Prop}
    (first : InStep nodes close part twin) {change : β → α}
    (kept : ∀ value, close value → good (change value)) :
    InStep nodes good (part >>= fun value => pure (change value))
      (twin >>= fun value => pure (change value)) :=
  first.bind fun value here => inStep_pure (kept value here)

theorem inStep_modify {change : RenderState → RenderState}
    (keeps : ∀ state, Dormant nodes state → Dormant nodes (change state)) :
    InStep nodes (fun _ => True) (modify change : Rendering PUnit) (modify change) :=
  fun state dormant => ⟨rfl, trivial, keeps state dormant⟩

theorem inStep_note {event : Event} (passive : event.isPassive = true) :
    InStep nodes (fun _ => True) (note event) (note event) :=
  inStep_modify fun _ dormant => dormant.noted passive

theorem inStep_warn (warning : Warning) :
    InStep nodes (fun _ => True) (warn warning) (warn warning) :=
  inStep_modify fun _ dormant => { dormant with }

/-- Parts that go on with what they find in the state. -/
theorem inStep_get {next following : RenderState → Rendering α}
    (found : ∀ state, Dormant nodes state → InStep nodes good (next state) (following state)) :
    InStep nodes good (get >>= next) (get >>= following) :=
  fun state dormant => found state dormant state dormant

theorem inStep_recorded (name : String) :
    InStep nodes (fun entry : Option Record => ∀ record ∈ entry, Stands nodes name record)
      (recorded name) (recorded name) :=
  fun _ dormant => ⟨rfl, fun record found => dormant.recorded name record found, dormant⟩

theorem inStep_foldlM (items : List β) {part twin : α → β → Rendering α}
    (each : ∀ value, ∀ item ∈ items,
      InStep nodes (fun _ => True) (part value item) (twin value item)) (start : α) :
    InStep nodes (fun _ => True) (items.foldlM part start) (items.foldlM twin start) := by
  induction items generalizing start with
  | nil => exact inStep_pure trivial
  | cons item rest ih =>
    rw [List.foldlM_cons, List.foldlM_cons]
    exact (each start item (List.mem_cons_self ..)).bind fun value _ =>
      ih (fun value item member => each value item (List.mem_cons_of_mem _ member)) value

end Rules

/-! ## Forks and references -/

section Steps

variable {nodes : List Node}

/-- A name is found taken only if another node of the nodes declares it. -/
theorem inStep_checkUnique {name : String} {offset : Nat}
    (declared : (name, offset) ∈ declarations nodes) :
    InStep nodes (fun _ => True) (checkUnique name (.declared offset) offset)
      (checkUnique name (.declared offset) offset) := by
  unfold checkUnique
  refine (inStep_recorded name).bind fun entry stands => ?_
  split
  · rename_i live chosen rendered existing
    split
    · exact inStep_pure trivial
    · rename_i different
      refine fun state dormant => ⟨rfl, .node dormant.passive, fun other place same => ?_⟩
      cases same
      exact ⟨declared, existing, fun same => different (same ▸ rfl),
        (stands _ rfl).declared existing rfl⟩
  · exact inStep_pure trivial

theorem inStep_reach {fork : Fork} (within : .fork fork ∈ nodesWithin nodes) :
    InStep nodes (fun _ => True) (reach fork) (reach fork) := by
  unfold reach
  refine (inStep_note rfl).bind fun _ _ => ?_
  split
  · rename_i name identifier
    exact inStep_checkUnique (fork.mem_declarations within identifier)
  · exact inStep_pure trivial

theorem inStep_draw (name : Option String) (live : LiveFork) :
    InStep nodes (fun drawn => drawn.1.fork = live.fork) (draw name live) (draw name live) := by
  unfold draw
  refine inStep_get fun found dormant => ?_
  rcases live.deck.draw Generator.below found.generator with ⟨drawn, deck, generator⟩
  have redrawn : InStep nodes (fun _ => True)
      (set { found with generator := generator } : Rendering PUnit)
      (set { found with generator := generator }) :=
    fun _ _ => ⟨rfl, trivial, { dormant with }⟩
  refine redrawn.bind fun _ _ => ?_
  cases drawn with
  | none => exact inStep_throw (by simp)
  | some drawn =>
    refine (inStep_note rfl).bind fun _ _ => ?_
    simp only
    split
    · exact (inStep_warn _).bind fun _ _ => inStep_pure rfl
    · exact inStep_pure rfl

variable {nested twin : Choice → Rendering String}
  (inner : ∀ choice : Choice, choice.PartOf nodes →
    InStep nodes (fun _ => True) (nested choice) (twin choice))
include inner

theorem inStep_renderBranch {fork : Fork} (within : .fork fork ∈ nodesWithin nodes) (index : Nat) :
    InStep nodes (fun _ => True) (renderBranch nested fork index)
      (renderBranch twin fork index) := by
  unfold renderBranch
  split
  · rename_i branch found
    exact inner _ (fork.partOf_of_branch within (List.mem_of_getElem? found))
  · exact inStep_pure trivial

theorem inStep_execute (name : Option String) {live : LiveFork}
    (within : .fork live.fork ∈ nodesWithin nodes) :
    InStep nodes (fun outcome => .fork outcome.1.fork ∈ nodesWithin nodes)
      (execute nested name live) (execute twin name live) := by
  unfold execute
  refine (inStep_draw name live).bind fun drawn same => ?_
  have drawnWithin : .fork drawn.1.fork ∈ nodesWithin nodes := same ▸ within
  refine (inStep_renderBranch inner drawnWithin _).bind fun rendered _ => ?_
  exact (inStep_note rfl).bind fun _ _ => inStep_pure drawnWithin

theorem inStep_renderFork {fork : Fork} (within : .fork fork ∈ nodesWithin nodes) :
    InStep nodes (fun _ => True) (renderFork nested fork) (renderFork twin fork) := by
  unfold renderFork
  refine (inStep_reach within).bind fun _ _ => ?_
  split
  · exact (inStep_modify fun _ dormant => dormant.registering within).bind
      fun _ _ => inStep_pure trivial
  · refine inStep_get fun found dormant => ?_
    refine (inStep_execute inner _ (dormant.liveOf within)).bind fun outcome liveWithin => ?_
    exact (inStep_modify fun _ dormant => dormant.keeping within liveWithin _ _).bind
      fun _ _ => inStep_pure trivial

/-- The branch that a reference answers to, with the record that it leaves for its target. -/
theorem inStep_branchOf (reference : Reference) {target : Record}
    (stands : Stands nodes reference.target target) :
    InStep nodes (fun taken => .fork taken.1.fork ∈ nodesWithin nodes)
      (branchOf nested reference target) (branchOf twin reference target) := by
  unfold branchOf
  split
  · exact inStep_pure stands.within
  · refine (inStep_execute inner _ stands.within).bind fun outcome liveWithin => ?_
    have taken : Stands nodes reference.target
        ⟨outcome.1, some outcome.2.1, outcome.2.2, target.origin⟩ := ⟨liveWithin, stands.declared⟩
    exact (inStep_modify fun _ dormant => dormant.recording taken).bind
      fun _ _ => inStep_pure liveWithin

section References

variable {reference : Reference} (within : .reference reference ∈ nodesWithin nodes)
include within

theorem inStep_answer (index : Nat) (rendered : String) :
    InStep nodes (fun _ => True) (answer nested reference index rendered)
      (answer twin reference index rendered) := by
  unfold answer
  split
  · exact inStep_pure trivial
  · split
    · rename_i choice found
      exact (inStep_note rfl).bind fun _ _ => inner choice (reference.partOf_of_answer within found)
    · exact (inStep_warn _).bind fun _ _ => inStep_pure trivial

theorem inStep_answerAbsent :
    InStep nodes (fun _ => True) (answerAbsent nested reference) (answerAbsent twin reference) := by
  unfold answerAbsent
  refine (inStep_note rfl).bind fun _ _ => ?_
  split
  · exact inStep_throw (by simp)
  · split
    · rename_i choice found
      exact inner choice (reference.partOf_of_fallback within found)
    · exact (inStep_warn _).bind fun _ _ => inStep_pure trivial

omit inner in
theorem inStep_nameOutcome {live : LiveFork} (liveWithin : .fork live.fork ∈ nodesWithin nodes)
    (index : Nat) (output : String) :
    InStep nodes (fun _ => True) (nameOutcome reference live index output)
      (nameOutcome reference live index output) := by
  unfold nameOutcome
  split
  · rename_i name identifier
    have declared := reference.mem_declarations within identifier
    refine (inStep_checkUnique declared).bind fun _ _ => ?_
    refine inStep_modify fun _ dormant => dormant.recording ⟨liveWithin, fun place same => ?_⟩
    cases same
    exact declared
  · exact inStep_pure trivial

theorem inStep_renderReference :
    InStep nodes (fun _ => True) (renderReference nested reference)
      (renderReference twin reference) := by
  unfold renderReference
  refine (inStep_note rfl).bind fun _ _ => ?_
  refine (inStep_recorded _).bind fun entry stands => ?_
  cases entry with
  | none => exact inStep_answerAbsent inner within
  | some target =>
    refine (inStep_branchOf inner reference (stands target rfl)).bind fun taken liveWithin => ?_
    refine (inStep_answer inner within _ _).bind fun output _ => ?_
    exact (inStep_nameOutcome within liveWithin _ _).map fun _ _ => trivial

end References

/-! ## Whole renders -/

/-- Nodes render in step if the choices within them do. -/
theorem inStep_renderNodes {among : List Node} (partOf : (Choice.nodes among).PartOf nodes)
    (startsLine : Bool) :
    InStep nodes (fun _ => True) (renderNodes nested among startsLine)
      (renderNodes twin among startsLine) := by
  unfold renderNodes
  refine (inStep_foldlM among (fun line node member => ?_) _).map fun _ _ => trivial
  have within : node ∈ nodesWithin nodes :=
    partOf.within (within_subset_of_mem member (Node.self_mem_within node))
  cases node with
  | text content => exact inStep_pure trivial
  | fork fork => exact (inStep_renderFork inner within).map fun _ _ => trivial
  | reference reference => exact (inStep_renderReference inner within).map fun _ _ => trivial

end Steps

/-- A call is not found where no function is known. -/
theorem run_runCall_unknown (fetch : String → Rendering Included) (call : FunctionCall)
    {state : RenderState} (unknown : state.functions = .empty) :
    (runCall fetch call).run state =
      (.error (.functionNotFound call.name call.span.start), state.noted (.called call)) := by
  have missing : (state.noted (.called call)).functions.get? call.name = none := by
    rw [show (state.noted (.called call)).functions = .empty from unknown]
    rfl
  have got : ∀ next : RenderState → Rendering String,
      (note (.called call) >>= fun _ => get >>= next).run state =
        (next (state.noted (.called call))).run (state.noted (.called call)) := fun _ => rfl
  rw [runCall, got, missing]
  rfl

/-- Where scripts are not allowed, or where there are none, choices render as inert ones. -/
theorem inStep_choice {nodes : List Node} {setting : Setting}
    (off : setting.allowScripts = false ∨ scriptsOfNodes nodes = []) (depth : Nat)
    {part : Choice} (partOf : part.PartOf nodes) :
    InStep nodes (fun _ => True) (choice depth setting part) (inert depth part) := by
  induction depth generalizing part with
  | zero => exact inStep_throw (by simp)
  | succ depth ih =>
    cases part with
    | nodes among => exact inStep_renderNodes (fun _ => ih) partOf false
    | script block =>
      have disabled : setting.allowScripts = false := by
        refine off.resolve_right fun none => ?_
        have listed := partOf.scripts (List.mem_singleton.2 rfl)
        rw [none] at listed
        cases listed
      intro state dormant
      have ran : (choice (depth + 1) setting (.script block)).run state =
          (.error (.scriptsDisabled block.span.start), state.noted (.ran block)) :=
        run_runScript_disabled disabled state
      refine ⟨ran, ?_⟩
      rw [ran]
      exact ⟨.refused rfl dormant.passive, fun _ _ same => by cases same⟩
    | call call =>
      intro state dormant
      have called : (choice (depth + 1) setting (.call call)).run state =
          (.error (.functionNotFound call.name call.span.start), state.noted (.called call)) :=
        run_runCall_unknown _ call dormant.functions
      refine ⟨called, ?_⟩
      rw [called]
      exact ⟨.refused rfl dormant.passive, fun _ _ same => by cases same⟩

/-- So do documents. -/
theorem inStep_document {setting : Setting} {document : Document}
    (off : setting.allowScripts = false ∨ document.scripts = []) :
    InStep document.nodes (fun _ => True) (Rendering.document setting document)
      (inertDocument document) := by
  have whole : (Choice.nodes document.nodes).PartOf document.nodes :=
    ⟨List.Subset.refl _, List.Subset.refl _⟩
  have rendered := inStep_renderNodes (fun part => inStep_choice off depthLimit) whole true
  unfold Rendering.document inertDocument renderWhole
  split
  · exact (inStep_warn _).bind fun _ _ => rendered
  · exact rendered

/-! ## Laws of inert renders -/

namespace Motion

variable {moves fails : RenderState → RenderState → Prop} (motion : Motion moves fails)
  (forks : ∀ (nested : Choice → Rendering String) (fork : Fork),
    (∀ choice, Follows moves fails (nested choice)) → Follows moves fails (renderFork nested fork))
  (references : ∀ (nested : Choice → Rendering String) (reference : Reference),
    (∀ choice, Follows moves fails (nested choice)) →
      Follows moves fails (renderReference nested reference))
include motion forks references

/-- An inert render follows what forks and references follow. -/
theorem follows_inert (depth : Nat) (choice : Choice) :
    Follows moves fails (inert depth choice) := by
  induction depth generalizing choice with
  | zero => exact motion.follows_throw _
  | succ depth ih =>
    cases choice with
    | nodes among =>
      exact motion.follows_renderNodes (fun fork _ => forks _ fork ih)
        (fun reference _ => references _ reference ih) false
    | script block =>
      exact motion.follows_bind (motion.follows_note (.ran block)) fun _ => motion.follows_throw _
    | call call =>
      exact motion.follows_bind (motion.follows_note (.called call)) fun _ => motion.follows_throw _

theorem follows_inertDocument (document : Document) :
    Follows moves fails (inertDocument document) := by
  have inner := motion.follows_inert forks references depthLimit
  have rendered : Follows moves fails (renderNodes (inert depthLimit) document.nodes true) :=
    motion.follows_renderNodes (fun fork _ => forks _ fork inner)
      (fun reference _ => references _ reference inner) true
  unfold inertDocument renderWhole
  split
  · exact motion.follows_bind (motion.follows_warn _) fun _ => rendered
  · exact rendered

end Motion

end Rendering

end BranchText
