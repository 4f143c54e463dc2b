import BranchText.Proofs.Indexed.Grammar
import BranchText.Proofs.Reading.Spans
import BranchText.Proofs.Render.Tracks
import BranchText.Render.Output

/-!
# Where warnings and errors point

Warnings and errors carry an offset and do not say in which document. A render reports about what it
reaches: nodes of its document, and nodes of the forks that it draws from, which an include may have
brought. Warnings that an included document hands over keep the offsets that they have there.
-/

namespace BranchText

/-! ## The places of a document -/

/-- Where the forks, references, script blocks and calls inside a choice start. -/
def Choice.places (choice : Choice) : List Nat := choice.spans.map (·.start)

/-- Where a node and everything that it holds start. -/
def Node.places (node : Node) : List Nat := (node.within.flatMap Node.spans).map (·.start)

/-- What a render of the document can point to: its start, and where its forks, references, script
blocks, calls and modes start. -/
def Document.places (document : Document) : List Nat :=
  0 :: ((Choice.nodes document.nodes).places ++ document.modes.map (·.span.start))

section Places

variable {offset : Nat}

theorem Choice.mem_places_nodes {nodes : List Node} :
    offset ∈ (Choice.nodes nodes).places ↔ ∃ inner ∈ nodesWithin nodes,
      ∃ span ∈ inner.spans, span.start = offset := by
  simp only [places, spans, span?, Choice.within, Option.toList_none, List.nil_append,
    List.mem_map, List.mem_flatMap]
  grind

theorem Node.mem_places {node : Node} :
    offset ∈ node.places ↔ ∃ inner ∈ node.within, ∃ span ∈ inner.spans, span.start = offset := by
  simp only [places, List.mem_map, List.mem_flatMap]
  grind

theorem Fork.start_mem_places (fork : Fork) : fork.span.start ∈ (Node.fork fork).places :=
  Node.mem_places.2 ⟨_, Node.self_mem_within _, fork.span, List.mem_cons_self .., rfl⟩

theorem Reference.start_mem_places (reference : Reference) :
    reference.span.start ∈ (Node.reference reference).places :=
  Node.mem_places.2 ⟨_, Node.self_mem_within _, reference.span, List.mem_cons_self .., rfl⟩

/-- The places of a choice are places of the node that holds it. -/
theorem Node.places_of_choice {node : Node} {choice : Choice} (held : choice ∈ node.choices)
    (within : choice.within ⊆ node.within) (here : offset ∈ choice.places) :
    offset ∈ node.places := by
  obtain ⟨span, member, rfl⟩ := List.mem_map.1 here
  refine Node.mem_places.2 ?_
  rcases List.mem_append.1 member with own | inside
  · refine ⟨node, Node.self_mem_within _, span, List.mem_append_right _ ?_, rfl⟩
    exact List.mem_filterMap.2 ⟨choice, held, Option.mem_toList.1 own⟩
  · obtain ⟨inner, place, listed⟩ := List.mem_flatMap.1 inside
    exact ⟨inner, within place, span, listed, rfl⟩

theorem Fork.places_of_branch {fork : Fork} {branch : Branch} (member : branch ∈ fork.branches)
    (here : offset ∈ branch.choice.places) : offset ∈ (Node.fork fork).places :=
  Node.places_of_choice (List.mem_map_of_mem member) (Fork.branch_within member) here

theorem Reference.places_of_choice {reference : Reference} {choice : Choice}
    (held : choice ∈ reference.choices) (here : offset ∈ choice.places) :
    offset ∈ (Node.reference reference).places :=
  Node.places_of_choice held (Reference.choice_within held) here

/-- The places of a node within a document are places of the document. -/
theorem Document.places_of_within {document : Document} {node : Node}
    (within : node ∈ nodesWithin document.nodes) (here : offset ∈ node.places) :
    offset ∈ document.places := by
  obtain ⟨inner, place, listed⟩ := Node.mem_places.1 here
  refine List.mem_cons_of_mem _ (List.mem_append_left _ ?_)
  refine Choice.mem_places_nodes.2 ⟨inner, ?_, listed⟩
  exact within_subset_nodesWithin document.nodes node within place

end Places

/-- An error is reported within the source. -/
theorem Document.offset_le_of_read {source : List Char} {error : ReadError}
    (failed : Document.read source = .error error) : error.offset ≤ byteLength source := by
  have runs := Indexed.runs_document source
  unfold Indexed.Runs at runs
  split at runs
  · rw [failed] at runs
    cases runs
  · obtain ⟨same, place, isIn, here⟩ := runs
    rw [failed] at same
    cases same
    rw [← here]
    exact isIn.offset_le
  · exact runs.elim

namespace RenderState

@[simp]
theorem registering_warnings (state : RenderState) (fork : Fork) :
    (state.registering fork).warnings = state.warnings := by
  unfold registering
  split
  · rfl
  · split <;> rfl

@[simp]
theorem keeping_warnings (state : RenderState) (fork : Fork) (live : LiveFork) (index : Nat)
    (rendered : String) : (state.keeping fork live index rendered).warnings = state.warnings := by
  unfold keeping
  split
  · rfl
  · split <;> rfl

end RenderState

namespace Rendering

/-! ## What a render knows -/

/-- The live weights that the fork or reference reached last is drawn from. -/
def tried (state : RenderState) : Option LiveFork :=
  match state.events with
  | .reached fork :: _ => some (state.liveOf fork)
  | .referred reference :: _ => (state.ledger.get? reference.target).map (·.live)
  | _ => none

/-- The offset is among those given, or a place of a fork that was drawn from. -/
def Known (own : List Nat) (events : List Event) (offset : Nat) : Prop :=
  offset ∈ own ∨ ∃ name live draw, .drew name live draw ∈ events ∧
    offset ∈ (Node.fork live.fork).places

/-- The warning was raised while a document that was included was rendered on its own. -/
def HandedOver (loader : Loader) (events : List Event) (warning : Warning) : Prop :=
  ∃ path text document, loader path = .ok text ∧ Document.read text.toList = .ok document ∧
    ∃ depth setting generator outcome, setting.loader = loader ∧
      outcome = (renderWhole (renderNodes (choice depth setting) · true) document).run
        (.initial generator) ∧
      .included path outcome.2.events ∈ events ∧ warning ∈ outcome.2.warnings

/-- Every warning points to what the render knows, or was handed over. -/
def Told (loader : Loader) (own : List Nat) (state : RenderState) : Prop :=
  ∀ warning ∈ state.warnings, Known own state.events warning.offset ∨
    HandedOver loader state.events warning

/-- An error points to what the render knows, or to the fork that could not be drawn from. -/
def Blames (own : List Nat) (error : RenderError) (state : RenderState) : Prop :=
  ∀ offset, error.offset? = some offset → Known own state.events offset ∨
    ∃ live, tried state = some live ∧ error = .noChoice live.fork.span.start

section Knowledge

variable {own : List Nat} {loader : Loader} {events later : List Event}

theorem Known.grow {offset : Nat} (known : Known own events offset) (grows : events <:+ later) :
    Known own later offset :=
  known.imp_right fun ⟨name, live, draw, drew, place⟩ =>
    ⟨name, live, draw, grows.subset drew, place⟩

theorem HandedOver.grow {warning : Warning} (handed : HandedOver loader events warning)
    (grows : events <:+ later) : HandedOver loader later warning := by
  obtain ⟨path, text, document, loaded, read, depth, setting, generator, outcome, same, run,
    included, warned⟩ := handed
  exact ⟨path, text, document, loaded, read, depth, setting, generator, outcome, same, run,
    grows.subset included, warned⟩

/-- What is told stays so when nothing more is warned of. -/
theorem Told.grow {state after : RenderState} (told : Told loader own state)
    (grows : Grows state after) (same : after.warnings = state.warnings) :
    Told loader own after := by
  intro warning member
  rw [same] at member
  exact (told warning member).imp (·.grow grows) (·.grow grows)

/-- Warnings that are added are known or handed over. -/
theorem Told.warn {state after : RenderState} (told : Told loader own state)
    (grows : Grows state after) (added : List Warning)
    (same : after.warnings = state.warnings ++ added)
    (each : ∀ warning ∈ added, Known own after.events warning.offset ∨
      HandedOver loader after.events warning) :
    Told loader own after := by
  intro warning member
  rw [same] at member
  rcases List.mem_append.1 member with earlier | here
  · exact (told warning earlier).imp (·.grow grows) (·.grow grows)
  · exact each warning here

end Knowledge

/-! ## Reports -/

variable {α β : Type}

/-- Run in a state whose warnings are told, the part keeps them so and takes no events back; its
value is good, and it fails with errors that are fair. -/
def Reports (loader : Loader) (own : List Nat) (fair : RenderError → RenderState → Prop)
    (part : Rendering α) (state : RenderState) (good : α → RenderState → Prop) : Prop :=
  Told loader own state →
    let outcome := part.run state
    (Told loader own outcome.2 ∧ Grows state outcome.2) ∧
      match outcome.1 with
      | .ok value => good value outcome.2
      | .error error => fair error outcome.2

section Rules

variable {loader : Loader} {own : List Nat} {fair : RenderError → RenderState → Prop}
  {state : RenderState} {good : α → RenderState → Prop}

theorem reports_pure {value : α} (here : good value state) :
    Reports loader own fair (pure value) state good :=
  fun told => ⟨⟨told, List.suffix_rfl⟩, here⟩

theorem reports_throw {error : RenderError} (here : fair error state) :
    Reports loader own fair (throw error : Rendering α) state good :=
  fun told => ⟨⟨told, List.suffix_rfl⟩, here⟩

theorem Reports.imp {part : Rendering α} {better : α → RenderState → Prop}
    (reports : Reports loader own fair part state better)
    (weaker : ∀ value later, better value later → good value later) :
    Reports loader own fair part state good := by
  intro told
  have here := reports told
  generalize part.run state = outcome at here
  obtain ⟨error | value, later⟩ := outcome
  · exact here
  · exact ⟨here.1, weaker value later here.2⟩

theorem Reports.bind {part : Rendering β} {next : β → Rendering α}
    {between : β → RenderState → Prop} (first : Reports loader own fair part state between)
    (second : ∀ value later, Grows state later → between value later →
      Reports loader own fair (next value) later good) :
    Reports loader own fair (part >>= next) state good := by
  intro told
  have here := first told
  rw [run_bind]
  generalize part.run state = outcome at here
  obtain ⟨error | value, later⟩ := outcome
  · exact here
  · obtain ⟨⟨told, grows⟩, good⟩ := here
    have behind := second value later grows good told
    exact ⟨⟨behind.1.1, grows.trans behind.1.2⟩, behind.2⟩

theorem reports_get : Reports loader own fair (get : Rendering RenderState) state
    fun found later => state = found ∧ state = later :=
  fun told => ⟨⟨told, List.suffix_rfl⟩, rfl, rfl⟩

theorem reports_recorded (name : String) : Reports loader own fair (recorded name) state
    fun found later => state.ledger.get? name = found ∧ state = later :=
  fun told => ⟨⟨told, List.suffix_rfl⟩, rfl, rfl⟩

/-- States that differ in neither events nor warnings. -/
theorem reports_set {next : RenderState} (events : next.events = state.events)
    (warnings : next.warnings = state.warnings) :
    Reports loader own fair (set next : Rendering PUnit) state fun _ later => next = later := by
  intro told
  have grows : Grows state next := ⟨[], events.symm⟩
  exact ⟨⟨told.grow grows warnings, grows⟩, rfl⟩

/-- Changes that neither events nor warnings show. -/
theorem reports_modify {change : RenderState → RenderState}
    (events : (change state).events = state.events)
    (warnings : (change state).warnings = state.warnings) :
    Reports loader own fair (modify change : Rendering PUnit) state
      fun _ later => change state = later :=
  @reports_set loader own fair state (change state) events warnings

theorem reports_note (event : Event) :
    Reports loader own fair (note event) state fun _ later => state.noted event = later :=
  fun told => ⟨⟨told.grow (grows_noted state event) rfl, grows_noted state event⟩, rfl⟩

theorem reports_warn {warning : Warning} (known : Known own state.events warning.offset) :
    Reports loader own fair (warn warning) state fun _ _ => True := by
  intro told
  have listed : ∀ other ∈ [warning], Known own state.events other.offset ∨
      HandedOver loader state.events other := by
    intro other member
    rw [List.mem_singleton.1 member]
    exact .inl known
  exact ⟨⟨told.warn List.suffix_rfl [warning] rfl listed, List.suffix_rfl⟩, trivial⟩

theorem reports_forM {items : List β} {part : β → Rendering PUnit}
    (each : ∀ item ∈ items, ∀ later, Grows state later →
      Reports loader own fair (part item) later fun _ _ => True) :
    Reports loader own fair (items.forM part) state fun _ _ => True := by
  induction items generalizing state with
  | nil => exact reports_pure trivial
  | cons item rest ih =>
    change Reports loader own fair (part item >>= fun _ => rest.forM part) state _
    refine (each item (List.mem_cons_self ..) state List.suffix_rfl).bind fun _ later grows _ => ?_
    exact ih fun other member after grown =>
      each other (List.mem_cons_of_mem _ member) after (grows.trans grown)

theorem reports_foldlM {items : List β} {part : α → β → Rendering α}
    (each : ∀ value, ∀ item ∈ items, ∀ later, Grows state later →
      Reports loader own fair (part value item) later fun _ _ => True) (start : α) :
    Reports loader own fair (items.foldlM part start) state fun _ _ => True := by
  induction items generalizing state start with
  | nil => exact reports_pure trivial
  | cons item rest ih =>
    rw [List.foldlM_cons]
    refine (each start item (List.mem_cons_self ..) state List.suffix_rfl).bind
      fun value later grows _ => ?_
    exact ih (fun other entry member after grown =>
      each other entry (List.mem_cons_of_mem _ member) after (grows.trans grown)) value

end Rules

/-! ## Forks and references -/

/-- Choices are reported about if all of their places are known. -/
def Telling (loader : Loader) (own : List Nat) (nested : Choice → Rendering String) : Prop :=
  ∀ choice state, (∀ offset ∈ choice.places, Known own state.events offset) →
    Reports loader own (Blames own) (nested choice) state fun _ _ => True

section Steps

variable {loader : Loader} {own : List Nat} {state : RenderState}

/-- An error at a place that is known. -/
theorem blames_of_known {error : RenderError} {place : Nat} (here : error.offset? = some place)
    (known : Known own state.events place) : Blames own error state := by
  intro offset same
  rw [here, Option.some.injEq] at same
  subst same
  exact .inl known

/-- An error without an offset. -/
theorem blames_of_none {error : RenderError} (none : error.offset? = none) :
    Blames own error state := by
  intro offset same
  rw [none] at same
  cases same

theorem reports_checkUnique (name : String) {offset : Nat}
    (known : Known own state.events offset) :
    Reports loader own (Blames own) (checkUnique name (.declared offset) offset) state
      fun _ later => state = later := by
  unfold checkUnique
  refine (reports_recorded name).bind ?_
  rintro found _ - ⟨-, rfl⟩
  split
  · split
    · exact reports_pure rfl
    · exact reports_throw (blames_of_known rfl known)
  · exact reports_pure rfl

/-- A draw that fails blames the fork that was tried; one that does not is an event. -/
theorem reports_draw {name : Option String} {live : LiveFork} (isTried : tried state = some live) :
    Reports loader own (Blames own) (draw name live) state fun drawn later =>
      drawn.1.fork = live.fork ∧
        ∀ offset ∈ (Node.fork live.fork).places, Known own later.events offset := by
  unfold draw
  refine reports_get.bind ?_
  rintro _ _ - ⟨rfl, rfl⟩
  rcases live.deck.draw Generator.below state.generator with ⟨drawn, deck, generator⟩
  simp only
  refine (reports_set ?_ ?_).bind ?_
  case refine_1 => rfl
  case refine_2 => rfl
  rintro _ _ - rfl
  cases drawn with
  | none => exact reports_throw fun _ _ => .inr ⟨live, isTried, rfl⟩
  | some drawn =>
    refine (reports_note (.drew name live drawn)).bind ?_
    rintro _ _ - rfl
    have known : ∀ events : List Event, .drew name live drawn ∈ events →
        ∀ offset ∈ (Node.fork live.fork).places, Known own events offset :=
      fun events drew offset place => .inr ⟨name, live, drawn, drew, place⟩
    split
    · refine (reports_warn (known _ (List.mem_cons_self ..) _ (Fork.start_mem_places _))).bind ?_
      intro _ later grows _
      exact reports_pure ⟨rfl, known _ (grows.subset (List.mem_cons_self ..))⟩
    · exact reports_pure ⟨rfl, known _ (List.mem_cons_self ..)⟩

variable {nested : Choice → Rendering String} (telling : Telling loader own nested)
include telling

theorem reports_execute {name : Option String} {live : LiveFork}
    (isTried : tried state = some live) :
    Reports loader own (Blames own) (execute nested name live) state fun _ _ => True := by
  unfold execute
  refine (reports_draw isTried).bind ?_
  rintro ⟨drawn, index⟩ later - ⟨same, known⟩
  have branch : Reports loader own (Blames own) (renderBranch nested drawn.fork index) later
      fun _ _ => True := by
    unfold renderBranch
    split
    · rename_i branch found
      refine telling _ _ fun offset place => known offset ?_
      rw [← same]
      exact Fork.places_of_branch (List.mem_of_getElem? found) place
    · exact reports_pure trivial
  refine branch.bind fun rendered after _ _ => ?_
  exact (reports_note _).bind fun _ _ _ _ => reports_pure trivial

theorem reports_renderFork {fork : Fork}
    (known : ∀ offset ∈ (Node.fork fork).places, Known own state.events offset) :
    Reports loader own (Blames own) (renderFork nested fork) state fun _ _ => True := by
  have reached : Reports loader own (Blames own) (reach fork) state
      fun _ later => state.noted (.reached fork) = later := by
    unfold reach
    refine (reports_note (.reached fork)).bind ?_
    rintro _ _ - rfl
    split
    · exact reports_checkUnique _
        ((known _ (Fork.start_mem_places _)).grow (grows_noted state (.reached fork)))
    · exact reports_pure rfl
  unfold renderFork
  refine reached.bind ?_
  rintro _ _ - rfl
  split
  · refine (reports_modify ?_ ?_).bind fun _ _ _ _ => reports_pure trivial
    · exact RenderState.registering_events _ _
    · exact RenderState.registering_warnings _ _
  · refine reports_get.bind ?_
    rintro _ _ - ⟨rfl, rfl⟩
    refine (reports_execute telling rfl).bind ?_
    rintro ⟨live, index, rendered⟩ later - -
    refine (reports_modify ?_ ?_).bind fun _ _ _ _ => reports_pure trivial
    · exact RenderState.keeping_events ..
    · exact RenderState.keeping_warnings ..

theorem reports_branchOf {reference : Reference} {target : Record}
    (isTried : tried state = some target.live) :
    Reports loader own (Blames own) (branchOf nested reference target) state fun _ _ => True := by
  unfold branchOf
  split
  · exact reports_pure trivial
  · refine (reports_execute telling isTried).bind ?_
    rintro ⟨live, index, rendered⟩ later - -
    exact (reports_modify rfl rfl).bind fun _ _ _ _ => reports_pure trivial

theorem reports_answer {reference : Reference} (index : Nat) (rendered : String)
    (known : ∀ offset ∈ (Node.reference reference).places, Known own state.events offset) :
    Reports loader own (Blames own) (answer nested reference index rendered) state
      fun _ _ => True := by
  unfold answer
  split
  · exact reports_pure trivial
  · split
    · rename_i choice found
      refine (reports_note _).bind ?_
      rintro _ _ grows -
      refine telling _ _ fun offset place => (known offset ?_).grow grows
      exact Reference.places_of_choice (Reference.mem_choices_of_answer? found) place
    · exact (reports_warn (known _ (Reference.start_mem_places _))).bind
        fun _ _ _ _ => reports_pure trivial

theorem reports_answerAbsent {reference : Reference}
    (known : ∀ offset ∈ (Node.reference reference).places, Known own state.events offset) :
    Reports loader own (Blames own) (answerAbsent nested reference) state fun _ _ => True := by
  unfold answerAbsent
  refine (reports_note _).bind ?_
  rintro _ later grows -
  have start := (known _ (Reference.start_mem_places _)).grow grows
  split
  · exact reports_throw (blames_of_known rfl start)
  · split
    · rename_i choice found
      refine telling _ _ fun offset place => (known offset ?_).grow grows
      exact Reference.places_of_choice (Reference.mem_choices_of_fallback found) place
    · exact (reports_warn start).bind fun _ _ _ _ => reports_pure trivial

theorem reports_renderReference {reference : Reference}
    (known : ∀ offset ∈ (Node.reference reference).places, Known own state.events offset) :
    Reports loader own (Blames own) (renderReference nested reference) state fun _ _ => True := by
  unfold renderReference
  refine (reports_note (.referred reference)).bind ?_
  rintro _ _ grows rfl
  have noted : ∀ offset ∈ (Node.reference reference).places,
      Known own (state.noted (.referred reference)).events offset :=
    fun offset place => (known offset place).grow grows
  refine (reports_recorded reference.target).bind ?_
  rintro found _ - ⟨isFound, rfl⟩
  cases found with
  | none => exact reports_answerAbsent telling noted
  | some target =>
    have isTried : tried (state.noted (.referred reference)) = some target.live := by
      change (Table.get? _ _).map _ = _
      rw [isFound]
      rfl
    refine (reports_branchOf telling isTried).bind ?_
    rintro ⟨live, index, rendered⟩ later grows -
    refine (reports_answer telling index rendered
      fun offset place => (noted offset place).grow grows).bind ?_
    intro output after grown _
    have named : Reports loader own (Blames own) (nameOutcome reference live index output) after
        fun _ _ => True := by
      unfold nameOutcome
      split
      · refine (reports_checkUnique _
          ((noted _ (Reference.start_mem_places _)).grow (grows.trans grown))).bind ?_
        rintro _ _ - rfl
        exact (reports_modify rfl rfl).bind fun _ _ _ _ => reports_pure trivial
      · exact reports_pure trivial
    exact named.bind fun _ _ _ _ => reports_pure trivial

/-- Sequences of nodes all of whose places are known. -/
theorem reports_renderNodes {nodes : List Node} (startsLine : Bool)
    (known : ∀ offset ∈ (Choice.nodes nodes).places, Known own state.events offset) :
    Reports loader own (Blames own) (renderNodes nested nodes startsLine) state
      fun _ _ => True := by
  have places : ∀ node ∈ nodes, ∀ offset ∈ node.places,
      offset ∈ (Choice.nodes nodes).places := by
    intro node member offset place
    obtain ⟨inner, within, listed⟩ := Node.mem_places.1 place
    exact Choice.mem_places_nodes.2 ⟨inner, within_subset_of_mem member within, listed⟩
  refine (reports_foldlM (fun line node member later grows => ?_) _).bind
    fun _ _ _ _ => reports_pure trivial
  have here : ∀ offset ∈ node.places, Known own later.events offset :=
    fun offset place => (known offset (places node member offset place)).grow grows
  cases node with
  | text content => exact reports_pure trivial
  | fork fork =>
    exact (reports_renderFork telling here).bind fun _ _ _ _ => reports_pure trivial
  | reference reference =>
    exact (reports_renderReference telling here).bind fun _ _ _ _ => reports_pure trivial

end Steps

/-! ## Scripts -/

/-- Documents that are fetched hand their warnings over, and fail with errors without an offset. -/
def Handing (loader : Loader) (own : List Nat) (fetch : String → Rendering Included) : Prop :=
  ∀ path state, Reports loader own (fun error _ => error.offset? = none) (fetch path) state
    fun included later => ∀ warning ∈ included.warnings, HandedOver loader later.events warning

/-- The warnings of all documents among the effects were handed over. -/
def AllHanded (loader : Loader) (effects : List Effect) (events : List Event) : Prop :=
  ∀ document ∈ Effect.documents effects, ∀ warning ∈ document.warnings,
    HandedOver loader events warning

/-- What a running script has gathered so far, in the state that it has led to. -/
structure Hosted (loader : Loader) (own : List Nat) (gathered : Gathered) (state : RenderState) :
    Prop where
  told : Told loader own state
  handed : AllHanded loader gathered.effects state.events
  failure : ∀ error, gathered.failure = some error → error.offset? = none

section Scripts

variable {loader : Loader} {own : List Nat} {state : RenderState}
  {fetch : String → Rendering Included} (handing : Handing loader own fetch)

theorem AllHanded.grow {effects : List Effect} {events later : List Event}
    (all : AllHanded loader effects events) (grows : events <:+ later) :
    AllHanded loader effects later :=
  fun document member warning warned => (all document member warning warned).grow grows

/-- An effect that is no document. -/
theorem Hosted.gather {gathered : Gathered} (hosted : Hosted loader own gathered state)
    {effect : Effect} (none : Effect.documents [effect] = []) :
    Hosted loader own { gathered with effects := gathered.effects ++ [effect] } state where
  told := hosted.told
  handed := by
    rw [AllHanded, Course.documents_append, none, List.append_nil]
    exact hosted.handed
  failure := hosted.failure

include handing

/-- Answering a request keeps what is gathered in order. -/
theorem hosted_answer (session : Nat) (request : Script.Request) {gathered : Gathered}
    (hosted : Hosted loader own gathered state) :
    let outcome := ((Hosting.answer fetch session request).run gathered).run state
    Hosted loader own outcome.1.2 outcome.2 ∧ Grows state outcome.2 := by
  have drew : ∀ generator, Hosted loader own gathered { state with generator := generator } :=
    fun _ => ⟨hosted.told, hosted.handed, hosted.failure⟩
  cases request with
  | fraction => exact ⟨drew _, List.suffix_rfl⟩
  | below high => exact ⟨drew _, List.suffix_rfl⟩
  | integer low high => exact ⟨drew _, List.suffix_rfl⟩
  | keep registration =>
    cases registration with
    | function name callable => exact ⟨hosted.gather rfl, List.suffix_rfl⟩
    | value name text => exact ⟨hosted.gather rfl, List.suffix_rfl⟩
    | settings layer => exact ⟨hosted.gather rfl, List.suffix_rfl⟩
  | document path =>
    obtain ⟨⟨told, grows⟩, fetched⟩ := handing path state hosted.told
    have same : (fetch path).run.run state = (fetch path).run state := rfl
    simp only [Hosting.answer, StateT.run_bind, StateT.run_lift, same]
    generalize (fetch path).run state = outcome at told grows fetched
    obtain ⟨error | document, later⟩ := outcome
    · refine ⟨⟨told, hosted.handed.grow grows, fun other same => ?_⟩, grows⟩
      cases same
      exact fetched
    · refine ⟨⟨told, fun other member => ?_, hosted.failure⟩, grows⟩
      change other ∈ Effect.documents (gathered.effects ++ [.included document]) at member
      rw [Course.documents_append] at member
      rcases List.mem_append.1 member with earlier | here
      · exact hosted.handed.grow grows other earlier
      · rw [List.mem_singleton.1 here]
        exact fetched

theorem hosted_run (session : Nat) (script : Script.Exchange α) {gathered : Gathered}
    (hosted : Hosted loader own gathered state) :
    let outcome := ((script.run (Hosting.answer fetch session)).run gathered).run state
    Hosted loader own outcome.1.2 outcome.2 ∧ Grows state outcome.2 := by
  induction script generalizing gathered state with
  | done value => exact ⟨hosted, List.suffix_rfl⟩
  | ask request resume ih =>
    obtain ⟨answered, grows⟩ := hosted_answer handing session request hosted
    obtain ⟨finished, grown⟩ := ih
      (((Hosting.answer fetch session request).run gathered).run state).1.1 answered
    exact ⟨finished, grows.trans grown⟩

/-- A script fails with errors without an offset, if an include failed, or leaves documents whose
warnings were handed over. -/
theorem reports_host (session : Nat) (script : Script.Exchange α) :
    Reports loader own (Blames own) (host fetch session script) state fun outcome later =>
      match outcome.2 with
      | .ok effects => AllHanded loader effects later.events
      | .error error => error.offset? = none := by
  intro told
  have start : Hosted loader own ⟨[], none⟩ state :=
    ⟨told, fun _ member => absurd member List.not_mem_nil, fun _ same => nomatch same⟩
  obtain ⟨hosted, grows⟩ := hosted_run handing session script start
  let outcome := ((script.run (Hosting.answer fetch session)).run ⟨[], .none⟩).run state
  have lifted : (ExceptT.lift ((script.run (Hosting.answer fetch session)).run ⟨[], .none⟩) :
      Rendering (α × Gathered)).run state = (.ok outcome.1, outcome.2) := rfl
  unfold host
  rw [run_bind, lifted]
  cases failure : outcome.1.2.failure with
  | some error =>
    simp only [failure]
    exact ⟨⟨hosted.told, grows⟩, hosted.failure error failure⟩
  | none =>
    simp only [failure]
    exact ⟨⟨hosted.told, grows⟩, hosted.handed⟩

omit handing in
/-- Taking over a document whose warnings were handed over. -/
theorem reports_merge {included : Included}
    (handed : ∀ warning ∈ included.warnings, HandedOver loader state.events warning) :
    Reports loader own (Blames own) (merge included) state fun _ _ => True := by
  intro told
  have grows : Grows state (mergedState included state) := List.suffix_cons ..
  refine ⟨⟨told.warn grows included.warnings rfl ?_, grows⟩, trivial⟩
  exact fun warning member => .inr ((handed warning member).grow grows)

omit handing in
theorem reports_absorb {effects : List Effect} {offset : Nat}
    (handed : AllHanded loader effects state.events) (known : Known own state.events offset) :
    Reports loader own (Blames own) (absorb effects offset) state fun _ _ => True := by
  unfold absorb
  refine (reports_forM fun document member later grows =>
    reports_merge fun warning warned => (handed document member warning warned).grow grows).bind ?_
  intro _ merged grows _
  refine (reports_modify rfl rfl).bind ?_
  rintro _ _ grown -
  cases Effect.layer? effects with
  | none => exact reports_pure trivial
  | some layer =>
    have settled : ∀ after, Reports loader own (Blames own) (modify fun state =>
        { state with settings := state.settings.withOver layer }) after fun _ _ => True :=
      fun after => (reports_modify rfl rfl).imp fun _ _ _ => trivial
    simp only
    split
    · split
      · exact (reports_warn (known.grow (grows.trans grown))).bind fun _ _ _ _ => settled _
      · exact settled _
    · exact settled _

omit handing in
/-- A script block without effect is warned of where it stands. -/
theorem offset_of_idle {source output : String} {included offset : Nat} {warning : Warning}
    (idle : ScriptBlock.idleWarning? source output included offset = some warning) :
    warning.offset = offset := by
  unfold ScriptBlock.idleWarning? at idle
  split at idle
  · cases idle
  · cases idle
    rfl

theorem reports_runScript (setting : Setting) {block : ScriptBlock}
    (known : Known own state.events block.span.start) :
    Reports loader own (Blames own) (runScript fetch setting block) state fun _ _ => True := by
  unfold runScript
  refine (reports_note _).bind ?_
  rintro _ noted grows -
  have known := known.grow grows
  simp only
  split
  · have disabled : Reports loader own (Blames own)
        (throw (.scriptsDisabled block.span.start) : Rendering PUnit) noted fun _ _ => False :=
      reports_throw (blames_of_known rfl known)
    exact disabled.bind fun _ _ _ never => never.elim
  refine (reports_forM fun warning member later grown => reports_warn ?_).bind ?_
  · obtain ⟨marker, -, rfl⟩ := List.mem_map.1 member
    exact known.grow grown
  intro _ warned grown _
  have known := known.grow grown
  cases Script.Program.read? block.source with
  | none => exact reports_throw (blames_of_known rfl known)
  | some program =>
    refine reports_get.bind ?_
    rintro _ _ - ⟨rfl, rfl⟩
    refine (reports_host handing _ program.run).bind ?_
    rintro ⟨⟨result, session⟩, effects⟩ hosted grown outcome
    have known := known.grow grown
    cases effects with
    | error error => exact reports_throw (blames_of_none outcome)
    | ok effects =>
      cases result with
      | error raised => exact reports_throw (blames_of_known rfl known)
      | ok output =>
        refine (reports_forM fun warning member later grown => reports_warn ?_).bind ?_
        · rw [offset_of_idle (Option.mem_toList.1 member)]
          exact known.grow grown
        · intro _ idle grown _
          refine (reports_modify rfl rfl).bind ?_
          rintro _ pushed more -
          have later := grown.trans more
          exact (reports_absorb (AllHanded.grow outcome later) (known.grow later)).bind
            fun _ _ _ _ => reports_pure trivial

theorem reports_runCall {call : FunctionCall} (known : Known own state.events call.span.start) :
    Reports loader own (Blames own) (runCall fetch call) state fun _ _ => True := by
  unfold runCall
  refine (reports_note _).bind ?_
  rintro _ noted grows -
  have known := known.grow grows
  refine reports_get.bind ?_
  rintro _ _ - ⟨rfl, rfl⟩
  split
  · exact reports_throw (blames_of_known rfl known)
  · exact reports_throw (blames_of_known rfl known)
  · refine (reports_host handing _ _).bind ?_
    rintro ⟨⟨result, session⟩, effects⟩ hosted grown outcome
    refine (reports_modify rfl rfl).bind ?_
    rintro _ kept more -
    have known := known.grow (grown.trans more)
    cases effects with
    | error error => exact reports_throw (blames_of_none outcome)
    | ok effects =>
      cases result with
      | error raised => exact reports_throw (blames_of_known rfl known)
      | ok output => exact reports_pure trivial

end Scripts

/-! ## Whole renders -/

section Documents

variable {loader : Loader} {own : List Nat}

/-- The events and warnings of an included document are its own until it is merged. -/
theorem handing_renderIncluded {depth : Nat} {setting : Setting}
    (sameLoader : setting.loader = loader) :
    Handing loader own (renderIncluded
      (fun inner nodes => renderNodes (choice depth inner) nodes true) setting) := by
  intro path state
  unfold renderIncluded
  refine (reports_note _).bind ?_
  rintro _ noted - -
  simp only
  cases loaded : setting.loader (Path.join setting.directory path) with
  | error error => exact reports_throw rfl
  | ok text =>
    simp only
    cases read : Document.read text.toList with
    | error error => exact reports_throw rfl
    | ok document =>
      refine reports_get.bind ?_
      rintro _ _ - ⟨rfl, rfl⟩
      generalize ran : (renderWhole _ document).run (.initial noted.generator) = outcome
      refine (reports_note _).bind ?_
      rintro _ _ - rfl
      obtain ⟨error | rendered, after⟩ := outcome
      · exact reports_throw rfl
      · refine reports_pure fun warning warned => ?_
        exact ⟨_, text, document, sameLoader ▸ loaded, read, depth,
          { setting with
            directory := (Path.parent? (Path.join setting.directory path)).getD setting.directory },
          _, _, sameLoader, ran.symm, List.mem_cons_self .., warned⟩

/-- Choices tell what they report about at every depth. -/
theorem telling_choice (depth : Nat) {setting : Setting} (sameLoader : setting.loader = loader) :
    Telling loader own (choice depth setting) := by
  induction depth with
  | zero => exact fun choice state known => reports_throw (blames_of_none rfl)
  | succ depth ih =>
    intro choice state known
    cases choice with
    | nodes nodes => exact reports_renderNodes ih false known
    | script block =>
      exact reports_runScript (handing_renderIncluded sameLoader) setting
        (known _ (List.mem_cons_self ..))
    | call call =>
      exact reports_runCall (handing_renderIncluded sameLoader) (known _ (List.mem_cons_self ..))

/-- A render of a document reports about its own places, about forks that it draws from, and what
included documents hand over. -/
theorem reports_document (setting : Setting) (document : Document) (state : RenderState) :
    Reports setting.loader document.places (Blames document.places)
      (Rendering.document setting document) state fun _ _ => True := by
  have nodes : ∀ later, Reports setting.loader document.places (Blames document.places)
      (Rendering.nodes setting document.nodes) later fun _ _ => True :=
    fun later => reports_renderNodes (telling_choice depthLimit rfl) true fun offset place =>
      .inl (List.mem_cons_of_mem _ (List.mem_append_left _ place))
  have mode : (document.modes.head?.map (·.span.start)).getD 0 ∈ document.places := by
    unfold Document.places
    cases document.modes with
    | nil => exact List.mem_cons_self ..
    | cons mode rest =>
      exact List.mem_cons_of_mem _ (List.mem_append_right _ (List.mem_cons_self ..))
  unfold Rendering.document renderWhole
  split
  · exact (reports_warn (.inl mode)).bind fun _ later _ _ => nodes later
  · exact nodes state

end Documents

/-! ## Positions in the rendered document -/

/-- Every fork that the render drew from is the document's own, and so is the one that it failed to
draw from. -/
structure DrawsOwn (document : Document) (outcome : Except RenderError String × RenderState) :
    Prop where
  drawn : ∀ name live draw, .drew name live draw ∈ outcome.2.events →
    .fork live.fork ∈ nodesWithin document.nodes
  failed : ∀ offset live, outcome.1 = .error (.noChoice offset) → tried outcome.2 = some live →
    .fork live.fork ∈ nodesWithin document.nodes

theorem DrawsOwn.places {document : Document}
    {outcome : Except RenderError String × RenderState} (own : DrawsOwn document outcome)
    {offset : Nat} (known : Known document.places outcome.2.events offset) :
    offset ∈ document.places := by
  rcases known with here | ⟨name, live, draw, drew, place⟩
  · exact here
  · exact Document.places_of_within (own.drawn name live draw drew) place

/-- Whether a branch was drawn in an event. -/
def isDraw : Event → Bool
  | .drew .. => true
  | _ => false

/-- A library that warns of a name, far behind its start. -/
def warningLibrary : Loader :=
  .ofDocuments [("./lib.txt", "A library that is longer than the document. \x7b@Y\x7d")]

/-- References to names that are not declared, one of which includes the library instead. -/
def asking : Document :=
  ⟨[.reference ⟨"X", none, false, [], some (.script ⟨"include(\"lib.txt\")", ⟨5, 25⟩⟩), false,
      ⟨0, 26⟩⟩,
    .reference ⟨"Z", none, false, [], none, false, ⟨26, 30⟩⟩], [], []⟩

/-- The source of the document. -/
def askingText : String := "\x7b@X: [include(\"lib.txt\")]\x7d\x7b@Z\x7d"

/-- How its render ends. -/
def endOfAsking : Except RenderError String × RenderState :=
  (Rendering.source (RenderSettings.default.setting warningLibrary) askingText).run
    (.initial (.ofSeed 1))

theorem read_asking : Document.read askingText.toList = .ok asking := by
  with_unfolding_all exact rfl

end Rendering

end BranchText
