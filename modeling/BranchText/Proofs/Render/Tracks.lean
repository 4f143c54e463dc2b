import BranchText.Proofs.Render.Steps

/-!
# Tracking a whole render

A motion that the steps of forks, references and includes respect is respected by whole renders,
scripts and calls included. `Course` lists what has to be shown of the steps, and
`Course.follows_choice` is the induction over the nesting of choices. `Track` is for motions that
say nothing of included documents.
-/

namespace BranchText

namespace Rendering

variable {α β : Type}

/-- A choice all of whose nodes are allowed. -/
def AllowedChoice (allowed : Node → Prop) : Choice → Prop
  | .nodes nodes => ∀ node ∈ nodes, allowed node
  | .script _ => True
  | .call _ => True

theorem allowedChoice_of_forall {allowed : Node → Prop} (all : ∀ node, allowed node)
    (choice : Choice) : AllowedChoice allowed choice := by
  cases choice with
  | nodes nodes => exact fun node _ => all node
  | script block => trivial
  | call call => trivial

/-- The state after a document has been taken over. -/
def mergedState (included : Included) (state : RenderState) : RenderState :=
  { state with
    ledger := state.ledger.extend
      (included.ledger.map fun entry => { entry with origin := .imported }).entries
    functions := state.functions.extend
      (included.functions.map (·.shift state.sessions.size)).entries
    sessions := state.sessions ++ included.sessions
    settings := state.settings.withOver included.settings
    warnings := state.warnings ++ included.warnings
    events := .merged included.path included.ledger :: state.events }

/-- Asking a render for a document notes that its path was asked for. -/
theorem loaded_of_renderIncluded (child : Setting → List Node → Rendering String)
    (setting : Setting) (path : String) (state : RenderState) :
    Loaded ((renderIncluded child setting path).run state).2.events := by
  have always := @ensures_always _ state (renderIncluded child setting path)
    fun later => Loaded later.events
  rw [← always]
  unfold renderIncluded
  simp only [ensures_bind, ensures_note]
  cases setting.loader (Path.join setting.directory path) with
  | error error => exact ⟨_, List.mem_cons_self ..⟩
  | ok text =>
    simp only
    split
    · exact ⟨_, List.mem_cons_self ..⟩
    · simp only [ensures_bind, ensures_get, ensures_note]
      split
      · exact ⟨_, List.mem_cons_of_mem _ (List.mem_cons_self ..)⟩
      · exact ⟨_, List.mem_cons_of_mem _ (List.mem_cons_self ..)⟩

/-- What has to be shown of the steps of renders that reach allowed nodes only. Of the rendering
of choices in general, allowed or not, the steps can use what is `known`. Documents that were
`brought` by an include stay so, and are all that is merged. -/
structure Course (known : (Choice → Rendering String) → Prop) (allowed : Node → Prop)
    (brought : Included → List Event → Prop) (moves fails : RenderState → RenderState → Prop) :
    Prop extends Motion moves fails where
  fork : ∀ (nested : Choice → Rendering String) (fork : Fork), known nested →
    allowed (.fork fork) →
    (∀ choice, AllowedChoice allowed choice → Follows moves fails (nested choice)) →
      Follows moves fails (renderFork nested fork)
  reference : ∀ (nested : Choice → Rendering String) (reference : Reference), known nested →
    allowed (.reference reference) →
    (∀ choice, AllowedChoice allowed choice → Follows moves fails (nested choice)) →
      Follows moves fails (renderReference nested reference)
  lasts : ∀ {included events later}, brought included events → events <:+ later →
    brought included later
  includes : ∀ (child : Setting → List Node → Rendering String),
    (∀ setting nodes, (∀ node ∈ nodes, allowed node) → Follows moves fails (child setting nodes)) →
      ∀ setting path state, Ensures (renderIncluded child setting path) state
        (fun included later => moves state later ∧ brought included later.events) (moves state)
  merges : ∀ included state, brought included state.events → moves state (mergedState included state)

namespace Course

variable {known : (Choice → Rendering String) → Prop} {allowed : Node → Prop}
  {brought : Included → List Event → Prop} {moves fails : RenderState → RenderState → Prop}

section Parts

variable (course : Course known allowed brought moves fails)
include course

/-- A sequence of allowed nodes is tracked if forks and references are. -/
theorem follows_renderNodes {nested : Choice → Rendering String} (isKnown : known nested)
    (inner : ∀ choice, AllowedChoice allowed choice → Follows moves fails (nested choice))
    (nodes : List Node) (startsLine : Bool) (within : ∀ node ∈ nodes, allowed node) :
    Follows moves fails (renderNodes nested nodes startsLine) :=
  course.toMotion.follows_renderNodes
    (fun fork member => course.fork nested fork isKnown (within _ member) inner)
    (fun reference member => course.reference nested reference isKnown (within _ member) inner)
    startsLine

/-! ## Scripts -/

/-- What fetching a document does to the render that asks for it. -/
def Fetching (brought : Included → List Event → Prop) (moves : RenderState → RenderState → Prop)
    (fetch : String → Rendering Included) : Prop :=
  ∀ path state, Ensures (fetch path) state
    (fun included later => moves state later ∧ brought included later.events) (moves state)

/-- Every document among the effects was brought by an include. -/
def AllBrought (brought : Included → List Event → Prop) (effects : List Effect)
    (events : List Event) : Prop :=
  ∀ document ∈ Effect.documents effects, brought document events

omit course in
theorem documents_append (front back : List Effect) :
    Effect.documents (front ++ back) = Effect.documents front ++ Effect.documents back :=
  List.filterMap_append

theorem AllBrought.lasts {effects : List Effect} {events later : List Event}
    (all : AllBrought brought effects events) (grows : events <:+ later) :
    AllBrought brought effects later :=
  fun document member => course.lasts (all document member) grows

variable {fetch : String → Rendering Included} (fetches : Fetching brought moves fetch)
include fetches

/-- What a request of a script does to the render that answers it. -/
theorem answer_moves (session : Nat) (request : Script.Request) (gathered : Gathered)
    (state : RenderState) :
    let outcome := ((Hosting.answer fetch session request).run gathered).run state
    moves state outcome.2 ∧
      (AllBrought brought gathered.effects state.events →
        AllBrought brought outcome.1.2.effects outcome.2.events) := by
  have drew : ∀ generator, moves state { state with generator := generator } :=
    fun generator => course.unseen ⟨rfl, rfl, rfl⟩
  have kept : ∀ effect, Effect.documents [effect] = [] →
      AllBrought brought gathered.effects state.events →
        AllBrought brought (gathered.effects ++ [effect]) state.events := by
    intro effect none all
    rw [AllBrought, documents_append, none, List.append_nil]
    exact all
  cases request with
  | fraction => exact ⟨drew _, id⟩
  | below high => exact ⟨drew _, id⟩
  | integer low high => exact ⟨drew _, id⟩
  | keep registration =>
    cases registration with
    | function name callable => exact ⟨course.same state, kept _ rfl⟩
    | value name text => exact ⟨course.same state, kept _ rfl⟩
    | settings layer => exact ⟨course.same state, kept _ rfl⟩
  | document path =>
    have fetched := fetches path state
    have same : (fetch path).run.run state = (fetch path).run state := rfl
    unfold Ensures at fetched
    simp only [Hosting.answer, StateT.run_bind, StateT.run_lift, same]
    generalize (fetch path).run state = outcome at fetched
    obtain ⟨error | document, later⟩ := outcome
    · have moved : moves state later := fetched
      exact ⟨moved, fun all => AllBrought.lasts course all (course.grows moved)⟩
    · refine ⟨fetched.1, fun all other member => ?_⟩
      change other ∈ Effect.documents (gathered.effects ++ [.included document]) at member
      rw [documents_append] at member
      rcases List.mem_append.1 member with earlier | here
      · exact course.lasts (all other earlier) (course.grows fetched.1)
      · rw [List.mem_singleton.1 here]
        exact fetched.2

/-- What a script does to the render it runs against. -/
theorem run_moves (session : Nat) (script : Script.Exchange α) (gathered : Gathered)
    (state : RenderState) :
    let outcome := ((script.run (Hosting.answer fetch session)).run gathered).run state
    moves state outcome.2 ∧
      (AllBrought brought gathered.effects state.events →
        AllBrought brought outcome.1.2.effects outcome.2.events) := by
  induction script generalizing gathered state with
  | done value => exact ⟨course.same state, id⟩
  | ask request resume ih =>
    obtain ⟨answered, keeps⟩ := course.answer_moves fetches session request gathered state
    have next := ih
      (((Hosting.answer fetch session request).run gathered).run state).1.1
      (((Hosting.answer fetch session request).run gathered).run state).1.2
      (((Hosting.answer fetch session request).run gathered).run state).2
    exact ⟨course.trans answered next.1, fun all => next.2 (keeps all)⟩

/-- A script that runs against a render never fails by itself, and every document it leaves was
brought by an include. -/
theorem ensures_host (session : Nat) (script : Script.Exchange α) {state later : RenderState}
    (moved : moves state later) (failing : RenderState → Prop) :
    Ensures (host fetch session script) later (fun outcome after => moves state after ∧
      ∀ effects, outcome.2 = .ok effects → AllBrought brought effects after.events) failing := by
  obtain ⟨ran, keeps⟩ := course.run_moves fetches session script ⟨[], none⟩ later
  have none : AllBrought brought (⟨[], none⟩ : Gathered).effects later.events :=
    fun _ member => absurd member List.not_mem_nil
  let outcome := ((script.run (Hosting.answer fetch session)).run ⟨[], .none⟩).run later
  have lifted : (ExceptT.lift ((script.run (Hosting.answer fetch session)).run ⟨[], .none⟩) :
      Rendering (α × Gathered)).run later = (.ok outcome.1, outcome.2) := rfl
  unfold host
  rw [ensures_bind, ensures_of_run_ok lifted]
  cases failure : outcome.1.2.failure with
  | some error =>
    simp only [failure]
    exact ⟨course.trans moved ran, fun effects same => by cases same⟩
  | none =>
    simp only [failure]
    refine ⟨course.trans moved ran, fun effects same => ?_⟩
    cases same
    exact keeps none

omit fetches in
/-- Taking over effects whose documents were brought by includes. -/
theorem ensures_absorb (effects : List Effect) (offset : Nat) {state later : RenderState}
    (moved : moves state later) (all : AllBrought brought effects later.events) :
    Ensures (absorb effects offset) later (fun _ after => moves state after) (fails state) := by
  have merged : ∀ (documents : List Included) {later : RenderState}, moves state later →
      (∀ document ∈ documents, brought document later.events) →
        Ensures (documents.forM merge) later (fun _ after => moves state after) (fails state) := by
    intro documents
    induction documents with
    | nil => exact fun moved _ => moved
    | cons included rest ih =>
      intro later moved all
      obtain ⟨here, behind⟩ := List.forall_mem_cons.1 all
      have step := course.merges included later here
      change Ensures (merge included >>= fun _ => rest.forM merge) later _ _
      rw [ensures_bind]
      exact ih (course.trans moved step) fun document member =>
        course.lasts (behind document member) (course.grows step)
  unfold absorb
  rw [ensures_bind]
  refine (merged _ moved all).imp (fun _ after moved => ?_) fun _ failed => failed
  refine course.ensures_of_moves (course.follows_bind ?_ fun _ => ?_) moved
  · exact course.follows_modify fun _ => ⟨rfl, rfl, rfl⟩
  · cases Effect.layer? effects with
    | none => exact course.follows_pure _
    | some layer =>
      have settled : Follows moves fails (modify fun state =>
          { state with settings := state.settings.withOver layer } : Rendering PUnit) :=
        course.follows_modify fun _ => ⟨rfl, rfl, rfl⟩
      simp only
      split
      · split
        · exact course.follows_bind (course.follows_warn _) fun _ => settled
        · exact settled
      · exact settled

/-- Script blocks are tracked. -/
theorem follows_runScript (setting : Setting) (block : ScriptBlock) :
    Follows moves fails (runScript fetch setting block) := by
  intro state
  unfold runScript
  simp only [ensures_bind, ensures_note]
  have noted := course.quiet state (.ran block)
  split
  · rw [ensures_bind]
    exact course.fails_of_moves noted
  · rw [ensures_bind]
    refine (course.ensures_of_moves (course.follows_forM _ fun _ _ => course.follows_warn _)
      noted).imp (fun _ later warned => ?_) fun _ failed => failed
    cases Script.Program.read? block.source with
    | none => exact course.fails_of_moves warned
    | some program =>
      simp only [ensures_bind, ensures_get]
      refine (course.ensures_host fetches _ program.run warned (fails state)).imp ?_
        fun _ failed => failed
      rintro ⟨⟨result, session⟩, effects⟩ after ⟨hosted, all⟩
      cases effects with
      | error error => exact course.fails_of_moves hosted
      | ok effects =>
        cases result with
        | error raised => exact course.fails_of_moves hosted
        | ok output =>
          simp only [ensures_bind, ensures_modify, ensures_pure]
          refine (course.ensures_of_moves (course.follows_forM _ fun _ _ => course.follows_warn _)
            (course.same _)).imp (fun _ idle warned => ?_)
            fun _ failed => course.fails_after hosted failed
          have pushed : moves after { idle with sessions := idle.sessions.push session } :=
            course.trans warned (course.unseen ⟨rfl, rfl, rfl⟩)
          have stillAll : AllBrought brought effects idle.events :=
            AllBrought.lasts course (all effects rfl) (course.grows warned)
          exact course.ensures_absorb effects _ (course.trans hosted pushed) stillAll

/-- Calls of provided functions are tracked. -/
theorem follows_runCall (call : FunctionCall) : Follows moves fails (runCall fetch call) := by
  intro state
  unfold runCall
  simp only [ensures_bind, ensures_note, ensures_get]
  have noted := course.quiet state (.called call)
  split
  · exact course.fails_of_moves noted
  · exact course.fails_of_moves noted
  · rename_i callable place found
    simp only [ensures_bind]
    refine (course.ensures_host fetches place _ noted (fails state)).imp ?_ fun _ failed => failed
    rintro ⟨⟨result, session⟩, effects⟩ after ⟨hosted, all⟩
    simp only [ensures_modify]
    have kept : moves state { after with sessions := after.sessions.setIfInBounds place session } :=
      course.trans hosted (course.unseen ⟨rfl, rfl, rfl⟩)
    cases effects with
    | error error => exact course.fails_of_moves kept
    | ok effects =>
      cases result with
      | error raised => exact course.fails_of_moves kept
      | ok output => exact kept

end Parts

/-! ## Whole renders -/

/-- Choices are tracked at every depth. -/
theorem follows_choice (course : Course known allowed brought moves fails)
    (isKnown : ∀ depth setting, known (Rendering.choice depth setting)) (depth : Nat)
    (setting : Setting) (choice : Choice) (within : AllowedChoice allowed choice) :
    Follows moves fails (Rendering.choice depth setting choice) := by
  induction depth generalizing setting choice with
  | zero => exact course.follows_throw _
  | succ depth ih =>
    have inner : ∀ setting choice, AllowedChoice allowed choice →
        Follows moves fails (Rendering.choice depth setting choice) := ih
    have fetches : Fetching brought moves (renderIncluded
        (fun inner nodes => renderNodes (Rendering.choice depth inner) nodes true) setting) :=
      course.includes _ (fun setting nodes within =>
        course.follows_renderNodes (isKnown depth setting) (inner setting) nodes true within) setting
    cases choice with
    | nodes nodes =>
      exact course.follows_renderNodes (isKnown depth setting) (inner setting) nodes false within
    | script block => exact course.follows_runScript fetches setting block
    | call call => exact course.follows_runCall fetches call

/-- So are the nodes of documents. -/
theorem follows_nodes (course : Course known allowed brought moves fails)
    (isKnown : ∀ depth setting, known (Rendering.choice depth setting)) (setting : Setting)
    (nodes : List Node) (within : ∀ node ∈ nodes, allowed node) :
    Follows moves fails (Rendering.nodes setting nodes) :=
  course.follows_renderNodes (isKnown depthLimit setting)
    (fun choice within => course.follows_choice isKnown depthLimit setting choice within) nodes true
    within

/-- Documents of allowed nodes are tracked. -/
theorem follows_document (course : Course known allowed brought moves fails)
    (isKnown : ∀ depth setting, known (Rendering.choice depth setting)) (setting : Setting)
    (document : Document) (within : ∀ node ∈ document.nodes, allowed node) :
    Follows moves fails (Rendering.document setting document) := by
  have rendered := course.follows_nodes isKnown setting document.nodes within
  unfold Rendering.document renderWhole
  split
  · exact course.follows_bind (course.follows_warn _) fun _ => rendered
  · exact rendered

/-- So are documents that are included on their own. -/
theorem follows_includeDocument (course : Course known allowed brought moves fails)
    (isKnown : ∀ depth setting, known (Rendering.choice depth setting)) (setting : Setting)
    (path : String) : Follows moves fails (includeDocument setting path) := by
  intro state
  have included := course.includes nodes
    (fun setting nodes within => course.follows_nodes isKnown setting nodes within) setting path
    state
  unfold includeDocument
  rw [ensures_bind]
  refine included.imp ?_ fun _ moved => course.fails_of_moves moved
  rintro document later ⟨moved, brings⟩
  exact course.trans moved (course.merges document later brings)

end Course

/-- What has to be shown of the steps of renders that reach allowed nodes only, if it says nothing
of what is merged once the text at some path was asked for. -/
structure Track (known : (Choice → Rendering String) → Prop) (allowed : Node → Prop)
    (moves fails : RenderState → RenderState → Prop) : Prop extends Motion moves fails where
  fork : ∀ (nested : Choice → Rendering String) (fork : Fork), known nested →
    allowed (.fork fork) →
    (∀ choice, AllowedChoice allowed choice → Follows moves fails (nested choice)) →
      Follows moves fails (renderFork nested fork)
  reference : ∀ (nested : Choice → Rendering String) (reference : Reference), known nested →
    allowed (.reference reference) →
    (∀ choice, AllowedChoice allowed choice → Follows moves fails (nested choice)) →
      Follows moves fails (renderReference nested reference)
  includes : ∀ (child : Setting → List Node → Rendering String),
    (∀ setting nodes, (∀ node ∈ nodes, allowed node) → Follows moves fails (child setting nodes)) →
      ∀ setting path state, moves state ((renderIncluded child setting path).run state).2
  merges : ∀ included state, Loaded state.events → moves state (mergedState included state)

namespace Track

variable {known : (Choice → Rendering String) → Prop} {allowed : Node → Prop}
  {moves fails : RenderState → RenderState → Prop} (track : Track known allowed moves fails)
include track

/-- Whatever is brought by an include was asked for. -/
theorem toCourse : Course known allowed (fun _ events => Loaded events) moves fails where
  toMotion := track.toMotion
  fork := track.fork
  reference := track.reference
  lasts := Loaded.grow
  includes child follows setting path state := by
    have moved := track.includes child follows setting path state
    have loaded := loaded_of_renderIncluded child setting path state
    unfold Ensures
    generalize (renderIncluded child setting path).run state = outcome at moved loaded
    obtain ⟨error | included, later⟩ := outcome
    · exact moved
    · exact ⟨moved, loaded⟩
  merges := track.merges

/-- Choices are tracked at every depth. -/
theorem follows_choice (isKnown : ∀ depth setting, known (Rendering.choice depth setting))
    (depth : Nat) (setting : Setting) (choice : Choice) (within : AllowedChoice allowed choice) :
    Follows moves fails (Rendering.choice depth setting choice) :=
  track.toCourse.follows_choice isKnown depth setting choice within

/-- Documents of allowed nodes are tracked. -/
theorem follows_document (isKnown : ∀ depth setting, known (Rendering.choice depth setting))
    (setting : Setting) (document : Document) (within : ∀ node ∈ document.nodes, allowed node) :
    Follows moves fails (Rendering.document setting document) :=
  track.toCourse.follows_document isKnown setting document within

end Track

/-! ## Growth -/

/-- No event is taken back. -/
def Grows (before after : RenderState) : Prop := before.events <:+ after.events

theorem grows_noted (state : RenderState) (event : Event) : Grows state (state.noted event) :=
  List.suffix_cons ..

theorem Grows.noted {before after : RenderState} (grows : Grows before after) (event : Event) :
    Grows before (after.noted event) :=
  grows.trans (grows_noted after event)

theorem grows_registering (state : RenderState) (fork : Fork) :
    Grows state (state.registering fork) := by
  simp only [Grows, RenderState.registering_events, List.suffix_rfl]

theorem grows_keeping (state : RenderState) (fork : Fork) (live : LiveFork) (index : Nat)
    (rendered : String) : Grows state (state.keeping fork live index rendered) := by
  simp only [Grows, RenderState.keeping_events, List.suffix_rfl]

theorem grows_naming (state : RenderState) (reference : Reference) (live : LiveFork) (index : Nat)
    (output : String) : Grows state (state.naming reference live index output) := by
  simp only [Grows, RenderState.naming_events, List.suffix_rfl]

/-- Every choice is rendered without taking events back. -/
def Growing (nested : Choice → Rendering String) : Prop :=
  ∀ choice, Follows Grows Grows (nested choice)

theorem motion_grows : Motion Grows Grows where
  trans := List.IsSuffix.trans
  fails_after := List.IsSuffix.trans
  fails_of_moves := id
  grows := id
  unseen := fun unseen => by simp only [Grows, unseen.events, List.suffix_rfl]
  quiet := fun state event _ => grows_noted state event

section Growth

variable {nested : Choice → Rendering String} (growing : Growing nested)
include growing

theorem grows_execute (name : Option String) (live : LiveFork) :
    Follows Grows Grows (execute nested name live) := by
  intro state
  refine ensures_execute (fun after unseen => motion_grows.unseen unseen)
    fun draw rest after _ drew => ?_
  have drewGrows : Grows state after :=
    (grows_noted state _).trans (motion_grows.unseen drew)
  refine (motion_grows.ensures_of_moves (motion_grows.follows_renderBranch
    (fun branch _ => growing branch.choice) draw.index) drewGrows).imp (fun _ later grown => ?_)
    fun _ failed => failed
  exact grown.noted _

theorem grows_renderFork (fork : Fork) (state : RenderState) :
    Ensures (renderFork nested fork) state
      (fun _ later => Grows (state.noted (.reached fork)) later)
      (Grows (state.noted (.reached fork))) := by
  refine ensures_renderFork List.suffix_rfl (fun _ _ _ => grows_registering ..) fun _ _ => ?_
  refine (grows_execute growing _ _ _).imp (fun _ later grown => ?_) fun _ failed => failed
  exact grown.trans (grows_keeping ..)

theorem grows_branchOf (reference : Reference) (target : Record) :
    Follows Grows Grows (branchOf nested reference target) := fun state =>
  ensures_branchOf (fun _ _ _ => List.suffix_rfl) (grows_execute growing _ _ state)

theorem grows_renderReference (reference : Reference) (state : RenderState) :
    Ensures (renderReference nested reference) state
      (fun _ later => Grows (state.noted (.referred reference)) later)
      (Grows (state.noted (.referred reference))) := by
  refine ensures_renderReference (fun _ => ?_) fun target _ => ?_
  · exact motion_grows.follows_answerAbsent (fun choice _ => growing choice) _
  · refine (grows_branchOf growing reference target _).imp (fun taken later grown => ?_)
      fun _ failed => failed
    refine (motion_grows.ensures_of_moves (motion_grows.follows_answer
      (fun _ choice _ => growing choice) _ _) grown).imp (fun _ after answered => ?_)
      fun _ failed => failed
    exact ⟨answered, fun _ => answered.trans (grows_naming ..)⟩

end Growth

theorem grows_renderIncluded (child : Setting → List Node → Rendering String) (setting : Setting)
    (path : String) (state : RenderState) :
    Grows state ((renderIncluded child setting path).run state).2 := by
  rw [← @ensures_always _ state (renderIncluded child setting path) fun later => Grows state later]
  unfold renderIncluded
  simp only [ensures_bind, ensures_note]
  have loaded := grows_noted state (.loaded (Path.join setting.directory path))
  cases setting.loader (Path.join setting.directory path) with
  | error error => exact loaded
  | ok text =>
    simp only
    split
    · exact loaded
    · simp only [ensures_bind, ensures_get, ensures_note]
      split
      · exact loaded.noted _
      · exact loaded.noted _

/-- Growth is tracked through whole renders. -/
theorem track_grows : Track (fun _ => True) (fun _ => True) Grows Grows where
  toMotion := motion_grows
  fork _ fork _ _ inner state :=
    (grows_renderFork (fun choice => inner choice (allowedChoice_of_forall (fun _ => trivial) _))
      fork state).imp (fun _ _ => (grows_noted state _).trans) fun _ => (grows_noted state _).trans
  reference _ reference _ _ inner state :=
    (grows_renderReference
      (fun choice => inner choice (allowedChoice_of_forall (fun _ => trivial) _)) reference
      state).imp (fun _ _ => (grows_noted state _).trans) fun _ => (grows_noted state _).trans
  includes child _ := grows_renderIncluded child
  merges _ _ _ := List.suffix_cons ..

theorem growing_choice (depth : Nat) (setting : Setting) :
    Growing (Rendering.choice depth setting) := fun choice =>
  track_grows.follows_choice (fun _ _ => trivial) depth setting choice
    (allowedChoice_of_forall (fun _ => trivial) choice)

/-! ## Until something is included -/

/-- Unless something was included, what held goes on to hold. -/
def UnlessLoaded (holds : RenderState → Prop) (before after : RenderState) : Prop :=
  Grows before after ∧ (Loaded after.events ∨ (holds before → holds after))

section UnlessLoaded

variable {holds : RenderState → Prop}

theorem UnlessLoaded.trans {first second third : RenderState}
    (earlier : UnlessLoaded holds first second) (later : UnlessLoaded holds second third) :
    UnlessLoaded holds first third := by
  refine ⟨earlier.1.trans later.1, ?_⟩
  rcases later.2 with loaded | stays
  · exact .inl loaded
  · rcases earlier.2 with loaded | stayed
    · exact .inl (loaded.grow later.1)
    · exact .inr fun held => stays (stayed held)

theorem motion_unlessLoaded
    (unseen : ∀ {before after}, Unseen before after → holds before → holds after)
    (quiet : ∀ state {event}, Quiet event → holds state → holds (state.noted event)) :
    Motion (UnlessLoaded holds) (UnlessLoaded holds) where
  trans := UnlessLoaded.trans
  fails_after := UnlessLoaded.trans
  fails_of_moves := id
  grows moved := moved.1
  unseen same := ⟨motion_grows.unseen same, .inr (unseen same)⟩
  quiet state event isQuiet := ⟨grows_noted state event, .inr (quiet state isQuiet)⟩

/-- Only where it holds already there is something to show. -/
theorem ensures_unlessLoaded {α : Type} {part : Rendering α} {state : RenderState}
    (grows : Ensures part state (fun _ later => Grows state later) (Grows state))
    (stays : holds state → Ensures part state (fun _ later => UnlessLoaded holds state later)
      (UnlessLoaded holds state)) :
    Ensures part state (fun _ later => UnlessLoaded holds state later)
      (UnlessLoaded holds state) := by
  by_cases held : holds state
  · exact stays held
  · exact grows.imp (fun _ _ grown => ⟨grown, .inr fun holding => absurd holding held⟩)
      fun _ grown => ⟨grown, .inr fun holding => absurd holding held⟩

/-- What goes on to hold through forks and references that are allowed does so through whole
renders. -/
theorem track_unlessLoaded {allowed : Node → Prop}
    (motion : Motion (UnlessLoaded holds) (UnlessLoaded holds))
    (forks : ∀ (nested : Choice → Rendering String) (fork : Fork), allowed (.fork fork) →
      (∀ choice, AllowedChoice allowed choice →
        Follows (UnlessLoaded holds) (UnlessLoaded holds) (nested choice)) →
      ∀ state, holds state → Ensures (renderFork nested fork) state
        (fun _ later => UnlessLoaded holds state later) (UnlessLoaded holds state))
    (references : ∀ (nested : Choice → Rendering String) (reference : Reference),
      allowed (.reference reference) →
      (∀ choice, AllowedChoice allowed choice →
        Follows (UnlessLoaded holds) (UnlessLoaded holds) (nested choice)) →
      ∀ state, holds state → Ensures (renderReference nested reference) state
        (fun _ later => UnlessLoaded holds state later) (UnlessLoaded holds state)) :
    Track Growing allowed (UnlessLoaded holds) (UnlessLoaded holds) where
  toMotion := motion
  fork nested fork growing isAllowed inner state := by
    refine ensures_unlessLoaded ?_ (forks nested fork isAllowed inner state)
    exact (grows_renderFork growing fork state).imp (fun _ _ => (grows_noted state _).trans)
      fun _ => (grows_noted state _).trans
  reference nested reference growing isAllowed inner state := by
    refine ensures_unlessLoaded ?_ (references nested reference isAllowed inner state)
    exact (grows_renderReference growing reference state).imp
      (fun _ _ => (grows_noted state _).trans) fun _ => (grows_noted state _).trans
  includes child _ setting path state := ⟨grows_renderIncluded child setting path state,
    .inl (loaded_of_renderIncluded child setting path state)⟩
  merges _ _ loaded := ⟨List.suffix_cons .., .inl (loaded.grow (List.suffix_cons ..))⟩

end UnlessLoaded

end Rendering

end BranchText
