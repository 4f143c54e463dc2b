import BranchText.Proofs.Reading.Nested
import BranchText.Proofs.Render.Tracks

/-!
# What the ledger of a render holds

Records are written by forks, by references that draw or execute their target again, under the
names of references, and by includes, and each of these writes a copy of live weights that was made
before anything nested was rendered. `LiveFork.Sound` and `Record.Sound` say what holds of every
record nevertheless, after every sequence of renders and includes, whether they ended well or not.
-/

namespace BranchText

namespace LiveFork

/-- The live weights are those of the fork, but for places of a set that were drawn. -/
structure Sound (live : LiveFork) : Prop where
  isSet : live.deck.isSet = live.fork.isSet
  initial : live.deck.initial = Weight.normalize live.fork.written
  length : live.deck.live.length = live.deck.initial.length
  nonempty : 0 < live.deck.initial.length
  ordinary : live.fork.isSet = false → live.deck.live = live.deck.initial
  drawn : live.fork.isSet = true → ∀ (index : Nat) (weight : Float),
    live.deck.live[index]? = some weight → live.deck.initial[index]? = some weight ∨ weight = 0

/-- The live weights are sound, and the branch was drawn from them. -/
structure Took (live : LiveFork) (index : Nat) : Prop where
  sound : live.Sound
  index_lt : index < live.deck.live.length
  used : live.fork.isSet = true → live.deck.live[index]? = some 0

theorem sound_ofFork {fork : Fork} (some : fork.branches ≠ []) : (ofFork fork).Sound where
  isSet := rfl
  initial := rfl
  length := rfl
  nonempty := by
    have length : (ofFork fork).deck.initial.length = fork.branches.length := by
      simp [ofFork, Fork.deck, Deck.full, Fork.written, Weight.normalize]
    rw [length]
    exact List.length_pos_iff.2 some
  ordinary _ := rfl
  drawn _ _ _ there := .inl there

variable {live : LiveFork} (sound : live.Sound)
include sound

theorem Sound.refill : (⟨live.fork, live.deck.refill⟩ : LiveFork).Sound where
  isSet := sound.isSet
  initial := sound.initial
  length := rfl
  nonempty := sound.nonempty
  ordinary _ := rfl
  drawn _ _ _ there := .inl there

theorem Sound.spend {index : Nat} (within : index < live.deck.live.length) :
    (⟨live.fork, live.deck.spend index⟩ : LiveFork).Took index where
  index_lt := by
    rw [Deck.length_live_spend]
    exact within
  used isSet := by
    rw [Deck.spend, if_pos (sound.isSet.trans isSet)]
    exact List.getElem?_set_self within
  sound := by
    constructor
    case isSet => exact (Deck.isSet_spend ..).trans sound.isSet
    case initial => exact (Deck.initial_spend ..).trans sound.initial
    case length => rw [Deck.length_live_spend, Deck.initial_spend, sound.length]
    case nonempty =>
      rw [Deck.initial_spend]
      exact sound.nonempty
    case ordinary =>
      intro notSet
      rw [Deck.spend, if_neg (by rw [sound.isSet, notSet]; exact Bool.false_ne_true)]
      exact sound.ordinary notSet
    case drawn =>
      intro isSet place weight there
      rw [Deck.spend, if_pos (sound.isSet.trans isSet)] at there ⊢
      by_cases same : index = place
      · subst same
        rw [List.getElem?_set_self within] at there
        exact .inr (Option.some.inj there).symm
      · rw [List.getElem?_set_ne same] at there
        exact sound.drawn isSet place weight there

/-- A draw leaves sound weights, from which it was drawn. -/
theorem Sound.deals {draw : Draw} {rest : Deck Float}
    (deals : live.deck.Deals Generator.below draw rest) :
    (⟨live.fork, rest⟩ : LiveFork).Took draw.index := by
  have fits : live.deck.Fits live.deck.initial.length := ⟨rfl, sound.length⟩
  have within := deals.index_lt fits
  rcases deals.cases with ⟨-, -, rfl⟩ | ⟨-, -, rfl⟩
  · exact sound.spend (sound.length ▸ within)
  · exact sound.refill.spend within

end LiveFork

/-- What holds of every record: only a silent set that was never drawn from is without a branch. -/
structure Record.Sound (entry : Record) : Prop where
  live : entry.live.Sound
  index_lt : ∀ index, entry.chosen = some index → index < entry.live.deck.live.length
  undrawn : entry.chosen = none → entry.live.fork.silent = true ∧ entry.live.fork.isSet = true ∧
    entry.live.deck.live = entry.live.deck.initial ∧ entry.rendered = ""
  used : ∀ index, entry.chosen = some index → entry.live.fork.isSet = true →
    entry.live.deck.live[index]? = some 0

namespace Record.Sound

theorem of_took {live : LiveFork} {index : Nat} (took : live.Took index) (rendered : String)
    (origin : Origin) : (⟨live, some index, rendered, origin⟩ : Record).Sound where
  live := took.sound
  index_lt := by
    rintro _ ⟨⟩
    exact took.index_lt
  undrawn none := by cases none
  used := by
    rintro _ ⟨⟩
    exact took.used

theorem took {entry : Record} (sound : entry.Sound) {index : Nat}
    (chosen : entry.chosen = some index) : entry.live.Took index :=
  ⟨sound.live, sound.index_lt index chosen, sound.used index chosen⟩

end Record.Sound

namespace Rendering

/-- The fork and all forks within it have branches. -/
def Grown (fork : Fork) : Prop := Branching (Node.fork fork).within

theorem Grown.nonempty {fork : Fork} (grown : Grown fork) : fork.branches ≠ [] :=
  grown fork (Node.self_mem_within _)

/-- Every record and every set without a name is sound. -/
structure Orderly (state : RenderState) : Prop where
  recorded : ∀ entry ∈ state.ledger.entries, entry.2.Sound ∧ Grown entry.2.live.fork
  kept : ∀ entry ∈ state.anonymousSets.entries,
    (entry.2.Sound ∧ entry.2.fork.isSet = true) ∧ Grown entry.2.fork

theorem orderly_initial (generator : Generator) : Orderly (.initial generator) where
  recorded _ member := absurd member List.not_mem_nil
  kept _ member := absurd member List.not_mem_nil

/-- What is orderly stays orderly. -/
def KeepsOrder (before after : RenderState) : Prop :=
  Grows before after ∧ (Orderly before → Orderly after)

section Steps

variable {state later : RenderState}

theorem KeepsOrder.trans {between : RenderState} (first : KeepsOrder state between)
    (second : KeepsOrder between later) : KeepsOrder state later :=
  ⟨first.1.trans second.1, fun orderly => second.2 (first.2 orderly)⟩

theorem keepsOrder_noted (state : RenderState) (event : Event) :
    KeepsOrder state (state.noted event) :=
  ⟨grows_noted state event, fun orderly => { orderly with }⟩

theorem motion_keepsOrder : Motion KeepsOrder KeepsOrder where
  trans := KeepsOrder.trans
  fails_after := KeepsOrder.trans
  fails_of_moves := id
  grows moved := moved.1
  unseen unseen := by
    refine ⟨motion_grows.unseen unseen, fun orderly => ⟨?_, ?_⟩⟩
    · rw [unseen.ledger]
      exact orderly.recorded
    · rw [unseen.anonymousSets]
      exact orderly.kept
  quiet state event _ := keepsOrder_noted state event

theorem keepsOrder_recording {entry : Record} (sound : entry.Sound) (grown : Grown entry.live.fork)
    (name : String) (state : RenderState) : KeepsOrder state (state.recording name entry) := by
  refine ⟨List.suffix_rfl, fun orderly => ⟨fun found member => ?_, orderly.kept⟩⟩
  rcases Table.mem_or_mem_of_mem_insert member with rfl | earlier
  · exact ⟨sound, grown⟩
  · exact orderly.recorded found earlier

/-- Only silent sets are recorded without a branch. -/
theorem keepsOrder_registering {fork : Fork} (grown : Grown fork) (silent : fork.silent = true)
    (isSet : fork.isSet = true) (state : RenderState) :
    KeepsOrder state (state.registering fork) := by
  unfold RenderState.registering
  split
  · exact motion_keepsOrder.same state
  · split
    · exact motion_keepsOrder.same state
    · refine keepsOrder_recording ?_ grown _ state
      constructor
      case live => exact LiveFork.sound_ofFork grown.nonempty
      case index_lt => rintro _ ⟨⟩
      case undrawn => exact fun _ => ⟨silent, isSet, rfl, rfl⟩
      case used => rintro _ ⟨⟩

theorem keepsOrder_keeping {fork : Fork} {live : LiveFork} {index : Nat}
    (took : live.Took index) (grown : Grown live.fork)
    (ofSet : fork.identifier = none → fork.isSet = true → live.fork.isSet = true)
    (rendered : String) (state : RenderState) :
    KeepsOrder state (state.keeping fork live index rendered) := by
  unfold RenderState.keeping
  split
  · exact keepsOrder_recording (.of_took took _ _) grown _ state
  · rename_i unnamed
    split
    · rename_i isSet
      refine ⟨List.suffix_rfl, fun orderly => ⟨orderly.recorded, fun found member => ?_⟩⟩
      rcases Table.mem_or_mem_of_mem_insert member with rfl | earlier
      · exact ⟨⟨took.sound, ofSet unnamed isSet⟩, grown⟩
      · exact orderly.kept found earlier
    · exact motion_keepsOrder.same state

theorem keepsOrder_naming {live : LiveFork} {index : Nat} (took : live.Took index)
    (grown : Grown live.fork) (reference : Reference) (output : String) (state : RenderState) :
    KeepsOrder state (state.naming reference live index output) := by
  unfold RenderState.naming
  split
  · exact keepsOrder_recording (.of_took took _ _) grown _ state
  · exact motion_keepsOrder.same state

/-- The weights that a fork is drawn from are sound. -/
theorem Orderly.liveOf (orderly : Orderly state) {fork : Fork} (grown : Grown fork) :
    (state.liveOf fork).Sound ∧ Grown (state.liveOf fork).fork ∧
      (fork.identifier = none → fork.isSet = true → (state.liveOf fork).fork.isSet = true) := by
  have source := state.liveOf_source fork
  generalize state.liveOf fork = live at source
  cases source with
  | full => exact ⟨LiveFork.sound_ofFork grown.nonempty, grown, fun _ isSet => isSet⟩
  | recorded identifier found _ =>
    obtain ⟨sound, grownEntry⟩ := orderly.recorded _ (Table.mem_of_get? found)
    exact ⟨sound.live, grownEntry, fun unnamed => by rw [identifier] at unnamed; cases unnamed⟩
  | kept _ _ found =>
    obtain ⟨⟨sound, isSet⟩, grownLive⟩ := orderly.kept _ (Table.mem_of_get? found)
    exact ⟨sound, grownLive, fun _ _ => isSet⟩

variable {nested : Choice → Rendering String}
  (inner : ∀ choice : Choice, Branching choice.within →
    Follows KeepsOrder KeepsOrder (nested choice))
include inner

/-- Executing sound weights leaves sound weights, with the branch that was drawn. -/
theorem keepsOrder_execute (name : Option String) {live : LiveFork} (sound : live.Sound)
    (grown : Grown live.fork) (state : RenderState) :
    Ensures (execute nested name live) state (fun outcome later =>
      outcome.1.Took outcome.2.1 ∧ outcome.1.fork = live.fork ∧ KeepsOrder state later)
      (KeepsOrder state) := by
  refine ensures_execute (fun _ unseen => motion_keepsOrder.unseen unseen)
    fun draw rest after deals drew => ?_
  have drawn : KeepsOrder state after :=
    (keepsOrder_noted state _).trans (motion_keepsOrder.unseen drew)
  have branches : ∀ branch ∈ live.fork.branches,
      Follows KeepsOrder KeepsOrder (nested branch.choice) := by
    intro branch member
    refine inner _ fun other inside => ?_
    exact grown other (Fork.branch_within member inside)
  refine (motion_keepsOrder.ensures_of_moves
    (motion_keepsOrder.follows_renderBranch branches draw.index) drawn).imp
    (fun _ finished moved => ?_) fun _ failed => failed
  exact ⟨sound.deals deals, rfl, moved.trans (keepsOrder_noted finished _)⟩

omit inner in
/-- Steps have to be looked at in orderly states only. -/
theorem keepsOrder_of_orderly {α : Type} {part : Rendering α}
    (grows : Ensures part state (fun _ later => Grows state later) (Grows state))
    (follows : Orderly state →
      Ensures part state (fun _ later => KeepsOrder state later) (KeepsOrder state)) :
    Ensures part state (fun _ later => KeepsOrder state later) (KeepsOrder state) := by
  by_cases orderly : Orderly state
  · exact follows orderly
  · exact grows.imp (fun _ _ grown => ⟨grown, fun orderly' => absurd orderly' orderly⟩)
      fun _ grown => ⟨grown, fun orderly' => absurd orderly' orderly⟩

theorem keepsOrder_renderFork (growing : Growing nested) {fork : Fork} (grown : Grown fork) :
    Follows KeepsOrder KeepsOrder (renderFork nested fork) := by
  intro state
  have reached := keepsOrder_noted state (.reached fork)
  refine keepsOrder_of_orderly ?_ fun orderly => ?_
  · exact (grows_renderFork growing fork state).imp (fun _ _ => (grows_noted state _).trans)
      fun _ => (grows_noted state _).trans
  · obtain ⟨sound, grownLive, ofSet⟩ := orderly.liveOf grown
    refine ensures_renderFork reached (fun silent isSet _ => ?_) fun _ _ => ?_
    · exact reached.trans (keepsOrder_registering grown silent isSet _)
    · refine (keepsOrder_execute inner _ sound grownLive _).imp ?_ fun _ => reached.trans
      rintro ⟨live, index, rendered⟩ later ⟨took, same, moved⟩
      have same : live.fork = (state.liveOf fork).fork := same
      rw [← same] at grownLive ofSet
      exact (reached.trans moved).trans (keepsOrder_keeping took grownLive ofSet rendered later)

/-- The branch that a reference answers to was drawn from the weights that it hands on. -/
theorem keepsOrder_branchOf (reference : Reference) {target : Record} (sound : target.Sound)
    (grown : Grown target.live.fork) (state : RenderState) :
    Ensures (branchOf nested reference target) state (fun taken later =>
      taken.1.Took taken.2.1 ∧ Grown taken.1.fork ∧ KeepsOrder state later) (KeepsOrder state) := by
  refine ensures_branchOf (fun index chosen _ => ?_) ?_
  · exact ⟨sound.took chosen, grown, motion_keepsOrder.same state⟩
  · refine (keepsOrder_execute inner _ sound.live grown state).imp ?_ fun _ failed => failed
    rintro ⟨live, index, rendered⟩ later ⟨took, same, moved⟩
    have grownLive : Grown live.fork := by
      rw [show live.fork = target.live.fork from same]
      exact grown
    refine ⟨took, grownLive, moved.trans ?_⟩
    exact keepsOrder_recording (.of_took took _ _) grownLive _ later

theorem keepsOrder_renderReference (growing : Growing nested) {reference : Reference}
    (built : Branching (Node.reference reference).within) :
    Follows KeepsOrder KeepsOrder (renderReference nested reference) := by
  intro state
  have referred := keepsOrder_noted state (.referred reference)
  refine keepsOrder_of_orderly ?_ fun orderly => ?_
  · exact (grows_renderReference growing reference state).imp
      (fun _ _ => (grows_noted state _).trans) fun _ => (grows_noted state _).trans
  · refine ensures_renderReference (fun _ => ?_) fun target found => ?_
    · refine motion_keepsOrder.ensures_of_moves (motion_keepsOrder.follows_answerAbsent ?_) referred
      intro choice fallback
      exact inner choice fun fork inside => built fork (Reference.fallback_within fallback inside)
    · obtain ⟨sound, grown⟩ := orderly.recorded _ (Table.mem_of_get? found)
      refine (keepsOrder_branchOf inner reference sound grown _).imp ?_ fun _ => referred.trans
      rintro ⟨live, index, rendered⟩ later ⟨took, grownLive, moved⟩
      have answers : Follows KeepsOrder KeepsOrder (answer nested reference index rendered) := by
        refine motion_keepsOrder.follows_answer (fun index choice mapped => ?_) index rendered
        exact inner choice fun fork inside => built fork (Reference.answer_within mapped inside)
      refine (motion_keepsOrder.ensures_of_moves answers (referred.trans moved)).imp
        (fun output after answered => ⟨answered, fun _ => ?_⟩) fun _ failed => failed
      exact answered.trans (keepsOrder_naming took grownLive reference output after)

end Steps

/-! ## Includes -/

/-- An included document hands over sound records. -/
def HandsSound (included : Included) : Prop :=
  ∀ entry ∈ included.ledger.entries, entry.2.Sound ∧ Grown entry.2.live.fork

theorem keepsOrder_merged {included : Included} (hands : HandsSound included)
    (state : RenderState) : KeepsOrder state (mergedState included state) := by
  refine ⟨List.suffix_cons .., fun orderly => ⟨fun found member => ?_, orderly.kept⟩⟩
  rcases Table.mem_or_mem_of_mem_extend member with taken | earlier
  · obtain ⟨entry, handed, rfl⟩ := List.mem_map.1 taken
    obtain ⟨sound, grown⟩ := hands entry handed
    -- Where a record comes from does not matter to it.
    exact ⟨{ sound with }, grown⟩
  · exact orderly.recorded found earlier

theorem keepsOrder_renderIncluded {child : Setting → List Node → Rendering String}
    (follows : ∀ setting nodes, (∀ node ∈ nodes, Branching node.within) →
      Follows KeepsOrder KeepsOrder (child setting nodes))
    (setting : Setting) (path : String) (state : RenderState) :
    Ensures (renderIncluded child setting path) state
      (fun included later => KeepsOrder state later ∧ HandsSound included) (KeepsOrder state) := by
  unfold renderIncluded
  simp only [ensures_bind, ensures_note]
  have loaded := keepsOrder_noted state (.loaded (Path.join setting.directory path))
  cases setting.loader (Path.join setting.directory path) with
  | error error => exact loaded
  | ok text =>
    simp only
    cases read : Document.read text.toList with
    | error error => exact loaded
    | ok document =>
      simp only [ensures_bind, ensures_get, ensures_note]
      split
      · exact loaded.trans (keepsOrder_noted ..)
      · rename_i text rendered
        refine ⟨loaded.trans (keepsOrder_noted ..), ?_⟩
        have within : ∀ node ∈ document.nodes, Branching node.within := by
          intro node member fork inside
          exact Document.branching_of_read read fork (within_subset_of_mem member inside)
        have whole : ∀ inner,
            Follows KeepsOrder KeepsOrder (renderWhole (child inner) document) := by
          intro inner
          unfold renderWhole
          split
          · exact motion_keepsOrder.follows_bind (motion_keepsOrder.follows_warn _)
              fun _ => follows inner _ within
          · exact follows inner _ within
        exact ((ensures_always.1 (whole _ _)).2 (orderly_initial state.generator)).recorded

theorem allowed_of_branching {choice : Choice} (built : Branching choice.within) :
    AllowedChoice (fun node => Branching node.within) choice := by
  cases choice with
  | nodes nodes =>
    intro node member fork inside
    exact built fork (within_subset_of_mem member inside)
  | script block => trivial
  | call call => trivial

/-- Order is kept by whole renders of documents that were read. -/
theorem course_keepsOrder :
    Course Growing (fun node => Branching node.within) (fun included _ => HandsSound included)
      KeepsOrder KeepsOrder where
  toMotion := motion_keepsOrder
  fork _ _ growing grown inner :=
    keepsOrder_renderFork (fun choice built => inner choice (allowed_of_branching built)) growing
      grown
  reference _ _ growing built inner :=
    keepsOrder_renderReference (fun choice built => inner choice (allowed_of_branching built))
      growing built
  lasts hands _ := hands
  includes _ follows := keepsOrder_renderIncluded follows
  merges _ state hands := keepsOrder_merged hands state

/-! ## Sequences of renders -/

/-- What can become of the state of one renderer: it renders sources and includes documents, one
after another, and goes on after those that fail. -/
inductive Reachable (setting : Setting) (generator : Generator) : RenderState → Prop
  | initial : Reachable setting generator (.initial generator)
  | source {state : RenderState} (before : Reachable setting generator state) (text : String) :
    Reachable setting generator ((Rendering.source setting text).run state).2
  | included {state : RenderState} (before : Reachable setting generator state) (path : String) :
    Reachable setting generator ((includeDocument setting path).run state).2

theorem keepsOrder_source (setting : Setting) (text : String) :
    Follows KeepsOrder KeepsOrder (Rendering.source setting text) := by
  unfold Rendering.source
  cases read : Document.read text.toList with
  | error error => exact motion_keepsOrder.follows_throw _
  | ok document =>
    refine course_keepsOrder.follows_document growing_choice setting document ?_
    intro node member fork inside
    exact Document.branching_of_read read fork (within_subset_of_mem member inside)

theorem Reachable.orderly {setting : Setting} {generator : Generator} {state : RenderState}
    (reachable : Reachable setting generator state) : Orderly state := by
  induction reachable with
  | initial => exact orderly_initial generator
  | source before text ih => exact (ensures_always.1 (keepsOrder_source setting text _)).2 ih
  | included before path ih =>
    have follows := course_keepsOrder.follows_includeDocument growing_choice setting path
    exact (ensures_always.1 (follows _)).2 ih

/-- Where a library of two sets can be included, one silent and one without a name. -/
def drawingShelf : Setting :=
  ⟨false, ".", .ofDocuments [("./lib.txt", "\x7b#|N: (a), (b)\x7d\x7b@N\x7d\x7b|(p), (q)\x7d")]⟩

/-- What has become of a renderer that included the library, and then failed in a document that
draws from the set once more. -/
def drawnTwice : Except RenderError String × RenderState :=
  (source drawingShelf "\x7beval @N\x7d\x7beval @Z\x7d").run
    ((includeDocument drawingShelf "lib.txt").run (.initial (.ofSeed 1))).2

end Rendering

end BranchText
