import BranchText.Proofs.Document.References
import BranchText.Proofs.Reading.Spans
import BranchText.Proofs.Render.Dormant
import BranchText.Proofs.Render.OwnBranches

/-!
# What a render can give

Whatever the generator draws, a fork renders one of its branches. `possible` says what a choice can
then give: a text, and what is recorded under each name. Weights do not matter for it, and neither
do generators. Every render that runs no script is among what is possible.
-/

namespace BranchText

/-- What is recorded under a name, without weights. -/
structure Taken where
  fork : Fork
  chosen : Option Nat
  rendered : String

namespace Record

/-- The record without its weights. -/
def taken (entry : Record) : Taken := ⟨entry.live.fork, entry.chosen, entry.rendered⟩

theorem taken_of_same {live : LiveFork} {fork : Fork} (same : live.fork = fork)
    (chosen : Option Nat) (rendered : String) (origin : Origin) :
    (⟨live, chosen, rendered, origin⟩ : Record).taken = ⟨fork, chosen, rendered⟩ :=
  congrArg (fun fork => (⟨fork, chosen, rendered⟩ : Taken)) same

end Record

/-- What is recorded under each name. -/
abbrev View := String → Option Taken

namespace View

/-- Nothing is recorded. -/
def empty : View := fun _ => none

/-- Records something under a name, if there is one. -/
def named (view : View) (name : Option String) (taken : Taken) : View :=
  fun other => if name = some other then some taken else view other

@[simp]
theorem named_none (view : View) (taken : Taken) : view.named none taken = view := by
  funext other
  exact if_neg fun same => nomatch same

@[simp]
theorem named_self (view : View) (name : String) (taken : Taken) :
    view.named (some name) taken name = some taken := if_pos rfl

theorem named_of_ne (view : View) {name : Option String} {other : String}
    (different : name ≠ some other)
    (taken : Taken) : view.named name taken other = view other := if_neg different

end View

namespace RenderState

/-- What the ledger has under each name. -/
def view (state : RenderState) : View := fun name => (state.ledger.get? name).map (·.taken)

theorem view_recording (state : RenderState) (name : String) (entry : Record) :
    (state.recording name entry).view = state.view.named (some name) entry.taken := by
  funext other
  rw [view, get?_recording, View.named]
  by_cases same : other = name
  · rw [if_pos same, if_pos (congrArg some same.symm)]
    rfl
  · rw [if_neg same, if_neg fun found => same (Option.some.inj found).symm]
    rfl

end RenderState

namespace Outcomes

/-- What choices can give: from what is recorded, a text and what is recorded then. -/
abbrev Giving := Choice → View → String → View → Prop

section Steps

variable (inner : Giving)

/-- A fork can draw the branch, which gives the text. -/
inductive Drawn (fork : Fork) (name : Option String) (view : View) : Nat → String → View → Prop
  | branch {index : Nat} {branch : Branch} {text : String} {after : View}
    (found : fork.branches[index]? = some branch) (renders : inner branch.choice view text after) :
    Drawn fork name view index text (after.named name ⟨fork, some index, text⟩)

variable {inner} in
theorem Drawn.exists {fork : Fork} {name : Option String} {view after : View} {index : Nat}
    {text : String} (drawn : Drawn inner fork name view index text after) :
    ∃ branch between, fork.branches[index]? = some branch ∧
      inner branch.choice view text between ∧
        after = between.named name ⟨fork, some index, text⟩ := by
  obtain ⟨found, renders⟩ := drawn
  exact ⟨_, _, found, renders, rfl⟩

/-- What a fork can give. A silent set leaves a record, unless it has one. -/
inductive ForkGives (fork : Fork) (view : View) : String → View → Prop
  | left (waits : (fork.silent && fork.isSet) = true)
    (missing : ∀ name, fork.identifier = some name → view name = none) :
    ForkGives fork view "" (view.named fork.identifier ⟨fork, none, ""⟩)
  | stayed {name : String} {taken : Taken} (waits : (fork.silent && fork.isSet) = true)
    (identifier : fork.identifier = some name)
    (found : view name = some taken) (same : taken.fork = fork)
    (below : ∀ index, taken.chosen = some index → index < fork.branches.length) :
    ForkGives fork view "" view
  | drawn {index : Nat} {text : String} {after : View}
    (executes : (fork.silent && fork.isSet) = false)
    (drawn : Drawn inner fork fork.identifier view index text after) :
    ForkGives fork view text after

/-- The branch that a reference can answer to, and its text. -/
inductive Takes (reference : Reference) (taken : Taken) (view : View) :
    Nat → String → View → Prop
  | last {index : Nat} (chosen : taken.chosen = some index)
    (below : index < taken.fork.branches.length) (looks : reference.reruns = false) :
    Takes reference taken view index taken.rendered view
  | drawn {index : Nat} {text : String} {after : View}
    (executes : reference.reruns = true ∨
      taken.chosen = none ∧ taken.fork.silent = true ∧ taken.fork.isSet = true)
    (drawn : Drawn inner taken.fork (some reference.target) view index text after) :
    Takes reference taken view index text after

section Takes

variable {inner} {reference : Reference} {taken : Taken} {view after : View} {index : Nat}
  {text : String} (takes : Takes inner reference taken view index text after)
include takes

theorem Takes.below : index < taken.fork.branches.length := by
  cases takes with
  | last _ below => exact below
  | drawn _ drawn =>
    obtain ⟨found, -⟩ := drawn
    exact (List.getElem?_eq_some_iff.1 found).1

/-- The branch that a reference answers to is recorded as the last one of its target. -/
theorem Takes.recorded (found : view reference.target = some taken) :
    ∃ text, after reference.target = some ⟨taken.fork, some index, text⟩ := by
  cases takes with
  | last chosen => exact ⟨taken.rendered, by rw [found, ← chosen]⟩
  | drawn _ drawn =>
    obtain ⟨-, -⟩ := drawn
    exact ⟨_, View.named_self ..⟩

end Takes

/-- What a reference can give for a branch that gave the text. -/
inductive Answers (reference : Reference) (index : Nat) (rendered : String) (view : View) :
    String → View → Prop
  | own (none : reference.answer? index = none) :
    Answers reference index rendered view (if reference.isCopy then rendered else "") view
  | choice {choice : Choice} {text : String} {after : View}
    (found : reference.answer? index = some choice) (renders : inner choice view text after) :
    Answers reference index rendered view text after

/-- What a reference can give. -/
inductive ReferenceGives (reference : Reference) (view : View) : String → View → Prop
  | absent {choice : Choice} {text : String} {after : View}
    (looks : reference.reruns = false) (missing : view reference.target = none)
    (found : reference.fallback = some choice) (renders : inner choice view text after) :
    ReferenceGives reference view text after
  | nothing (looks : reference.reruns = false) (missing : view reference.target = none)
    (none : reference.fallback = none) : ReferenceGives reference view "" view
  | present {taken : Taken} {index : Nat} {rendered text : String} {between after : View}
    (found : view reference.target = some taken)
    (takes : Takes inner reference taken view index rendered between)
    (answers : Answers inner reference index rendered between text after) :
    ReferenceGives reference view text
      (after.named reference.identifier ⟨taken.fork, some index, text⟩)

open Rendering (Line)

/-- What a node can put behind what there is. -/
inductive NodeGives (startsLine : Bool) (line : Line) (view : View) : Node → Line → View → Prop
  | text (content : String) :
    NodeGives startsLine line view (.text content) (line.addText content) view
  | fork {fork : Fork} {text : String} {after : View}
    (gives : ForkGives inner fork view text after) :
    NodeGives startsLine line view (.fork fork) (line.addRendered startsLine fork.silent text) after
  | reference {reference : Reference} {text : String} {after : View}
    (gives : ReferenceGives inner reference view text after) :
    NodeGives startsLine line view (.reference reference)
      (line.addRendered startsLine reference.silent text) after

/-- What a sequence of nodes can put behind what there is. -/
inductive NodesGive (startsLine : Bool) : List Node → Line → View → Line → View → Prop
  | nil (line : Line) (view : View) : NodesGive startsLine [] line view line view
  | cons {node : Node} {rest : List Node} {line between last : Line} {view middle after : View}
    (first : NodeGives inner startsLine line view node between middle)
    (others : NodesGive startsLine rest between middle last after) :
    NodesGive startsLine (node :: rest) line view last after

end Steps

/-- What a choice can give with at most so many choices inside each other. Nothing comes of a
script or a call. -/
def possible : Nat → Giving
  | 0, _, _, _, _ => False
  | depth + 1, .nodes nodes, view, text, after =>
    ∃ line, NodesGive (possible depth) false nodes ⟨"", false⟩ view line after ∧ line.text = text
  | _ + 1, .script _, _, _, _ => False
  | _ + 1, .call _, _, _, _ => False

/-! ## Renders are possible -/

/-- A record that a node of the document left under the name. -/
structure Fair (root : List Node) (name : String) (entry : Record) : Prop where
  within : .fork entry.live.fork ∈ nodesWithin root
  of : entry.live.Of entry.live.fork
  below : ∀ index, entry.chosen = some index → index < entry.live.fork.branches.length
  undrawn : entry.chosen = none → entry.live.fork.silent = true ∧ entry.live.fork.isSet = true
  placed : ∀ fork, .fork fork ∈ nodesWithin root → fork.identifier = some name →
    entry.origin = .declared fork.span.start → entry.live.fork = fork
  origin : entry.origin ≠ .imported

/-- Everything that is kept was left by a node of the document. -/
structure Regular (root : List Node) (state : RenderState) : Prop where
  recorded : ∀ name entry, state.ledger.get? name = some entry → Fair root name entry
  kept : ∀ offset live, state.anonymousSets.get? offset = some live →
    live.Of live.fork ∧ ∀ fork, .fork fork ∈ nodesWithin root → fork.span.start = offset →
      live.fork = fork

theorem regular_initial (root : List Node) (generator : Generator) :
    Regular root (.initial generator) where
  recorded _ _ found := by cases found
  kept _ _ found := by cases found

namespace Regular

open Rendering (Unseen)

variable {root : List Node} {state later : RenderState} (regular : Regular root state)
include regular

theorem unseen (unseen : Unseen state later) : Regular root later ∧ later.view = state.view := by
  refine ⟨⟨?_, ?_⟩, ?_⟩
  · rw [unseen.ledger]
    exact regular.recorded
  · rw [unseen.anonymousSets]
    exact regular.kept
  · funext name
    rw [RenderState.view, RenderState.view, unseen.ledger]

theorem noted (event : Event) : Regular root (state.noted event) := { regular with }

theorem recording {name : String} {entry : Record} (fair : Fair root name entry) :
    Regular root (state.recording name entry) where
  recorded other found present := by
    rw [RenderState.get?_recording] at present
    split at present
    · rename_i same
      cases present
      exact same ▸ fair
    · exact regular.recorded other found present
  kept := regular.kept

end Regular

section Realizes

open Rendering

variable {root : List Node} {state : RenderState} {nested : Choice → Rendering String}
  {inner : Giving}

/-- What the choices of a document give is among what is possible. -/
def Realizes (root : List Node) (nested : Choice → Rendering String) (inner : Giving) : Prop :=
  ∀ choice, choice.within ⊆ nodesWithin root → ∀ state, Regular root state →
    Ensures (nested choice) state
      (fun text later => Regular root later ∧ inner choice state.view text later.view) fun _ => True

variable (realizes : Realizes root nested inner) (regular : Regular root state)
include realizes regular

theorem ensures_execute_drawn {fork : Fork} (within : .fork fork ∈ nodesWithin root)
    (name : Option String) {live : LiveFork} (of : live.Of fork) :
    Ensures (execute nested name live) state (fun outcome later =>
      Regular root later ∧ outcome.1.Of fork ∧ ∃ branch,
        fork.branches[outcome.2.1]? = some branch ∧
          inner branch.choice state.view outcome.2.2 later.view) fun _ => True := by
  refine ensures_execute (fun _ _ => trivial) fun draw rest after deals drew => ?_
  obtain ⟨regularAfter, sameView⟩ := (regular.noted (.drew name live draw)).unseen drew
  have below : draw.index < fork.branches.length := deals.index_lt of.fits
  have found := List.getElem?_eq_getElem below
  have inside := List.Subset.trans (Fork.branch_within (List.mem_of_getElem? found))
    (within_subset_nodesWithin root _ within)
  rw [of.same, renderBranch, found]
  refine (realizes _ inside after regularAfter).imp (fun rendered later given => ?_)
    fun _ _ => trivial
  rw [sameView] at given
  exact ⟨given.1.noted _, of.same ▸ of.deals deals, _, found, given.2⟩

/-- Every render of a fork is possible. -/
theorem ensures_renderFork_gives (unmixed : Unmixed (nodesWithin root)) {fork : Fork}
    (within : .fork fork ∈ nodesWithin root) :
    Ensures (renderFork nested fork) state (fun text later =>
      Regular root later ∧ ForkGives inner fork state.view text later.view) fun _ => True := by
  have own : ∀ other, .fork other ∈ nodesWithin root → other.span.start = fork.span.start →
      fork = other := by
    intro other member same
    have together := unmixed _ within _ member fork.span.start rfl (congrArg some same)
    exact Node.fork.inj together
  refine ensures_renderFork trivial (fun silent isSet free => ?_) fun executes _ => ?_
  · have waits : (fork.silent && fork.isSet) = true := by rw [silent, isSet]; rfl
    unfold RenderState.registering
    split
    · rename_i unnamed
      refine ⟨regular.noted _, ?_⟩
      have leaves : ForkGives inner fork state.view "" (state.view.named fork.identifier _) :=
        .left waits fun name identifier => by rw [unnamed] at identifier; cases identifier
      rw [unnamed, View.named_none] at leaves
      exact leaves
    · rename_i name identifier
      split
      · rename_i stays
        obtain ⟨entry, found, origin⟩ := Option.map_eq_some_iff.1 stays
        have fair := regular.recorded name entry found
        have same := fair.placed fork within identifier origin
        have present : state.view name = some entry.taken := congrArg (Option.map _) found
        exact ⟨regular.noted _, .stayed waits identifier present same (same ▸ fair.below)⟩
      · rename_i goes
        have missing : state.ledger.get? name = none := by
          cases found : state.ledger.get? name with
          | none => rfl
          | some entry =>
            rcases free name identifier entry found with declared | imported
            · have known := (congrArg (Option.map (·.origin)) found).trans (congrArg some declared)
              exact absurd known goes
            · exact absurd imported (regular.recorded name entry found).origin
        refine ⟨(regular.noted _).recording ?_, ?_⟩
        · exact {
            within := within
            of := LiveFork.of_ofFork fork
            below := fun index chosen => absurd chosen.symm (Option.some_ne_none index)
            undrawn := fun _ => ⟨silent, isSet⟩
            placed := fun other member _ origin =>
              own other member (Origin.declared.inj origin).symm
            origin := Origin.noConfusion }
        · rw [RenderState.view_recording, ← identifier]
          refine .left waits fun other same => ?_
          rw [identifier, Option.some.injEq] at same
          exact same ▸ congrArg (Option.map _) missing
  · have of : (state.liveOf fork).Of fork := by
      have source := state.liveOf_source fork
      generalize state.liveOf fork = live at source
      cases source with
      | full => exact LiveFork.of_ofFork fork
      | recorded identifier found origin =>
        have fair := regular.recorded _ _ found
        have same := fair.placed fork within identifier origin
        exact ⟨same, same ▸ fair.of.fits⟩
      | kept _ _ found =>
        obtain ⟨of, same⟩ := regular.kept _ _ found
        have same := same fork within rfl
        exact ⟨same, same ▸ of.fits⟩
    refine (ensures_execute_drawn realizes (regular.noted _) within _ of).imp ?_ fun _ _ => trivial
    rintro ⟨live, index, rendered⟩ later ⟨regularLater, ofLive, branch, found, renders⟩
    obtain ⟨rfl, fits⟩ := ofLive
    have branchDrawn : Drawn inner live.fork live.fork.identifier state.view index rendered
        (later.view.named live.fork.identifier ⟨live.fork, some index, rendered⟩) :=
      .branch found renders
    have drawn := ForkGives.drawn (Bool.not_eq_true _ ▸ executes) branchDrawn
    have below : index < live.fork.branches.length := (List.getElem?_eq_some_iff.1 found).1
    unfold RenderState.keeping
    split
    · rename_i name identifier
      rw [identifier] at drawn
      refine ⟨regularLater.recording ?_, ?_⟩
      · exact {
          within := within
          of := ⟨rfl, fits⟩
          below := fun _ chosen => Option.some.inj chosen ▸ below
          undrawn := fun none => absurd none (Option.some_ne_none _)
          placed := fun other member _ origin => own other member (Origin.declared.inj origin).symm
          origin := Origin.noConfusion }
      · rw [RenderState.view_recording]
        exact drawn
    · rename_i unnamed
      rw [unnamed, View.named_none] at drawn
      split
      · refine ⟨⟨regularLater.recorded, fun offset found present => ?_⟩, drawn⟩
        rw [Table.get?_insert] at present
        split at present
        · rename_i same
          cases present
          exact ⟨⟨rfl, fits⟩, fun other member start => own other member (start.trans same)⟩
        · exact regularLater.kept offset found present
      · exact ⟨regularLater, drawn⟩

/-- Every branch that a reference answers to is possible. -/
theorem ensures_branchOf_takes (reference : Reference) {target : Record}
    (found : state.ledger.get? reference.target = some target) :
    Ensures (branchOf nested reference target) state (fun taken later =>
      Regular root later ∧ taken.1.Of target.live.fork ∧
        taken.2.1 < target.live.fork.branches.length ∧
        Takes inner reference target.taken state.view taken.2.1 taken.2.2 later.view)
      fun _ => True := by
  have fair := regular.recorded _ _ found
  unfold branchOf
  split
  · rename_i index chosen looks
    have below := fair.below index chosen
    exact ⟨regular, fair.of, below, .last chosen below looks⟩
  · rename_i notLast
    have executes : reference.reruns = true ∨ target.taken.chosen = none ∧
        target.taken.fork.silent = true ∧ target.taken.fork.isSet = true := by
      cases reruns : reference.reruns with
      | true => exact .inl rfl
      | false =>
        cases chosen : target.chosen with
        | some index => exact absurd reruns (notLast index chosen)
        | none => exact .inr ⟨chosen, fair.undrawn chosen⟩
    rw [ensures_bind]
    refine (ensures_execute_drawn realizes regular fair.within _ fair.of).imp ?_ fun _ _ => trivial
    rintro ⟨live, index, rendered⟩ later ⟨regularLater, of, branch, found, renders⟩
    have below : index < target.live.fork.branches.length := (List.getElem?_eq_some_iff.1 found).1
    obtain ⟨same, fits⟩ := of
    have same : live.fork = target.live.fork := same
    have drawn : Takes inner reference target.taken state.view index rendered
        (later.view.named (some reference.target) ⟨target.taken.fork, some index, rendered⟩) :=
      .drawn executes (.branch found renders)
    refine ⟨regularLater.recording ?_, ⟨same, fits⟩, below, ?_⟩
    · exact {
        within := same ▸ fair.within
        of := ⟨rfl, same ▸ fits⟩
        below := fun _ chosen => Option.some.inj chosen ▸ same ▸ below
        undrawn := fun none => absurd none (Option.some_ne_none _)
        placed := fun other member identifier origin =>
          same.trans (fair.placed other member identifier origin)
        origin := fair.origin }
    · rw [RenderState.view_recording, Record.taken_of_same same]
      exact drawn

theorem ensures_answer_answers {reference : Reference}
    (within : .reference reference ∈ nodesWithin root) (index : Nat) (rendered : String) :
    Ensures (answer nested reference index rendered) state (fun text later =>
      Regular root later ∧ Answers inner reference index rendered state.view text later.view)
      fun _ => True := by
  unfold answer
  split
  · rename_i copies
    have own : Answers inner reference index rendered state.view
        (if reference.isCopy then rendered else "") state.view :=
      .own (Reference.answer?_of_isCopy copies index)
    rw [if_pos copies] at own
    exact ⟨regular, own⟩
  · rename_i renders
    split
    · rename_i choice found
      rw [ensures_bind, ensures_note]
      have inside := List.Subset.trans (Reference.answer_within found)
        (within_subset_nodesWithin root _ within)
      exact (realizes choice inside _ (regular.noted _)).imp
        (fun _ _ given => ⟨given.1, .choice found given.2⟩) fun _ _ => trivial
    · rename_i none
      have own : Answers inner reference index rendered state.view
          (if reference.isCopy then rendered else "") state.view := .own none
      rw [if_neg renders] at own
      rw [ensures_bind, ensures_warn]
      exact ⟨{ regular with }, own⟩

/-- Every render of a reference is possible. -/
theorem ensures_renderReference_gives (unmixed : Unmixed (nodesWithin root)) {reference : Reference}
    (within : .reference reference ∈ nodesWithin root) :
    Ensures (renderReference nested reference) state (fun text later =>
      Regular root later ∧ ReferenceGives inner reference state.view text later.view)
      fun _ => True := by
  refine ensures_renderReference (fun missing => ?_) fun target found => ?_
  · have absent : state.view reference.target = none := congrArg (Option.map _) missing
    unfold answerAbsent
    rw [ensures_bind, ensures_note]
    split
    · exact trivial
    · rename_i looks
      have looks : reference.reruns = false := Bool.not_eq_true _ ▸ looks
      split
      · rename_i choice fallback
        have inside := List.Subset.trans (Reference.fallback_within fallback)
          (within_subset_nodesWithin root _ within)
        exact (realizes choice inside _ ((regular.noted _).noted _)).imp
          (fun _ _ given => ⟨given.1, .absent looks absent fallback given.2⟩) fun _ _ => trivial
      · rename_i none
        rw [ensures_bind, ensures_warn]
        exact ⟨{ regular with }, .nothing looks absent none⟩
  · have present : state.view reference.target = some target.taken := congrArg (Option.map _) found
    refine (ensures_branchOf_takes realizes (regular.noted _) reference found).imp ?_
      fun _ _ => trivial
    rintro ⟨live, index, rendered⟩ between ⟨regularBetween, ⟨same, fits⟩, below, takes⟩
    have same : live.fork = target.live.fork := same
    refine (ensures_answer_answers realizes regularBetween within index rendered).imp ?_
      fun _ _ => trivial
    rintro text later ⟨regularLater, answers⟩
    refine ⟨trivial, fun _ => ?_⟩
    have gives := ReferenceGives.present present takes answers
    unfold RenderState.naming
    split
    · rename_i name identifier
      rw [identifier] at gives
      refine ⟨regularLater.recording ?_, ?_⟩
      · have apart : ∀ fork, .fork fork ∈ nodesWithin root →
            Origin.declared reference.span.start ≠ .declared fork.span.start := by
          intro fork member start
          have together := unmixed _ within _ member reference.span.start rfl
            (congrArg some (Origin.declared.inj start).symm)
          cases together
        exact {
          within := same ▸ (regular.recorded _ _ found).within
          of := ⟨rfl, same ▸ fits⟩
          below := fun _ chosen => Option.some.inj chosen ▸ same ▸ below
          undrawn := fun none => absurd none (Option.some_ne_none _)
          placed := fun fork member _ origin => absurd origin (apart fork member)
          origin := Origin.noConfusion }
      · rw [RenderState.view_recording, Record.taken_of_same same]
        exact gives
    · rename_i unnamed
      rw [unnamed, View.named_none] at gives
      exact ⟨regularLater, gives⟩

/-- Every render of a sequence is possible. -/
theorem ensures_foldlM_gives (unmixed : Unmixed (nodesWithin root)) (startsLine : Bool)
    {nodes : List Node}
    (within : ∀ node ∈ nodes, node ∈ nodesWithin root) (line : Line) :
    Ensures (nodes.foldlM (addNode nested startsLine) line) state (fun last later =>
      Regular root later ∧ NodesGive inner startsLine nodes line state.view last later.view)
      fun _ => True := by
  induction nodes generalizing line state with
  | nil => exact ⟨regular, .nil line _⟩
  | cons node rest ih =>
    obtain ⟨here, behind⟩ := List.forall_mem_cons.1 within
    have first : Ensures (addNode nested startsLine line node) state (fun between later =>
        Regular root later ∧ NodeGives inner startsLine line state.view node between later.view)
        fun _ => True := by
      cases node with
      | text content => exact ⟨regular, .text content⟩
      | fork fork =>
        refine (ensures_bind ..).2 ?_
        exact (ensures_renderFork_gives realizes regular unmixed here).imp
          (fun _ _ given => ⟨given.1, .fork given.2⟩) fun _ _ => trivial
      | reference reference =>
        refine (ensures_bind ..).2 ?_
        exact (ensures_renderReference_gives realizes regular unmixed here).imp
          (fun _ _ given => ⟨given.1, .reference given.2⟩) fun _ _ => trivial
    rw [List.foldlM_cons, ensures_bind]
    refine first.imp (fun between later given => ?_) fun _ _ => trivial
    exact (ih given.1 behind between).imp
      (fun _ _ after => ⟨after.1, .cons given.2 after.2⟩) fun _ _ => trivial

end Realizes

open Rendering

/-- Without scripts, only what is possible is rendered. -/
theorem realizes_inert {root : List Node} (unmixed : Unmixed (nodesWithin root)) (depth : Nat) :
    Realizes root (inert depth) (possible depth) := by
  induction depth with
  | zero => exact fun _ _ _ _ => trivial
  | succ depth ih =>
    intro choice inside state regular
    cases choice with
    | nodes nodes =>
      refine (ensures_bind ..).2 ?_
      have within : ∀ node ∈ nodes, node ∈ nodesWithin root := fun node member =>
        inside (within_subset_of_mem member (Node.self_mem_within node))
      exact (ensures_foldlM_gives ih regular unmixed false within _).imp
        (fun line _ given => ⟨given.1, line, given.2, rfl⟩) fun _ _ => trivial
    | script block => exact trivial
    | call call => exact trivial

end Outcomes

end BranchText
