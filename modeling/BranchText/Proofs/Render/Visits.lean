import BranchText.Proofs.Render.Contributions
import BranchText.Proofs.Render.Tracks

/-!
# The nodes that a render comes to

What holds in the middle of a render is said of the states in which its nodes begin to be rendered.
`Begins` lists the choices that the rendering of one node begins, and `Visits` follows them to the
nodes within. Every reference that the events of a render tell of is visited.
-/

namespace BranchText

namespace Rendering

/-- While the node is rendered from the first state, the choice begins to be rendered in the
second one. -/
inductive Begins (nested : Choice → Rendering String) :
    Node → RenderState → Choice → RenderState → Prop
  /-- A fork renders the branch that it has drawn. -/
  | branch {fork : Fork} {state reached drawn : RenderState} {live : LiveFork} {index : Nat}
    {branch : Branch} (reaches : (reach fork).run state = (.ok (), reached))
    (draws : ¬ (fork.silent && fork.isSet) = true)
    (drew : (draw fork.identifier (reached.liveOf fork)).run reached = (.ok (live, index), drawn))
    (there : live.fork.branches[index]? = some branch) :
    Begins nested (.fork fork) state branch.choice drawn
  /-- A reference renders a branch of its target, drawn anew. -/
  | again {reference : Reference} {state drawn : RenderState} {target : Record} {live : LiveFork}
    {index : Nat} {branch : Branch}
    (present : state.ledger.get? reference.target = some target)
    (anew : target.chosen = none ∨ reference.reruns = true)
    (drew : (draw (some reference.target) target.live).run (state.noted (.referred reference)) =
      (.ok (live, index), drawn))
    (there : live.fork.branches[index]? = some branch) :
    Begins nested (.reference reference) state branch.choice drawn
  /-- A reference renders what it has for the branch of its target. -/
  | answer {reference : Reference} {state taken : RenderState} {target : Record} {live : LiveFork}
    {index : Nat} {rendered : String} {choice : Choice}
    (present : state.ledger.get? reference.target = some target)
    (took : (branchOf nested reference target).run (state.noted (.referred reference)) =
      (.ok (live, index, rendered), taken))
    (found : (reference.mapping? index).or reference.fallback = some choice) :
    Begins nested (.reference reference) state choice
      (taken.noted (.answered reference index choice))
  /-- A reference whose target has no record renders its fallback. -/
  | fallback {reference : Reference} {state : RenderState} {choice : Choice}
    (absent : state.ledger.get? reference.target = none)
    (found : reference.fallback = some choice) :
    Begins nested (.reference reference) state choice
      ((state.noted (.referred reference)).noted (.missed reference))

/-- While the nodes are rendered from the first state, with choices nested at most `depth` deep, the
node begins to be rendered in the second one, with choices nested at most `inner` deep. -/
inductive Visits (setting : Setting) :
    Nat → List Node → RenderState → Nat → Node → RenderState → Prop
  | here {depth : Nat} {front : List Node} {node : Node} {back : List Node}
    {state here : RenderState} {texts : List String}
    (before : Renders (choice depth setting) state front texts here) :
    Visits setting depth (front ++ node :: back) state depth node here
  | inside {depth inner innermost : Nat} {nodes among : List Node} {outer node : Node}
    {state between start here : RenderState}
    (visits : Visits setting depth nodes state (inner + 1) outer between)
    (begins : Begins (choice (inner + 1) setting) outer between (.nodes among) start)
    (within : Visits setting inner among start innermost node here) :
    Visits setting depth nodes state innermost node here

end Rendering

/-- The state in which the nodes of a document begin to be rendered. -/
def RenderState.opening (document : Document) (generator : Generator) : RenderState :=
  if document.usesModes then
    { initial generator with
      warnings := [.modesNotApplied ((document.modes.head?.map (·.span.start)).getD 0)] }
  else initial generator

namespace Rendering

/-- Rendering a document is rendering its nodes. -/
theorem run_renderWhole (render : List Node → Rendering String) (document : Document)
    (generator : Generator) :
    (renderWhole render document).run (.initial generator) =
      (render document.nodes).run (.opening document generator) := by
  unfold renderWhole RenderState.opening
  split <;> rfl

/-! ## No reference is left out -/

section Covering

variable {visited : Reference → List Event → Prop} {state between later : RenderState}

/-- Every later event that tells of a reference is an earlier one, or the reference is visited when
only the events before it have happened. -/
def TellsOf (visited : Reference → List Event → Prop) (before after : RenderState) : Prop :=
  ∀ reference earlier, (.referred reference :: earlier) <:+ after.events →
    (.referred reference :: earlier) <:+ before.events ∨ visited reference earlier

theorem tellsOf_of_events (same : later.events = state.events) : TellsOf visited state later := by
  intro reference earlier told
  rw [same] at told
  exact .inl told

theorem TellsOf.trans (first : TellsOf visited state between)
    (second : TellsOf visited between later) : TellsOf visited state later := by
  intro reference earlier told
  rcases second reference earlier told with before | visited
  · exact first reference earlier before
  · exact .inr visited

theorem TellsOf.imp {wider : Reference → List Event → Prop} (tells : TellsOf visited state later)
    (also : ∀ reference earlier, visited reference earlier → wider reference earlier) :
    TellsOf wider state later :=
  fun reference earlier told => (tells reference earlier told).imp_right (also reference earlier)

theorem TellsOf.noted (tells : TellsOf visited state later) {event : Event}
    (other : ∀ reference, event ≠ .referred reference) :
    TellsOf visited state (later.noted event) := by
  intro reference earlier told
  rcases List.suffix_cons_iff.1 told with same | before
  · cases same
    exact absurd rfl (other reference)
  · exact tells reference earlier before

/-- The part tells of visited references only. -/
def Covered (visited : Reference → List Event → Prop) {α : Type} (part : Rendering α)
    (state : RenderState) : Prop :=
  Ensures part state (fun _ later => TellsOf visited state later) (TellsOf visited state)

/-- A part that starts where another one led to. -/
theorem Covered.after {α : Type} {part : Rendering α} (tells : TellsOf visited state between)
    (covered : Covered visited part between) :
    Ensures part between (fun _ later => TellsOf visited state later) (TellsOf visited state) :=
  covered.imp (fun _ _ => tells.trans) fun _ => tells.trans

theorem covered_draw (name : Option String) (live : LiveFork) :
    Covered visited (draw name live) state := by
  refine ensures_draw (fun after unseen => tellsOf_of_events unseen.events)
    fun draw rest after _ drew => ?_
  exact ((tellsOf_of_events rfl).noted (by simp)).trans (tellsOf_of_events drew.events)

variable {nested : Choice → Rendering String}

theorem covered_execute {name : Option String} {live : LiveFork}
    (inner : ∀ drawn index branch after,
      (draw name live).run state = (.ok (drawn, index), after) →
        drawn.fork.branches[index]? = some branch → Covered visited (nested branch.choice) after) :
    Covered visited (execute nested name live) state := by
  rw [Covered, execute, ensures_bind]
  refine (covered_draw name live).withRun.imp ?_ fun _ failed => failed
  rintro ⟨drawn, index⟩ after ⟨tells, drew⟩
  simp only [ensures_bind, ensures_note, ensures_pure, renderBranch]
  split
  · rename_i branch there
    exact (Covered.after tells (inner drawn index branch after drew there)).imp
      (fun _ _ rendered => rendered.noted (by simp)) fun _ failed => failed
  · exact tells.noted (by simp)

theorem covered_renderFork {fork : Fork}
    (inner : ∀ choice start, Begins nested (.fork fork) state choice start →
      Covered visited (nested choice) start) :
    Covered visited (renderFork nested fork) state := by
  have reached : Covered visited (reach fork) state :=
    ensures_reach (fun _ => (tellsOf_of_events rfl).noted (by simp))
      ((tellsOf_of_events rfl).noted (by simp))
  rw [Covered, renderFork, ensures_bind]
  refine reached.withRun.imp ?_ fun _ failed => failed
  rintro ⟨⟩ between ⟨tells, reaches⟩
  split
  · exact tells.trans (tellsOf_of_events (between.registering_events fork))
  · rename_i draws
    simp only [ensures_bind, ensures_get]
    refine (Covered.after tells (covered_execute fun drawn index branch after drew there =>
      inner _ _ (.branch reaches draws drew there))).imp ?_ fun _ failed => failed
    rintro ⟨live, index, rendered⟩ later executed
    exact executed.trans (tellsOf_of_events (later.keeping_events ..))

theorem covered_renderReference {reference : Reference} (here : visited reference state.events)
    (inner : ∀ choice start, Begins nested (.reference reference) state choice start →
      Covered visited (nested choice) start) :
    Covered visited (renderReference nested reference) state := by
  have referred : TellsOf visited state (state.noted (.referred reference)) := by
    intro other earlier told
    rcases List.suffix_cons_iff.1 told with same | before
    · cases same
      exact .inr here
    · exact .inl before
  refine ensures_renderReference (fun absent => ?_) fun target present => ?_
  · unfold answerAbsent
    rw [ensures_bind, ensures_note]
    have missed : TellsOf visited state
        ((state.noted (.referred reference)).noted (.missed reference)) :=
      referred.noted fun _ => Event.noConfusion
    split
    · exact missed
    · split
      · rename_i choice found
        exact Covered.after missed (inner _ _ (.fallback absent found))
      · exact missed.trans (tellsOf_of_events rfl)
  · have took : Covered visited (branchOf nested reference target)
        (state.noted (.referred reference)) := by
      rcases branchOf_cases nested reference target with ⟨last, -, -, same⟩ | ⟨anew, same⟩
      · rw [same]
        exact tellsOf_of_events rfl
      · rw [same, Covered, ensures_bind]
        refine (covered_execute fun drawn index branch after drew there =>
          inner _ _ (.again present anew drew there)).imp ?_ fun _ failed => failed
        rintro ⟨live, index, rendered⟩ later executed
        exact executed.trans (tellsOf_of_events rfl)
    refine took.withRun.imp ?_ fun _ => referred.trans
    rintro ⟨live, index, rendered⟩ taken ⟨tells, run⟩
    have taking := referred.trans tells
    unfold answer
    split
    · exact ⟨taking, fun _ => taking.trans (tellsOf_of_events (RenderState.naming_events ..))⟩
    · split
      · rename_i choice found
        simp only [ensures_bind, ensures_note]
        refine (Covered.after (taking.noted (by simp))
          (inner _ _ (.answer present run found))).imp (fun output after answered => ?_)
          fun _ failed => failed
        exact ⟨answered, fun _ => answered.trans
          (tellsOf_of_events (RenderState.naming_events ..))⟩
      · exact ⟨taking.trans (tellsOf_of_events rfl), fun _ => taking.trans
          (tellsOf_of_events (RenderState.naming_events ..))⟩

end Covering

/-- Nothing else than nodes tells of references. -/
def Mute (before after : RenderState) : Prop :=
  Grows before after ∧ TellsOf (fun _ _ => False) before after

theorem mute_noted (state : RenderState) {event : Event}
    (other : ∀ reference, event ≠ .referred reference) : Mute state (state.noted event) :=
  ⟨grows_noted state event, (tellsOf_of_events rfl).noted other⟩

theorem motion_mute : Motion Mute Mute where
  trans first second := ⟨first.1.trans second.1, first.2.trans second.2⟩
  fails_after first second := ⟨first.1.trans second.1, first.2.trans second.2⟩
  fails_of_moves := id
  grows moved := moved.1
  unseen unseen := ⟨motion_grows.unseen unseen, tellsOf_of_events unseen.events⟩
  quiet state event quiet := mute_noted state (by cases quiet <;> exact fun _ => Event.noConfusion)

theorem mute_renderIncluded (child : Setting → List Node → Rendering String) (setting : Setting)
    (path : String) (state : RenderState) :
    Ensures (renderIncluded child setting path) state (fun _ later => Mute state later ∧ True)
      (Mute state) := by
  unfold renderIncluded
  simp only [ensures_bind, ensures_note]
  have loaded : Mute state (state.noted (.loaded (Path.join setting.directory path))) :=
    mute_noted state fun _ => Event.noConfusion
  cases setting.loader (Path.join setting.directory path) with
  | error error => exact loaded
  | ok text =>
    simp only
    split
    · exact loaded
    · simp only [ensures_bind, ensures_get, ensures_note]
      split
      · exact motion_mute.trans loaded (mute_noted _ fun _ => Event.noConfusion)
      · exact ⟨motion_mute.trans loaded (mute_noted _ fun _ => Event.noConfusion), trivial⟩

/-- Scripts are mute. No node is allowed, so that forks and references do not have to be. -/
theorem course_mute :
    Course (fun _ => True) (fun _ => False) (fun _ _ => True) Mute Mute where
  toMotion := motion_mute
  fork _ _ _ forbidden _ := forbidden.elim
  reference _ _ _ forbidden _ := forbidden.elim
  lasts _ _ := trivial
  includes child _ := mute_renderIncluded child
  merges _ state _ := mute_noted state fun _ => Event.noConfusion

/-- What is mute tells of no more references, visited ones or others. -/
theorem Mute.tellsOf {before after : RenderState} (mute : Mute before after)
    (visited : Reference → List Event → Prop) : TellsOf visited before after :=
  mute.2.imp fun _ _ => False.elim

/-- One more node renders behind the others. -/
theorem Renders.snoc {nested : Choice → Rendering String} {state between later : RenderState}
    {nodes : List Node} {texts : List String} (renders : Renders nested state nodes texts between)
    {node : Node} {text : String}
    (last : (renderNode nested node).run between = (.ok text, later)) :
    Renders nested state (nodes ++ [node]) (texts ++ [text]) later := by
  induction renders with
  | nil state => exact .cons last (.nil later)
  | cons first rest ih => exact .cons first (ih last)

section Whole

variable {setting : Setting}

/-- The reference begins to be rendered, while the nodes are, when these events have happened. -/
def Visited (setting : Setting) (depth : Nat) (nodes : List Node) (state : RenderState)
    (reference : Reference) (earlier : List Event) : Prop :=
  ∃ inner here, Visits setting depth nodes state inner (.reference reference) here ∧
    here.events = earlier

/-- The nodes behind those that have been rendered tell of visited references only, if what all of
them begin to render does. -/
theorem covered_foldlM {depth : Nat} {nodes : List Node} {state : RenderState}
    (inner : ∀ node here, Visits setting depth nodes state depth node here → ∀ next start,
      Begins (choice depth setting) node here next start →
        Covered (Visited setting depth nodes state) (choice depth setting next) start)
    (startsLine : Bool) (back : List Node) {front : List Node} (split : nodes = front ++ back)
    {texts : List String} {between : RenderState}
    (before : Renders (choice depth setting) state front texts between) (line : Line) :
    Covered (Visited setting depth nodes state)
      (back.foldlM (addNode (choice depth setting) startsLine) line) between := by
  induction back generalizing front texts between line with
  | nil => exact tellsOf_of_events rfl
  | cons node back ih =>
    have visits : Visits setting depth nodes state depth node between := split ▸ .here before
    have here : Covered (Visited setting depth nodes state)
        (renderNode (choice depth setting) node) between := by
      cases node with
      | text content => exact tellsOf_of_events rfl
      | fork fork => exact covered_renderFork (inner _ _ visits)
      | reference reference =>
        exact covered_renderReference ⟨depth, between, visits, rfl⟩ (inner _ _ visits)
    rw [List.foldlM_cons, addNode_eq, Covered]
    simp only [ensures_bind, ensures_pure]
    refine here.withRun.imp ?_ fun _ failed => failed
    rintro text later ⟨tells, run⟩
    exact Covered.after tells (ih (by rw [split, List.append_assoc]; rfl) (before.snoc run) _)

/-- While nodes are rendered, visited references are all that is told of. -/
theorem covered_renderNodes (setting : Setting) (depth : Nat) (nodes : List Node)
    (startsLine : Bool) (state : RenderState) :
    Covered (Visited setting depth nodes state)
      (renderNodes (choice depth setting) nodes startsLine) state := by
  have folded : ∀ {depth nodes startsLine state},
      (∀ node here, Visits setting depth nodes state depth node here → ∀ next start,
        Begins (choice depth setting) node here next start →
          Covered (Visited setting depth nodes state) (choice depth setting next) start) →
        Covered (Visited setting depth nodes state)
          (renderNodes (choice depth setting) nodes startsLine) state := by
    intro depth nodes startsLine state inner
    rw [Covered, renderNodes, ensures_bind]
    exact covered_foldlM inner startsLine nodes rfl (.nil state) _
  induction depth generalizing nodes startsLine state with
  | zero => exact folded fun _ _ _ _ _ _ => tellsOf_of_events rfl
  | succ depth ih =>
    refine folded fun node here visits next start begins => ?_
    -- Only nodes can be visited; a script or a call is mute.
    have silent : ∀ {part : Rendering String}, Follows Mute Mute part →
        Covered (Visited setting (depth + 1) nodes state) part start := fun mute =>
      (mute start).imp (fun _ _ moved => moved.tellsOf _) fun _ moved => moved.tellsOf _
    cases next with
    | nodes among =>
      have wider : ∀ {later}, TellsOf (Visited setting depth among start) start later →
          TellsOf (Visited setting (depth + 1) nodes state) start later := by
        intro later tells
        refine tells.imp fun reference earlier visited => ?_
        obtain ⟨inner, there, within, same⟩ := visited
        exact ⟨inner, there, .inside visits begins within, same⟩
      exact (ih among false start).imp (fun _ _ => wider) fun _ => wider
    | script block =>
      exact silent (course_mute.follows_runScript (mute_renderIncluded _ setting) setting block)
    | call call => exact silent (course_mute.follows_runCall (mute_renderIncluded _ setting) call)

/-- Every reference that the render of a document tells of, on its own or where it is included, is
visited when just the earlier events have happened. -/
theorem exists_visits_of_referred (setting : Setting) (limit : Nat) (document : Document)
    (generator : Generator) {reference : Reference} {earlier : List Event}
    (told : (.referred reference :: earlier) <:+ ((renderWhole
      (fun nodes => renderNodes (choice limit setting) nodes true) document).run
        (.initial generator)).2.events) :
    ∃ depth here, Visits setting limit document.nodes (.opening document generator) depth
      (.reference reference) here ∧ here.events = earlier := by
  have covered := ensures_always.1
    (covered_renderNodes setting limit document.nodes true (.opening document generator))
  rw [run_renderWhole] at told
  rcases covered reference earlier told with before | visited
  · have none : (RenderState.opening document generator).events = [] := by
      unfold RenderState.opening
      split <;> rfl
    rw [none] at before
    exact absurd (List.suffix_nil.1 before) (List.cons_ne_nil _ _)
  · exact visited

end Whole

end Rendering

end BranchText
