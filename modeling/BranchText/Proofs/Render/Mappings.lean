import BranchText.Proofs.Render.Dormant
import BranchText.Proofs.Render.OneFork
import BranchText.Proofs.Render.Visits

/-!
# References that map every branch

A reference that maps every branch of the one fork that declares its target never falls back once
the target has a record: whatever executed the target before, and however often, the record has the
place of a branch of that fork, or weights of that fork to draw one from.
-/

namespace BranchText

/-- The reference maps every branch of the fork. -/
def Reference.Covers (reference : Reference) (fork : Fork) : Prop :=
  ∀ index < fork.branches.length, (reference.mapping? index).isSome = true

instance Reference.Covers.instDecidable (reference : Reference) (fork : Fork) :
    Decidable (reference.Covers fork) :=
  inferInstanceAs (Decidable (∀ index < fork.branches.length, _))

namespace Rendering

/-! ## The branch that a reference answers to -/

section Answers

variable {nested : Choice → Rendering String} {reference : Reference} {target : Record}
  {state : RenderState}

/-- The reference answers to the branch, with these weights left and in this state: it is the one
that its target took last, or one that is drawn from the record of the target and rendered. -/
inductive TakesBranch (nested : Choice → Rendering String) (reference : Reference) (target : Record)
    (state : RenderState) : LiveFork → Nat → RenderState → Prop
  | last {index : Nat} (taken : target.chosen = some index) (once : reference.reruns = false) :
    TakesBranch nested reference target state target.live index state
  | anew {live : LiveFork} {index : Nat} {rendered : String} {drawn after : RenderState}
    (fresh : target.chosen = none ∨ reference.reruns = true)
    (drew : (draw (some reference.target) target.live).run state = (.ok (live, index), drawn))
    (renders : (renderBranch nested live.fork index).run drawn = (.ok rendered, after)) :
    TakesBranch nested reference target state live index
      ((after.noted (.finished (some reference.target) live)).recording reference.target
        ⟨live, some index, rendered, target.origin⟩)

/-- What becomes of a reference that finds the record: the execution of its target fails, or what
it maps the recorded branch to is rendered, and recorded under the name of the reference. Neither is
the fallback rendered, nor is there a warning that a mapping is missing. -/
inductive Maps (nested : Choice → Rendering String) (reference : Reference) (target : Record)
    (state : RenderState) : Prop
  | failed {error : RenderError} {later : RenderState}
    (fresh : target.chosen = none ∨ reference.reruns = true)
    (fails : (execute nested (some reference.target) target.live).run
      (state.noted (.referred reference)) = (.error error, later))
    (run : (renderReference nested reference).run state = (.error error, later))
  | mapped {live : LiveFork} {index : Nat} {taken : RenderState} {entry : Record} {choice : Choice}
    (takes : TakesBranch nested reference target (state.noted (.referred reference)) live index
      taken)
    (found : taken.ledger.get? reference.target = some entry) (chosen : entry.chosen = some index)
    (maps : reference.mapping? index = some choice)
    (run : (renderReference nested reference).run state =
      (nested choice >>= fun output => nameOutcome reference live index output >>= fun _ =>
        pure output).run (taken.noted (.answered reference index choice)))

/-- How a reference comes to the branch that it answers to. -/
theorem takesBranch_of_run {live : LiveFork} {index : Nat} {rendered : String}
    {taken : RenderState}
    (run : (branchOf nested reference target).run state = (.ok (live, index, rendered), taken)) :
    TakesBranch nested reference target state live index taken := by
  rcases branchOf_cases nested reference target with ⟨last, chosen, once, same⟩ | ⟨fresh, same⟩
  · rw [same] at run
    cases run
    exact .last chosen once
  · rw [same] at run
    obtain ⟨outcome, finished, executed, ended⟩ := exists_of_run_bind run
    obtain ⟨⟨rest, place⟩, drawn, drew, executed⟩ := exists_of_run_bind executed
    obtain ⟨text, after, renders, executed⟩ := exists_of_run_bind executed
    cases executed
    cases ended
    exact .anew fresh drew renders

/-- A reference comes to no branch only if the execution of its target fails. -/
theorem run_execute_of_run_branchOf {error : RenderError} {later : RenderState}
    (run : (branchOf nested reference target).run state = (.error error, later)) :
    (target.chosen = none ∨ reference.reruns = true) ∧
      (execute nested (some reference.target) target.live).run state = (.error error, later) := by
  rcases branchOf_cases nested reference target with ⟨last, chosen, once, same⟩ | ⟨fresh, same⟩
  · rw [same] at run
    cases run
  · rw [same, run_bind] at run
    refine ⟨fresh, ?_⟩
    rcases executed : (execute nested (some reference.target) target.live).run state with
      ⟨failed | outcome, between⟩
    · rw [executed] at run
      exact run
    · rw [executed] at run
      cases run

/-- The branch that a reference answers to is recorded. -/
theorem TakesBranch.recorded {live : LiveFork} {index : Nat} {taken : RenderState}
    (takes : TakesBranch nested reference target state live index taken)
    (found : state.ledger.get? reference.target = some target) :
    ∃ entry, taken.ledger.get? reference.target = some entry ∧ entry.chosen = some index := by
  cases takes with
  | last chosen _ => exact ⟨target, found, chosen⟩
  | anew _ _ _ => exact ⟨_, RenderState.get?_recording_self .., rfl⟩

/-- It is a branch of the fork that the record is of. -/
theorem TakesBranch.index_lt {live : LiveFork} {index : Nat} {taken : RenderState}
    (takes : TakesBranch nested reference target state live index taken) {fork : Fork}
    (of : target.Of fork) : index < fork.branches.length := by
  cases takes with
  | last chosen _ => exact of.index_lt index chosen
  | anew _ drew _ =>
    have below : Ensures (draw (some reference.target) target.live) state
        (fun drawn _ => drawn.2 < fork.branches.length) fun _ => True :=
      ensures_draw (fun _ _ => trivial) fun _ _ _ deals _ => deals.index_lt of.live.fits
    exact (ensures_of_run_ok drew).1 below

/-- A reference that maps the branch renders what it maps it to. -/
theorem run_answer {index : Nat} {choice : Choice} (maps : reference.mapping? index = some choice)
    (rendered : String) : (answer nested reference index rendered).run state =
      (nested choice).run (state.noted (.answered reference index choice)) := by
  have notCopy : reference.isCopy = false := by
    have some : reference.mappings ≠ [] := by
      intro none
      rw [Reference.mapping?, none] at maps
      cases maps
    rw [Reference.isCopy, List.isEmpty_eq_false_iff.2 some, Bool.false_and]
  rw [answer, notCopy, maps]
  rfl

/-- A reference that maps every branch of the fork that the record is of. -/
theorem maps_of_recordOf {fork : Fork} (covers : reference.Covers fork) (of : target.Of fork)
    (found : state.ledger.get? reference.target = some target) :
    Maps nested reference target state := by
  have run := @run_renderReference nested state reference target found
  rw [run_bind] at run
  rcases took : (branchOf nested reference target).run (state.noted (.referred reference)) with
    ⟨error | ⟨live, index, rendered⟩, taken⟩
  · rw [took] at run
    obtain ⟨fresh, fails⟩ := run_execute_of_run_branchOf took
    exact .failed fresh fails run
  · rw [took] at run
    have takes := takesBranch_of_run took
    obtain ⟨entry, present, chosen⟩ := takes.recorded found
    obtain ⟨choice, maps⟩ := Option.isSome_iff_exists.1 (covers index (takes.index_lt of))
    refine .mapped takes present chosen maps (run.trans ?_)
    simp only [run_bind, run_answer maps rendered]

end Answers

/-! ## The states that a document without scripts is in -/

/-- No script has run, and the name is owned by the fork. -/
structure AtRest (nodes : List Node) (name : String) (fork : Fork) (state : RenderState) :
    Prop where
  dormant : Dormant nodes state
  owned : OwnedBy nodes name fork state

section AtRest

variable {nodes : List Node} {name : String} {fork : Fork} {state later : RenderState}

theorem atRest_opening (document : Document) (name : String) (fork : Fork)
    (generator : Generator) : AtRest document.nodes name fork (.opening document generator) := by
  have dormant := dormant_initial document.nodes generator
  have owned := ownedBy_initial document.nodes name fork generator
  unfold RenderState.opening
  split
  · exact ⟨{ dormant with }, owned.of_ledger (owned.inside.of_unseen ⟨rfl, rfl, rfl⟩) rfl⟩
  · exact ⟨dormant, owned⟩

/-- Nothing can have been included where no script has run. -/
theorem AtRest.of_staysOwned (rests : AtRest nodes name fork state)
    (dormant : Dormant nodes later) (stays : StaysOwned nodes name fork state later) :
    AtRest nodes name fork later := by
  refine ⟨dormant, ?_⟩
  rcases stays.2 with ⟨path, loaded⟩ | stays
  · exact absurd (dormant.passive _ loaded) Bool.false_ne_true
  · exact stays rests.owned

/-- A part that ends well is followed by a state at rest, if it is in step and keeps what is
owned. -/
theorem AtRest.of_run {α : Type} {part twin : Rendering α} {good : α → Prop}
    {failing : RenderState → Prop} (rests : AtRest nodes name fork state)
    (inStep : InStep nodes good part twin)
    (stays : Ensures part state (fun _ later => StaysOwned nodes name fork state later) failing)
    {value : α} (run : part.run state = (.ok value, later)) :
    good value ∧ AtRest nodes name fork later := by
  have ended := (inStep state rests.dormant).2
  rw [run] at ended
  exact ⟨ended.1, rests.of_staysOwned ended.2 ((ensures_of_run_ok run).1 stays)⟩

/-- A draw leaves weights of the same fork. -/
theorem AtRest.of_draw (rests : AtRest nodes name fork state) {drawsFor : Option String}
    {live rest : LiveFork} {index : Nat}
    (drew : (draw drawsFor live).run state = (.ok (rest, index), later)) :
    rest.fork = live.fork ∧ AtRest nodes name fork later :=
  rests.of_run (inStep_draw drawsFor live)
    ((staysOwned_draw drawsFor live state).imp (fun _ _ left => left.2) fun _ failed => failed) drew

theorem AtRest.referred (rests : AtRest nodes name fork state) {reference : Reference}
    (within : .reference reference ∈ nodesWithin nodes) :
    AtRest nodes name fork (state.noted (.referred reference)) :=
  rests.of_staysOwned (rests.dormant.noted rfl) (staysOwned_referred state within)

/-- Events that change nothing and tell of no script. -/
theorem AtRest.noted (rests : AtRest nodes name fork state) {event : Event}
    (quiet : Quiet event) (passive : event.isPassive = true) :
    AtRest nodes name fork (state.noted event) :=
  rests.of_staysOwned (rests.dormant.noted passive) (motion_staysOwned.quiet state quiet)

section Nested

variable (scriptless : scriptsOfNodes nodes = []) (only : DeclaredBy nodes name fork)
  {setting : Setting} {depth : Nat}
include scriptless only

/-- A node that has been rendered leaves a state at rest. -/
theorem AtRest.of_renderNode (rests : AtRest nodes name fork state) {node : Node} {text : String}
    (within : node ∈ nodesWithin nodes)
    (run : (renderNode (choice depth setting) node).run state = (.ok text, later)) :
    AtRest nodes name fork later := by
  have stays := (track_staysOwned only).follows_choice growing_choice depth setting
  cases node with
  | text content =>
    cases run
    exact rests
  | fork other =>
    exact (rests.of_run (inStep_renderFork (fun _ => inStep_choice (.inr scriptless) depth) within)
      (staysOwned_renderFork stays only within state rests.owned) run).2
  | reference reference =>
    exact (rests.of_run
      (inStep_renderReference (fun _ => inStep_choice (.inr scriptless) depth) within)
      (staysOwned_renderReference stays only within state rests.owned) run).2

theorem AtRest.of_renders {front : List Node} {texts : List String}
    (renders : Renders (choice depth setting) state front texts later)
    (within : ∀ node ∈ front, node ∈ nodesWithin nodes) (rests : AtRest nodes name fork state) :
    AtRest nodes name fork later := by
  induction renders with
  | nil state => exact rests
  | cons first rest ih =>
    obtain ⟨here, behind⟩ := List.forall_mem_cons.1 within
    exact ih behind (rests.of_renderNode scriptless only here first)

/-- What a node begins to render is a part of the nodes, and begins at rest. -/
theorem AtRest.of_begins {node : Node} {next : Choice} {start : RenderState}
    (begins : Begins (choice depth setting) node state next start)
    (within : node ∈ nodesWithin nodes) (rests : AtRest nodes name fork state) :
    next.PartOf nodes ∧ AtRest nodes name fork start := by
  cases begins with
  | @branch other _ reached _ live index branch reaches draws drew there =>
    have reachedStays : Ensures (reach other) state
        (fun _ later => StaysOwned nodes name fork state later)
        (StaysOwned nodes name fork state) :=
      ensures_reach (fun _ => staysOwned_reached state within) (staysOwned_reached state within)
    obtain ⟨-, reachedRests⟩ := rests.of_run (inStep_reach within) reachedStays reaches
    obtain ⟨same, drawnRests⟩ := reachedRests.of_draw drew
    have liveWithin : .fork live.fork ∈ nodesWithin nodes :=
      same ▸ reachedRests.dormant.liveOf within
    exact ⟨live.fork.partOf_of_branch liveWithin (List.mem_of_getElem? there), drawnRests⟩
  | @again reference _ _ target live index branch present anew drew there =>
    obtain ⟨same, drawnRests⟩ := (rests.referred within).of_draw drew
    have liveWithin : .fork live.fork ∈ nodesWithin nodes :=
      same ▸ (rests.dormant.recorded _ target present).within
    exact ⟨live.fork.partOf_of_branch liveWithin (List.mem_of_getElem? there), drawnRests⟩
  | @answer reference _ taken target live index rendered _ present took found =>
    have stands := rests.dormant.recorded _ target present
    have stays := staysOwned_branchOf ((track_staysOwned only).follows_choice growing_choice depth
      setting) reference stands.within (fun same => (rests.owned.own target (same ▸ present)).live)
      (state.noted (.referred reference))
    obtain ⟨-, takenRests⟩ := (rests.referred within).of_run
      (inStep_branchOf (fun _ => inStep_choice (.inr scriptless) depth) reference stands)
      (stays.imp (fun _ _ left => left.2) fun _ failed => failed) took
    exact ⟨reference.partOf_of_answer within found,
      takenRests.noted (.answered reference index next) rfl⟩
  | @fallback reference _ _ absent found =>
    exact ⟨reference.partOf_of_fallback within found,
      (rests.referred within).noted (.missed reference) rfl⟩

/-- Every node that is visited is one of the nodes, and begins at rest. -/
theorem AtRest.of_visits {among : List Node} {inner : Nat} {node : Node}
    (visits : Visits setting depth among state inner node later)
    (partOf : (Choice.nodes among).PartOf nodes) (rests : AtRest nodes name fork state) :
    node ∈ nodesWithin nodes ∧ AtRest nodes name fork later := by
  induction visits with
  | @here depth front node back state here texts before =>
    have within : ∀ other ∈ front ++ node :: back, other ∈ nodesWithin nodes := fun other member =>
      partOf.within (within_subset_of_mem member (Node.self_mem_within other))
    refine ⟨within node (by simp), rests.of_renders scriptless only before fun other member => ?_⟩
    exact within other (List.mem_append_left _ member)
  | inside visits begins within ihOuter ihInner =>
    obtain ⟨outerWithin, betweenRests⟩ := ihOuter partOf rests
    obtain ⟨nextPartOf, startRests⟩ := betweenRests.of_begins scriptless only begins outerWithin
    exact ihInner nextPartOf startRests

end Nested

end AtRest

/-- In every render of a document without scripts, a reference that maps every branch of the one
fork that declares its target maps the branch recorded for the target, once there is a record. By
`exists_visits_of_referred` this is said of every reference that the render tells of. -/
theorem maps_of_covers {document : Document} (scriptless : document.scripts = []) {name : String}
    {fork : Fork} (only : DeclaredBy document.nodes name fork) {reference : Reference}
    (target : reference.target = name) (covers : reference.Covers fork) {setting : Setting}
    {generator : Generator} {limit depth : Nat} {here : RenderState}
    (visits : Visits setting limit document.nodes (.opening document generator) depth
      (.reference reference) here)
    {record : Record} (found : here.ledger.get? name = some record) :
    Maps (choice depth setting) reference record here := by
  have whole : (Choice.nodes document.nodes).PartOf document.nodes :=
    ⟨List.Subset.refl _, List.Subset.refl _⟩
  have opens := atRest_opening document name fork generator
  have rests := (opens.of_visits scriptless only visits whole).2
  rw [← target] at found
  exact maps_of_recordOf covers (rests.owned.own record (target ▸ found)) found

/-- A silent set of two branches under the name `N`. -/
def twoWays : Fork :=
  ⟨some "N", true, true, [⟨.nodes [.text "a"], none⟩, ⟨.nodes [.text "b"], none⟩], ⟨0, 13⟩⟩

/-- A reference that maps both, with a fallback besides, and executes `N` again. -/
def bothMapped : Reference :=
  ⟨"N", none, false, [⟨0, .nodes [.text "x"]⟩, ⟨1, .nodes [.text "y"]⟩],
    some (.nodes [.text "fb"]), true, ⟨13, 43⟩⟩

/-- A fork declares the name `N`, and a reference to it maps both of its branches. -/
def mappedTwice : Document := ⟨[.fork twoWays, .reference bothMapped], [], []⟩

/-- Nothing was drawn from the set before: a branch is drawn, and what it is mapped to rendered. -/
theorem maps_of_covers_bothMapped :
    ∃ here record, here.ledger.get? "N" = some record ∧ record.chosen = none ∧
      Maps (choice depthLimit scriptless) bothMapped record here ∧
      ((renderReference (choice depthLimit scriptless) bothMapped).run here).1.toOption =
        some "y" := by
  have only : DeclaredBy mappedTwice.nodes "N" twoWays := by
    intro node member place declares
    have listed : node ∈ [.fork twoWays, .text "a", .text "b", .reference bothMapped, .text "x",
      .text "y", .text "fb"] := member
    simp only [List.mem_cons, List.not_mem_nil, or_false] at listed
    rcases listed with rfl | rfl | rfl | rfl | rfl | rfl | rfl
    · rfl
    all_goals cases declares
  have covers : bothMapped.Covers twoWays := by decide
  have before : Renders (choice depthLimit scriptless) (.opening mappedTwice (.ofSeed 1))
      [.fork twoWays] [""] _ := .cons (run_of_toOption (by decide +kernel)) (.nil _)
  have visits : Visits scriptless depthLimit ([.fork twoWays] ++ .reference bothMapped :: []) _ _
      (.reference bothMapped) _ := .here before
  exact ⟨_, _, rfl, rfl, maps_of_covers (by decide) only rfl covers visits rfl, by decide +kernel⟩

end Rendering

end BranchText
