import BranchText.Proofs.Render.Registrations
import BranchText.Proofs.Render.SideBySide
import BranchText.Proofs.Script.IncludeProgram

/-!
# Includes do not disturb a render

A block that includes a document leaves the generator of its render as it was, and brings nothing
but what the document hands over. So two renders of a document that runs no other scripts give the
same text, whatever is included, as long as no name of the document is brought along.
-/

namespace BranchText

namespace Fork

/-- A silent fork without a name whose only branch is a block that includes the document at a path
and does nothing else. -/
def Includes (fork : Fork) (path : String) : Prop :=
  ∃ block span, fork = ⟨none, true, false, [⟨.script block, none⟩], span⟩ ∧
    Script.Program.read? block.source = some (.including path)

end Fork

namespace Reference

/-- The mappings and the fallback of the reference neither run a script nor call a function. -/
def IsPlain (reference : Reference) : Prop :=
  (∀ mapping ∈ reference.mappings, mapping.choice.isNodes = true) ∧
    ∀ choice, reference.fallback = some choice → choice.isNodes = true

theorem IsPlain.of_answer {reference : Reference} {index : Nat} {choice : Choice}
    (plain : reference.IsPlain)
    (found : (reference.mapping? index).or reference.fallback = some choice) :
    choice.isNodes = true := by
  rcases Option.or_eq_some_iff.1 found with mapped | ⟨-, fallen⟩
  · obtain ⟨mapping, listed, rfl⟩ := Option.map_eq_some_iff.1 mapped
    exact plain.1 mapping (List.mem_of_find?_eq_some listed)
  · exact plain.2 choice fallen

end Reference

/-- The node runs no scripts but to include a document silently, and calls nothing. -/
def Node.OnlyIncludes : Node → Prop
  | .text _ => True
  | .fork point =>
    (∃ path, point.Includes path) ∨ ∀ branch ∈ point.branches, branch.choice.isNodes = true
  | .reference look => look.IsPlain

/-- The script blocks of the document include documents in silent forks of their own, and nothing
in the document is a call. -/
def Document.OnlyIncludes (document : Document) : Prop :=
  ∀ node ∈ nodesWithin document.nodes, node.OnlyIncludes

namespace Rendering

/-! ## Blocks that include -/

section Blocks

variable {fetch other : String → Rendering Included} {setting : Setting} {block : ScriptBlock}
  {path : String}

theorem run_forM_warn (warnings : List Warning) (state : RenderState) :
    (warnings.forM warn).run state =
      (.ok (), { state with warnings := state.warnings ++ warnings }) := by
  have ended := (@ensures_forM_warn state
    (fun _ later => later = { state with warnings := state.warnings ++ warnings })
    (fun _ => False) warnings).2 rfl
  unfold Ensures at ended
  split at ended
  · rename_i value later run
    rw [run, ended]
  · exact ended.elim

/-- The program that includes a document, run against a render: it fetches the document, and
gathers nothing else. -/
theorem run_host_including (session : Nat) (state : RenderState) :
    (host fetch session (Script.Program.including path).run).run state =
      match (fetch path).run state with
      | (.ok document, later) =>
        (.ok ((.ok ("" ++ document.text), ⟨[], #[]⟩), .ok [.included document]), later)
      | (.error error, later) =>
        (.ok ((.error ⟨some ("include(\"" ++ path ++ "\") failed: " ++ error.message)⟩, ⟨[], #[]⟩),
          .error error), later) := by
  have fetched : (fetch path).run.run state = (fetch path).run state := rfl
  have lifted : ∀ script : StateM RenderState
      ((Except Script.Raised String × Script.Session) × Gathered),
      (ExceptT.lift script : Rendering _).run state =
        (.ok (script.run state).1, (script.run state).2) := fun _ => rfl
  rw [Script.run_including, host, run_bind, lifted]
  simp only [Script.Exchange.run_ask, Hosting.answer, StateT.run_bind, StateT.run_lift, fetched]
  rcases (fetch path).run state with ⟨error | document, later⟩
  · rfl
  · rfl

/-- A block that includes a document puts out its text and takes over what it hands over, or fails
as fetching it did. -/
theorem run_runScript_including (allowed : setting.allowScripts = true)
    (reads : Script.Program.read? block.source = some (.including path)) (state : RenderState) :
    (runScript fetch setting block).run state =
      match (fetch path).run (state.starting block) with
      | (.ok document, later) =>
        (.ok ("" ++ document.text), mergedState document
          { later with
            warnings := later.warnings ++ (ScriptBlock.idleWarning? block.source
              ("" ++ document.text) 1 block.span.start).toList
            sessions := later.sessions.push ⟨[], #[]⟩ })
      | (.error error, later) => (.error error, later) := by
  have hosted := @run_host_including fetch path (state.starting block).sessions.size
    (state.starting block)
  rw [runScript, allowed, reads]
  change (List.forM _ warn >>= _).run (state.noted (.ran block)) = _
  rw [run_bind, run_forM_warn]
  change (host fetch (state.starting block).sessions.size
    (Script.Program.including path).run >>= _).run (state.starting block) = _
  rw [run_bind, hosted]
  rcases (fetch path).run (state.starting block) with ⟨error | document, later⟩
  · rfl
  · change (List.forM _ warn >>= _).run later = _
    rw [run_bind, run_forM_warn]
    rfl

/-- What fetching a document does to the render that asks for it: nothing is changed but the events,
and an error is that of an include. -/
def Fetches (fetch : String → Rendering Included) : Prop :=
  ∀ path state, (∃ events, ((fetch path).run state).2 = { state with events := events }) ∧
    ∀ error, ((fetch path).run state).1 = .error error → error.isFromInclude = true

/-- Rendering an included document leaves the render that asks for it as it was. -/
theorem fetches_renderIncluded (child : Setting → List Node → Rendering String)
    (setting : Setting) : Fetches (renderIncluded child setting) := by
  intro path state
  have noted : ∀ (event : Event) (next : Unit → Rendering Included) (state : RenderState),
      (note event >>= next).run state = (next ()).run (state.noted event) := fun _ _ _ => rfl
  have got : ∀ (next : RenderState → Rendering Included) (state : RenderState),
      (get >>= next).run state = (next state).run state := fun _ _ => rfl
  unfold renderIncluded
  rw [noted]
  cases setting.loader (Path.join setting.directory path) with
  | error error =>
    refine ⟨⟨_, rfl⟩, fun other failed => ?_⟩
    cases failed
    rfl
  | ok source =>
    simp only
    cases Document.read source.toList with
    | error error =>
      refine ⟨⟨_, rfl⟩, fun other failed => ?_⟩
      cases failed
      rfl
    | ok document =>
      simp only [got, noted]
      split
      · refine ⟨⟨_, rfl⟩, fun other failed => ?_⟩
        cases failed
        rfl
      · exact ⟨⟨_, rfl⟩, fun other failed => by cases failed⟩

/-- What an include brings that has no record of a name leaves the record of that name alone. -/
theorem ledger_mergedState {document : Included} {name : String}
    (absent : document.ledger.get? name = none) (state : RenderState) :
    (mergedState document state).ledger.get? name = state.ledger.get? name := by
  refine Table.get?_extend_of_absent fun entry member => ?_
  obtain ⟨given, listed, rfl⟩ := List.mem_map.1 member
  exact Table.get?_eq_none_iff.1 absent given listed

/-- A block that includes a document leaves the generator as it was, whether it ends well or
fails. -/
theorem generator_runScript (fetches : Fetches fetch)
    (reads : Script.Program.read? block.source = some (.including path)) (state : RenderState) :
    ((runScript fetch setting block).run state).2.generator = state.generator := by
  cases allowed : setting.allowScripts with
  | false =>
    rw [run_runScript_disabled allowed]
    rfl
  | true =>
    obtain ⟨⟨events, kept⟩, -⟩ := fetches path (state.starting block)
    rw [run_runScript_including allowed reads]
    generalize (fetch path).run (state.starting block) = fetched at kept
    obtain ⟨error | document, later⟩ := fetched
    · cases kept
      rfl
    · cases kept
      rfl

/-- Blocks that include at the same place leave aligned renders aligned. -/
theorem alike_runScript {nodes : List Node} {twin : Setting} (fetches : Fetches fetch)
    (otherFetches : Fetches other) (permitted : setting.allowScripts = twin.allowScripts)
    (reads : Script.Program.read? block.source = some (.including path)) :
    Alike nodes (fun _ _ => True) (runScript fetch setting block) (runScript other twin block) := by
  intro left right aligned
  unfold Agree
  cases allowed : setting.allowScripts with
  | false =>
    rw [run_runScript_disabled allowed, run_runScript_disabled (permitted ▸ allowed)]
    exact .inr (.inr (.failed _ _ _))
  | true =>
    obtain ⟨⟨events, kept⟩, fails⟩ := fetches path (left.starting block)
    obtain ⟨⟨otherEvents, otherKept⟩, otherFails⟩ := otherFetches path (right.starting block)
    rw [run_runScript_including allowed reads, run_runScript_including (permitted ▸ allowed) reads]
    generalize (fetch path).run (left.starting block) = fetched at kept fails
    generalize (other path).run (right.starting block) = otherFetched at otherKept otherFails
    obtain ⟨error | document, later⟩ := fetched
    · exact .inl (.inl ⟨error, rfl, fails error rfl⟩)
    · obtain ⟨error | brought, after⟩ := otherFetched
      · exact .inr (.inl (.inl ⟨error, rfl, otherFails error rfl⟩))
      · cases kept
        cases otherKept
        by_cases absent : ∀ name ∈ namesWithin nodes, document.ledger.get? name = none
        · by_cases otherAbsent : ∀ name ∈ namesWithin nodes, brought.ledger.get? name = none
          · refine .inr (.inr (.ended trivial ?_))
            refine { aligned with ledger := fun name known => ?_, recorded := ?_ }
            · rw [ledger_mergedState (absent name known),
                ledger_mergedState (otherAbsent name known)]
              exact aligned.ledger name known
            · intro name known entry found
              rw [ledger_mergedState (absent name known)] at found
              exact aligned.recorded name known entry found
          · exact .inr (.inl (.inr (brings_of_merged (List.mem_cons_self ..) otherAbsent)))
        · exact .inl (.inr (brings_of_merged (List.mem_cons_self ..) absent))

end Blocks

section Steps

variable {nodes : List Node} {nested twin : Choice → Rendering String}

/-- What two renderings of choices have to do with one another: neither takes events back, nodes
within the nodes are rendered alike, and so are, but for their texts, blocks that include. -/
structure Twins (nodes : List Node) (nested twin : Choice → Rendering String) : Prop where
  grows : Growing nested
  twinGrows : Growing twin
  alike : ∀ choice, choice.isNodes = true → choice.within ⊆ nodesWithin nodes →
    Alike nodes Eq (nested choice) (twin choice)
  includes : ∀ block path, Script.Program.read? block.source = some (.including path) →
    Alike nodes (fun _ _ => True) (nested (.script block)) (twin (.script block))

variable (twins : Twins nodes nested twin)
include twins

theorem alike_renderBranch {fork : Fork} (settled : Settled nodes fork) (index : Nat) :
    Alike nodes Eq (renderBranch nested fork index) (renderBranch twin fork index) := by
  unfold renderBranch
  split
  · rename_i branch found
    have member := List.mem_of_getElem? found
    exact twins.alike _ (settled.2 branch member) (List.Subset.trans (Fork.branch_within member)
      (within_subset_nodesWithin nodes _ settled.1))
  · exact alike_pure rfl

/-- Executions are alike if the branches are. -/
theorem alike_execute {same : String → String → Prop} (name : Option String) (live : LiveFork)
    (branches : ∀ index, Alike nodes same (renderBranch nested live.fork index)
      (renderBranch twin live.fork index)) :
    Alike nodes (fun outcome other => outcome.1 = other.1 ∧ outcome.1.fork = live.fork ∧
        outcome.2.1 = other.2.1 ∧ same outcome.2.2 other.2.2)
      (execute nested name live) (execute twin name live) := by
  have grows : ∀ {nested : Choice → Rendering String}, Growing nested → ∀ drawn : LiveFork × Nat,
      Follows Grows Grows (do
        let rendered ← renderBranch nested drawn.1.fork drawn.2
        note (.finished name drawn.1)
        return (drawn.1, drawn.2, rendered)) := fun growing drawn =>
    motion_grows.follows_bind (motion_grows.follows_renderBranch (fun _ _ => growing _) _)
      fun rendered => motion_grows.follows_bind (grows_note _) fun _ => motion_grows.follows_pure _
  unfold execute
  refine (alike_draw name live).bind (grows twins.grows) (grows twins.twinGrows) ?_
  rintro ⟨live', index⟩ _ ⟨rfl, same⟩
  simp only at same
  simp only [same]
  refine (branches index).bind (fun rendered => motion_grows.follows_bind (grows_note _)
    fun _ => motion_grows.follows_pure _) (fun rendered => motion_grows.follows_bind (grows_note _)
    fun _ => motion_grows.follows_pure _) fun rendered other related => ?_
  exact alike_note _ (alike_pure ⟨rfl, same, rfl, related⟩)


/-- Executed branches that are settled give the same text. -/
theorem alike_execute_settled (name : Option String) {live : LiveFork}
    (settled : Settled nodes live.fork) :
    Alike nodes (fun outcome other => outcome = other ∧ Settled nodes outcome.1.fork)
      (execute nested name live) (execute twin name live) := fun left right aligned => by
  refine (alike_execute twins name live (alike_renderBranch twins settled) left right
    aligned).imp ?_
  rintro ⟨live', index, rendered⟩ ⟨_, _, _⟩ ⟨rfl, same, rfl, rfl⟩
  exact ⟨rfl, same ▸ settled⟩

omit twins in
/-- What comes after a fork has been reached takes no event back. -/
theorem grows_afterReach (growing : Growing nested) (fork : Fork) :
    Follows Grows Grows (if (fork.silent && fork.isSet) = true then do
        modify (·.registering fork)
        return ""
      else do
        let outcome ← execute nested fork.identifier ((← get).liveOf fork)
        modify (·.keeping fork outcome.1 outcome.2.1 outcome.2.2)
        return outcome.2.2) := by
  split
  · exact motion_grows.follows_bind (grows_modify fun _ => RenderState.registering_events ..)
      fun _ => motion_grows.follows_pure _
  · refine fun state => motion_grows.follows_bind (grows_execute growing _ (state.liveOf fork))
      (fun outcome => ?_) state
    exact motion_grows.follows_bind (grows_modify fun _ => RenderState.keeping_events ..)
      fun _ => motion_grows.follows_pure _

omit twins in
theorem grows_keepOutcome (fork : Fork) (outcome : LiveFork × Nat × String) :
    Follows Grows Grows (do
      modify (·.keeping fork outcome.1 outcome.2.1 outcome.2.2)
      return outcome.2.2 : Rendering String) :=
  motion_grows.follows_bind (grows_modify fun _ => RenderState.keeping_events ..)
    fun _ => motion_grows.follows_pure _

/-- A fork that does not run scripts renders alike. -/
theorem alike_renderFork {fork : Fork} (settled : Settled nodes fork) :
    Alike nodes Eq (renderFork nested fork) (renderFork twin fork) := by
  have known := identifier_mem_names settled.1
  unfold renderFork
  refine (alike_reach settled.1).bind (fun _ => grows_afterReach twins.grows fork)
    (fun _ => grows_afterReach twins.twinGrows fork) fun _ _ _ => ?_
  split
  · exact (alike_modify fun _ _ aligned => aligned.registering settled known).map
      fun _ _ _ => rfl
  · refine alike_get fun left right aligned => ?_
    rw [← aligned.liveOf known]
    refine (alike_execute_settled twins _ (aligned.settled_liveOf settled known) left right
      aligned).bind (grows_keepOutcome fork) (grows_keepOutcome fork) ?_
    rintro outcome _ ⟨rfl, settledLive⟩
    exact (alike_modify fun _ _ aligned => aligned.keeping settledLive fork _ _).map
      fun _ _ _ => rfl

/-- The branch of a fork that includes a document renders alike but for its text. -/
theorem alike_renderBranch_include {fork : Fork} {path : String} (includes : fork.Includes path)
    (index : Nat) :
    Alike nodes (fun _ _ => True) (renderBranch nested fork index)
      (renderBranch twin fork index) := by
  obtain ⟨block, span, rfl, reads⟩ := includes
  cases index with
  | zero => exact twins.includes block path reads
  | succ index => exact alike_pure trivial

/-- A fork that includes a document renders alike but for its text. -/
theorem alike_renderFork_include {fork : Fork} {path : String}
    (within : .fork fork ∈ nodesWithin nodes) (includes : fork.Includes path) :
    Alike nodes (fun _ _ => True) (renderFork nested fork) (renderFork twin fork) := by
  have branches := alike_renderBranch_include twins includes
  obtain ⟨block, span, rfl, reads⟩ := includes
  unfold renderFork
  refine (alike_reach within).bind (fun _ => grows_afterReach twins.grows _)
    (fun _ => grows_afterReach twins.twinGrows _) fun _ _ _ => ?_
  refine alike_get fun left right aligned => ?_
  refine (alike_execute twins none (.ofFork _) branches left right aligned).bind
    (grows_keepOutcome _) (grows_keepOutcome _) fun outcome other _ => ?_
  exact (alike_modify fun _ _ aligned => aligned).map fun _ _ _ => trivial

theorem alike_branchOf {reference : Reference} {target : Record}
    (settled : Settled nodes target.live.fork) :
    Alike nodes (fun taken other => taken = other ∧ Settled nodes taken.1.fork)
      (branchOf nested reference target) (branchOf twin reference target) := by
  unfold branchOf
  split
  · exact alike_pure ⟨rfl, settled⟩
  · refine (alike_execute_settled twins _ settled).bind ?_ ?_ ?_
    · exact fun outcome => motion_grows.follows_bind (grows_modify fun _ => rfl)
        fun _ => motion_grows.follows_pure _
    · exact fun outcome => motion_grows.follows_bind (grows_modify fun _ => rfl)
        fun _ => motion_grows.follows_pure _
    · rintro outcome _ ⟨rfl, settledLive⟩
      exact (alike_modify fun _ _ aligned => aligned.recording settledLive _).map
        fun _ _ _ => ⟨rfl, settledLive⟩

section References

variable {reference : Reference} (within : .reference reference ∈ nodesWithin nodes)
include within

theorem alike_answer (plain : reference.IsPlain) (index : Nat) (rendered : String) :
    Alike nodes Eq (answer nested reference index rendered) (answer twin reference index rendered) := by
  unfold answer
  split
  · exact alike_pure rfl
  · split
    · rename_i choice found
      exact alike_note _ (twins.alike choice (plain.of_answer found)
        (List.Subset.trans (Reference.answer_within found) (within_subset_nodesWithin nodes _ within)))
    · exact alike_warn _ (alike_pure rfl)

theorem alike_answerAbsent (plain : reference.IsPlain) :
    Alike nodes Eq (answerAbsent nested reference) (answerAbsent twin reference) := by
  unfold answerAbsent
  refine alike_note _ ?_
  split
  · exact alike_throw _
  · split
    · rename_i choice found
      exact twins.alike choice (plain.2 choice found)
        (List.Subset.trans (Reference.fallback_within found)
          (within_subset_nodesWithin nodes _ within))
    · exact alike_warn _ (alike_pure rfl)

omit twins in
theorem alike_nameOutcome {live : LiveFork} (settled : Settled nodes live.fork) (index : Nat)
    (output : String) :
    Alike nodes Eq (nameOutcome reference live index output)
      (nameOutcome reference live index output) := by
  unfold nameOutcome
  split
  · rename_i name identifier
    refine (alike_checkUnique (ownName_mem_names within name identifier) _ _).bind
      (fun _ => grows_modify fun _ => rfl) (fun _ => grows_modify fun _ => rfl) fun _ _ _ => ?_
    exact alike_modify fun _ _ aligned => aligned.recording settled _
  · exact alike_pure rfl

omit twins within in
theorem grows_nameOutcome (live : LiveFork) (index : Nat) (output : String) :
    Follows Grows Grows (nameOutcome reference live index output) := fun _ =>
  ensures_nameOutcome (fun _ => grows_naming ..) List.suffix_rfl

/-- References to the nodes render alike. -/
theorem alike_renderReference (plain : reference.IsPlain) :
    Alike nodes Eq (renderReference nested reference) (renderReference twin reference) := by
  have namingGrows : ∀ (taken : LiveFork × Nat × String) (output : String),
      Follows Grows Grows (do
        nameOutcome reference taken.1 taken.2.1 output
        return output) := fun taken output =>
    motion_grows.follows_bind (grows_nameOutcome _ _ _) fun _ => motion_grows.follows_pure _
  have answerGrows : ∀ {nested : Choice → Rendering String}, Growing nested →
      ∀ taken : LiveFork × Nat × String, Follows Grows Grows (do
        let output ← answer nested reference taken.2.1 taken.2.2
        nameOutcome reference taken.1 taken.2.1 output
        return output) := fun growing taken =>
    motion_grows.follows_bind (motion_grows.follows_answer (fun _ _ _ => growing _) _ _)
      (namingGrows taken)
  unfold renderReference
  refine alike_note _ (alike_recorded (target_mem_names within) fun entry settled => ?_)
  cases entry with
  | none => exact alike_answerAbsent twins within plain
  | some target =>
    refine (alike_branchOf twins (settled target rfl)).bind (answerGrows twins.grows)
      (answerGrows twins.twinGrows) ?_
    rintro taken _ ⟨rfl, settledLive⟩
    refine (alike_answer twins within plain _ _).bind (namingGrows taken) (namingGrows taken) ?_
    rintro output _ rfl
    exact (alike_nameOutcome within settledLive _ _).map fun _ _ _ => rfl

end References

/-! ## Whole renders -/

/-- Nodes within the nodes leave aligned lines aligned. -/
theorem alike_addNode (startsLine : Bool) (line : Line) {node : Node}
    (within : node ∈ nodesWithin nodes) (plain : node.OnlyIncludes) :
    Alike nodes Eq (addNode nested startsLine line node) (addNode twin startsLine line node) := by
  cases node with
  | text content => exact alike_pure rfl
  | fork fork =>
    rcases plain with ⟨path, includes⟩ | plain
    · have silent : fork.silent = true := by
        obtain ⟨block, span, rfl, -⟩ := includes
        rfl
      refine (alike_renderFork_include twins within includes).map fun rendered other _ => ?_
      simp only [silent, Line.addRendered, if_true]
    · refine (alike_renderFork twins ⟨within, plain⟩).map ?_
      rintro rendered _ rfl
      rfl
  | reference reference =>
    refine (alike_renderReference twins within plain).map ?_
    rintro rendered _ rfl
    rfl

omit twins in
theorem grows_addNode (growing : Growing nested) (startsLine : Bool) (line : Line) (node : Node) :
    Follows Grows Grows (addNode nested startsLine line node) := by
  cases node with
  | text content => exact motion_grows.follows_pure _
  | fork fork =>
    refine motion_grows.follows_bind (fun state => ?_) fun _ => motion_grows.follows_pure _
    exact (grows_renderFork growing fork state).imp (fun _ _ => (grows_noted state _).trans)
      fun _ => (grows_noted state _).trans
  | reference reference =>
    refine motion_grows.follows_bind (fun state => ?_) fun _ => motion_grows.follows_pure _
    exact (grows_renderReference growing reference state).imp
      (fun _ _ => (grows_noted state _).trans) fun _ => (grows_noted state _).trans

/-- Nodes render alike if the choices within them do. -/
theorem alike_renderNodes (plain : ∀ node ∈ nodesWithin nodes, node.OnlyIncludes)
    {inner : List Node} (within : nodesWithin inner ⊆ nodesWithin nodes) (startsLine : Bool) :
    Alike nodes Eq (renderNodes nested inner startsLine) (renderNodes twin inner startsLine) := by
  unfold renderNodes
  refine (alike_foldlM inner ?_ (grows_addNode twins.grows startsLine)
    (grows_addNode twins.twinGrows startsLine) _).map ?_
  · intro line node member
    have here : node ∈ nodesWithin nodes :=
      within (within_subset_of_mem member (Node.self_mem_within node))
    exact alike_addNode twins startsLine line here (plain node here)
  · rintro line _ rfl
    rfl

end Steps

/-- Two settings that differ in what can be included render choices alike, at every depth. -/
theorem twins_choice {nodes : List Node} (plain : ∀ node ∈ nodesWithin nodes, node.OnlyIncludes)
    {setting twin : Setting} (permitted : setting.allowScripts = twin.allowScripts) (depth : Nat) :
    Twins nodes (choice depth setting) (choice depth twin) := by
  induction depth with
  | zero =>
    exact ⟨growing_choice 0 setting, growing_choice 0 twin, fun _ _ _ => alike_throw _,
      fun _ _ _ => alike_throw _⟩
  | succ depth ih =>
    refine ⟨growing_choice _ setting, growing_choice _ twin, ?_, ?_⟩
    · intro found isNodes within
      cases found with
      | nodes inner => exact alike_renderNodes ih plain within false
      | script block => cases isNodes
      | call call => cases isNodes
    · intro block path reads
      exact alike_runScript (fetches_renderIncluded _ setting) (fetches_renderIncluded _ twin)
        permitted reads

theorem aligned_initial (nodes : List Node) (generator : Generator) :
    Aligned nodes (.initial generator) (.initial generator) where
  generator := rfl
  ledger _ _ := rfl
  anonymousSets := rfl
  recorded _ _ _ found := by cases found
  kept _ _ found := by cases found

/-- Two renders of a document that runs no scripts but to include give the same, as long as no
include fails and none brings a name of the document. -/
theorem alike_document {document : Document} (plain : document.OnlyIncludes)
    {setting twin : Setting} (permitted : setting.allowScripts = twin.allowScripts) :
    Alike document.nodes Eq (Rendering.document setting document)
      (Rendering.document twin document) := by
  have rendered := alike_renderNodes (twins_choice plain permitted depthLimit) plain
    (List.Subset.refl _) true
  unfold Rendering.document renderWhole
  split
  · exact alike_warn _ rendered
  · exact rendered

/-- The fork that includes the library in the opening. -/
def openingFork : Fork :=
  ⟨none, true, false, [⟨.script ⟨"include(\"lib.txt\")", ⟨3, 23⟩⟩, none⟩], ⟨0, 24⟩⟩

/-- A document that includes another one, draws from a fork and looks back at it. -/
def opening : Document :=
  ⟨[.fork openingFork,
    .fork ⟨some "N", false, false,
      [⟨.nodes [.text "a"], none⟩, ⟨.nodes [.text "b"], none⟩], ⟨24, 37⟩⟩,
    .text " ",
    .reference ⟨"N", none, false, [⟨0, .nodes [.text "c"]⟩, ⟨1, .nodes [.text "d"]⟩], none, false,
      ⟨38, 60⟩⟩], [], []⟩

/-- The names in the ledgers that were taken over. -/
def broughtNames (events : List Event) : List String :=
  events.flatMap fun
    | .merged _ ledger => ledger.entries.map (·.1)
    | _ => []

theorem absent_of_broughtNames {events : List Event} {path : String} {ledger : Table String Record}
    (member : .merged path ledger ∈ events) {name : String} (absent : name ∉ broughtNames events) :
    ledger.get? name = none := by
  refine Table.get?_eq_none_iff.2 fun entry listed same => absent ?_
  exact List.mem_flatMap.2 ⟨_, member, List.mem_map.2 ⟨entry, listed, same⟩⟩

theorem read?_library :
    Script.Program.read? "include(\"lib.txt\")" = some (.including "lib.txt") := by
  have spelled : "include(\"lib.txt\")" = "include(\"" ++ "lib.txt" ++ "\")" := by decide +kernel
  rw [spelled]
  exact Script.read?_include (by decide +kernel)

theorem openingFork_includes : openingFork.Includes "lib.txt" := ⟨_, _, rfl, read?_library⟩

theorem opening_onlyIncludes : opening.OnlyIncludes := by
  have listed : nodesWithin opening.nodes = .fork openingFork :: nodesWithin opening.nodes.tail := rfl
  intro node member
  rw [listed] at member
  rcases List.mem_cons.1 member with rfl | later
  · exact .inl ⟨"lib.txt", openingFork_includes⟩
  · simp only [opening, List.tail_cons, nodesWithin, Node.within, withinBranches, withinMappings,
      withinFallback, Choice.within, List.append_nil, List.cons_append, List.nil_append,
      List.mem_cons, List.not_mem_nil, or_false] at later
    rcases later with rfl | rfl | rfl | rfl | rfl | rfl | rfl
    all_goals simp [Node.OnlyIncludes, Reference.IsPlain, Choice.isNodes]

/-- A library of two forks with five branches. -/
def manyForks : String := "\x7bM: (x), (y), (z)\x7d \x7b(p), (q)\x7d"

/-- A library of one fork with a single branch. -/
def oneFork : String := "\x7bM: (x)\x7d"

/-- A setting in which the library can be included. -/
def shelf (library : String) : Loader := .ofDocuments [("./lib.txt", library)]

/-- How the render of the opening ends with a library. -/
def endOfOpening (library : String) : Except RenderError String × RenderState :=
  (Rendering.document ⟨true, ".", shelf library⟩ opening).run (.initial (.ofSeed 1))

end Rendering

end BranchText
