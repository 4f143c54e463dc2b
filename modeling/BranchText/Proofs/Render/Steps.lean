import BranchText.Proofs.Chance.Replacement
import BranchText.Proofs.Render.Follows

/-!
# The steps of forks and references

What forks and references ensure, in terms of the choices they render: which branch they draw from
which weights, and what they leave in the ledger.
-/

namespace BranchText

namespace RenderState

/-- The node at the offset can declare the name: it already does, or no other node of the document
does. -/
def Free (state : RenderState) (name : String) (offset : Nat) : Prop :=
  ∀ entry, state.ledger.get? name = some entry →
    entry.origin = .declared offset ∨ entry.origin = .imported

/-- Records the outcome of a reference that has a name. -/
def naming (state : RenderState) (reference : Reference) (live : LiveFork) (index : Nat)
    (output : String) : RenderState :=
  match reference.identifier with
  | some name => state.recording name ⟨live, some index, output, .declared reference.span.start⟩
  | none => state

/-- Where the live weights of a fork that is reached come from. -/
inductive LiveSource (state : RenderState) (fork : Fork) : LiveFork → Prop
  | full : LiveSource state fork (.ofFork fork)
  | recorded {name : String} {entry : Record} (identifier : fork.identifier = some name)
    (found : state.ledger.get? name = some entry)
    (origin : entry.origin = .declared fork.span.start) : LiveSource state fork entry.live
  | kept {live : LiveFork} (unnamed : fork.identifier = none) (isSet : fork.isSet = true)
    (found : state.anonymousSets.get? fork.span.start = some live) : LiveSource state fork live

theorem liveOf_source (state : RenderState) (fork : Fork) :
    LiveSource state fork (state.liveOf fork) := by
  unfold liveOf
  split
  · rename_i name identifier
    split
    · rename_i entry found
      split
      · rename_i origin
        exact .recorded identifier found origin
      · exact .full
    · exact .full
  · rename_i unnamed
    split
    · rename_i isSet
      cases found : state.anonymousSets.get? fork.span.start with
      | none => exact .full
      | some live => exact .kept unnamed isSet found
    · exact .full

@[simp]
theorem recording_events (state : RenderState) (name : String) (entry : Record) :
    (state.recording name entry).events = state.events := rfl

@[simp]
theorem recording_anonymousSets (state : RenderState) (name : String) (entry : Record) :
    (state.recording name entry).anonymousSets = state.anonymousSets := rfl

@[simp]
theorem registering_events (state : RenderState) (fork : Fork) :
    (state.registering fork).events = state.events := by
  unfold registering
  split
  · rfl
  · split <;> rfl

@[simp]
theorem keeping_events (state : RenderState) (fork : Fork) (live : LiveFork) (index : Nat)
    (rendered : String) : (state.keeping fork live index rendered).events = state.events := by
  unfold keeping
  split
  · rfl
  · split <;> rfl

@[simp]
theorem naming_events (state : RenderState) (reference : Reference) (live : LiveFork)
    (index : Nat) (output : String) :
    (state.naming reference live index output).events = state.events := by
  unfold naming
  split <;> rfl

theorem get?_recording (state : RenderState) (name other : String) (entry : Record) :
    (state.recording name entry).ledger.get? other =
      if other = name then some entry else state.ledger.get? other :=
  Table.get?_insert ..

theorem get?_recording_self (state : RenderState) (name : String) (entry : Record) :
    (state.recording name entry).ledger.get? name = some entry := by
  rw [get?_recording, if_pos rfl]

end RenderState

namespace Rendering

variable {nested : Choice → Rendering String} {state : RenderState}
  {failing : RenderState → Prop}

theorem ensures_checkUnique {name : String} {offset : Nat} {good : Unit → RenderState → Prop}
    (free : state.Free name offset → good () state) (taken : failing state) :
    Ensures (checkUnique name (.declared offset) offset) state good failing := by
  unfold checkUnique
  rw [ensures_bind, ensures_recorded]
  split
  · rename_i live chosen rendered existing found
    split
    · rename_i same
      refine free fun entry present => .inl ?_
      rw [found] at present
      cases present
      exact same
    · exact taken
  · rename_i undeclared
    refine free fun entry present => ?_
    obtain ⟨live, chosen, rendered, origin⟩ := entry
    cases origin with
    | declared existing => exact (undeclared _ _ _ _ present).elim
    | imported => exact .inr rfl

/-- A draw fails if the weights allow none; else the branch is noted. -/
theorem ensures_draw {name : Option String} {live : LiveFork}
    {good : LiveFork × Nat → RenderState → Prop}
    (failed : ∀ after, Unseen state after → failing after)
    (drawn : ∀ draw rest after, live.deck.Deals Generator.below draw rest →
      Unseen (state.noted (.drew name live draw)) after → good (⟨live.fork, rest⟩, draw.index) after) :
    Ensures (draw name live) state good failing := by
  unfold draw
  simp only [ensures_bind, ensures_get, ensures_set]
  rcases dealt : live.deck.draw Generator.below state.generator with ⟨none | drawn', rest, later⟩
  · exact failed _ ⟨rfl, rfl, rfl⟩
  · simp only [ensures_bind, ensures_note]
    have deals : live.deck.Deals Generator.below drawn' rest := ⟨_, _, dealt⟩
    split
    · exact drawn _ _ _ deals ⟨rfl, rfl, rfl⟩
    · exact drawn _ _ _ deals ⟨rfl, rfl, rfl⟩

/-- What an execution ensures: a branch is drawn, then rendered, then noted to be finished. -/
theorem ensures_execute {name : Option String} {live : LiveFork}
    {good : LiveFork × Nat × String → RenderState → Prop}
    (failed : ∀ after, Unseen state after → failing after)
    (drawn : ∀ draw rest after, live.deck.Deals Generator.below draw rest →
      Unseen (state.noted (.drew name live draw)) after →
        Ensures (renderBranch nested live.fork draw.index) after
          (fun rendered later => good (⟨live.fork, rest⟩, draw.index, rendered)
            (later.noted (.finished name ⟨live.fork, rest⟩))) failing) :
    Ensures (execute nested name live) state good failing := by
  unfold execute
  rw [ensures_bind]
  refine ensures_draw failed fun draw rest after deals drew => ?_
  rw [ensures_bind]
  exact drawn draw rest after deals drew

/-- A fork can be reached unless its name is taken. -/
theorem ensures_reach {fork : Fork} {good : Unit → RenderState → Prop}
    (free : (∀ name, fork.identifier = some name → state.Free name fork.span.start) →
      good () (state.noted (.reached fork)))
    (taken : failing (state.noted (.reached fork))) :
    Ensures (reach fork) state good failing := by
  unfold reach
  rw [ensures_bind, ensures_note]
  split
  · rename_i name identifier
    refine ensures_checkUnique (fun here => free fun other same => ?_) taken
    rw [identifier, Option.some.injEq] at same
    subst same
    exact here
  · rename_i identifier
    refine free fun other same => ?_
    rw [identifier] at same
    cases same

/-- What a fork ensures: unless its name is taken it leaves its record, or is executed. -/
theorem ensures_renderFork {fork : Fork} {good : String → RenderState → Prop}
    (taken : failing (state.noted (.reached fork)))
    (registers : fork.silent = true → fork.isSet = true →
      (∀ name, fork.identifier = some name → state.Free name fork.span.start) →
        good "" ((state.noted (.reached fork)).registering fork))
    (executes : ¬ (fork.silent && fork.isSet) = true →
      (∀ name, fork.identifier = some name → state.Free name fork.span.start) →
      Ensures (execute nested fork.identifier (state.liveOf fork)) (state.noted (.reached fork))
        (fun outcome later => good outcome.2.2
          (later.keeping fork outcome.1 outcome.2.1 outcome.2.2)) failing) :
    Ensures (renderFork nested fork) state good failing := by
  unfold renderFork
  rw [ensures_bind]
  refine ensures_reach (fun free => ?_) taken
  split
  · rename_i silentSet
    rw [Bool.and_eq_true] at silentSet
    exact registers silentSet.1 silentSet.2 free
  · rename_i drawn
    simp only [ensures_bind, ensures_get]
    exact executes drawn free

/-- The outcome of a reference is recorded unless its name is taken. -/
theorem ensures_nameOutcome {reference : Reference} {live : LiveFork} {index : Nat}
    {output : String} {good : Unit → RenderState → Prop}
    (free : (∀ name, reference.identifier = some name → state.Free name reference.span.start) →
      good () (state.naming reference live index output))
    (taken : failing state) :
    Ensures (nameOutcome reference live index output) state good failing := by
  unfold nameOutcome
  unfold RenderState.naming at free
  split
  · rename_i name identifier
    rw [identifier] at free
    rw [ensures_bind]
    refine ensures_checkUnique (fun here => free fun other same => ?_) taken
    rw [Option.some.injEq] at same
    subst same
    exact here
  · rename_i identifier
    rw [identifier] at free
    exact free fun other same => by cases same

/-- What a reference ensures: without a record it falls back, and else it answers to a branch of
its target and is recorded under its own name. -/
theorem ensures_renderReference {reference : Reference} {good : String → RenderState → Prop}
    (absent : state.ledger.get? reference.target = none →
      Ensures (answerAbsent nested reference) (state.noted (.referred reference)) good failing)
    (present : ∀ target, state.ledger.get? reference.target = some target →
      Ensures (branchOf nested reference target) (state.noted (.referred reference))
        (fun taken later => Ensures (answer nested reference taken.2.1 taken.2.2) later
          (fun output after => failing after ∧
            ((∀ name, reference.identifier = some name → after.Free name reference.span.start) →
              good output (after.naming reference taken.1 taken.2.1 output))) failing) failing) :
    Ensures (renderReference nested reference) state good failing := by
  unfold renderReference
  simp only [ensures_bind, ensures_note, ensures_recorded]
  cases found : state.ledger.get? reference.target with
  | none => exact absent found
  | some target =>
    simp only [ensures_bind]
    refine (present target found).imp (fun taken later taking => ?_) fun _ failed => failed
    refine taking.imp (fun output after named => ?_) fun _ failed => failed
    exact ensures_nameOutcome named.2 named.1

/-- A reference whose target has a record answers to a branch of it. -/
theorem run_renderReference {reference : Reference} {target : Record}
    (found : state.ledger.get? reference.target = some target) :
    (renderReference nested reference).run state =
      (branchOf nested reference target >>= fun taken =>
        answer nested reference taken.2.1 taken.2.2 >>= fun output =>
          nameOutcome reference taken.1 taken.2.1 output >>= fun _ => pure output).run
        (state.noted (.referred reference)) := by
  have noted : ∀ next : Unit → Rendering String, (note (.referred reference) >>= next).run state =
      (next ()).run (state.noted (.referred reference)) := fun _ => rfl
  have read : ∀ next : Option Record → Rendering String,
      (recorded reference.target >>= next).run (state.noted (.referred reference)) =
        (next (some target)).run (state.noted (.referred reference)) := by
    intro next
    rw [← found]
    rfl
  rw [renderReference, noted, read]

/-- A reference answers to the branch that its target took last, or executes its target. -/
theorem branchOf_cases (nested : Choice → Rendering String) (reference : Reference)
    (target : Record) :
    (∃ index, target.chosen = some index ∧ reference.reruns = false ∧
        branchOf nested reference target = pure (target.live, index, target.rendered)) ∨
      ((target.chosen = none ∨ reference.reruns = true) ∧
        branchOf nested reference target =
          execute nested (some reference.target) target.live >>= fun outcome =>
            modify (·.recording reference.target
              ⟨outcome.1, some outcome.2.1, outcome.2.2, target.origin⟩) >>= fun _ =>
                pure outcome) := by
  unfold branchOf
  split
  · rename_i index chosen once
    exact .inl ⟨index, chosen, once, rfl⟩
  · rename_i anew
    refine .inr ⟨Classical.or_iff_not_imp_left.2 fun taken => ?_, rfl⟩
    obtain ⟨last, chosen⟩ := Option.ne_none_iff_exists'.1 taken
    exact eq_true_of_ne_false (anew last chosen)

/-- What a reference ensures of the branch it answers to: the last one of a target that it does not
execute again, or else a new one. -/
theorem ensures_branchOf {reference : Reference} {target : Record}
    {good : LiveFork × Nat × String → RenderState → Prop}
    (last : ∀ index, target.chosen = some index → reference.reruns = false →
      good (target.live, index, target.rendered) state)
    (executes : Ensures (execute nested (some reference.target) target.live) state
      (fun outcome later => good outcome (later.recording reference.target
        ⟨outcome.1, some outcome.2.1, outcome.2.2, target.origin⟩)) failing) :
    Ensures (branchOf nested reference target) state good failing := by
  unfold branchOf
  split
  · rename_i index chosen reruns
    exact last index chosen reruns
  · rw [ensures_bind]
    exact executes

/-- A script block makes a render fail that does not allow scripts. -/
theorem run_runScript_disabled {fetch : String → Rendering Included} {setting : Setting}
    {block : ScriptBlock} (disabled : setting.allowScripts = false) (state : RenderState) :
    (runScript fetch setting block).run state =
      (.error (.scriptsDisabled block.span.start), state.noted (.ran block)) := by
  rw [runScript, disabled]
  rfl

namespace Motion

variable {moves fails : RenderState → RenderState → Prop} (motion : Motion moves fails)
include motion

/-- Branches follow what all choices follow. -/
theorem follows_renderBranch {fork : Fork}
    (inner : ∀ branch ∈ fork.branches, Follows moves fails (nested branch.choice)) (index : Nat) :
    Follows moves fails (renderBranch nested fork index) := by
  unfold renderBranch
  split
  · rename_i branch found
    exact inner branch (List.mem_of_getElem? found)
  · exact motion.follows_pure _

theorem follows_answer {reference : Reference}
    (inner : ∀ index choice, (reference.mapping? index).or reference.fallback = some choice →
      Follows moves fails (nested choice)) (index : Nat) (rendered : String) :
    Follows moves fails (answer nested reference index rendered) := by
  unfold answer
  split
  · exact motion.follows_pure _
  · split
    · rename_i choice found
      exact motion.follows_bind (motion.follows_note (.answered ..)) fun _ =>
        inner index choice found
    · exact motion.follows_bind (motion.follows_warn _) fun _ => motion.follows_pure _

theorem follows_answerAbsent {reference : Reference}
    (inner : ∀ choice, reference.fallback = some choice → Follows moves fails (nested choice)) :
    Follows moves fails (answerAbsent nested reference) := by
  unfold answerAbsent
  refine motion.follows_bind (motion.follows_note (.missed reference)) fun _ => ?_
  split
  · exact motion.follows_throw _
  · split
    · rename_i choice found
      exact inner choice found
    · exact motion.follows_bind (motion.follows_warn _) fun _ => motion.follows_pure _

/-- A sequence of nodes follows what its forks and references follow. -/
theorem follows_renderNodes {nodes : List Node}
    (forks : ∀ fork, .fork fork ∈ nodes → Follows moves fails (renderFork nested fork))
    (references : ∀ reference, .reference reference ∈ nodes →
      Follows moves fails (renderReference nested reference)) (startsLine : Bool) :
    Follows moves fails (renderNodes nested nodes startsLine) := by
  refine motion.follows_bind (motion.follows_foldlM nodes ?_ _) fun line => motion.follows_pure _
  intro line node member
  cases node with
  | text content => exact motion.follows_pure _
  | fork fork => exact motion.follows_bind (forks fork member) fun _ => motion.follows_pure _
  | reference reference =>
    exact motion.follows_bind (references reference member) fun _ => motion.follows_pure _

end Motion

end Rendering

end BranchText
