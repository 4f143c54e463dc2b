import BranchText.Render.State

/-!
# Forks and references

Executing a fork draws a branch from its live weights and renders it. Named forks draw from the
weights in their record, so that a set fork goes on where it was; the record is written once the
branch has been rendered. A silent set fork only leaves a record, and its first reference draws.

`nested` renders the choice of a branch, a mapping or a fallback.
-/

namespace BranchText

namespace RenderState

/-- The live weights of a fork that is reached: those recorded for it, or full ones. -/
def liveOf (state : RenderState) (fork : Fork) : LiveFork :=
  match fork.identifier with
  | some name =>
    match state.ledger.get? name with
    | some record =>
      if record.origin = .declared fork.span.start then record.live else .ofFork fork
    | none => .ofFork fork
  | none =>
    if fork.isSet then (state.anonymousSets.get? fork.span.start).getD (.ofFork fork)
    else .ofFork fork

/-- Records what a name stands for. -/
def recording (state : RenderState) (name : String) (entry : Record) : RenderState :=
  { state with ledger := state.ledger.insert name entry }

/-- Leaves the record of a silent set fork, unless it has one. -/
def registering (state : RenderState) (fork : Fork) : RenderState :=
  match fork.identifier with
  | none => state
  | some name =>
    if (state.ledger.get? name).map (·.origin) = some (.declared fork.span.start) then state
    else state.recording name ⟨.ofFork fork, none, "", .declared fork.span.start⟩

/-- Keeps what the execution of a fork left. -/
def keeping (state : RenderState) (fork : Fork) (live : LiveFork) (index : Nat)
    (rendered : String) : RenderState :=
  match fork.identifier with
  | some name => state.recording name ⟨live, some index, rendered, .declared fork.span.start⟩
  | none =>
    if fork.isSet then
      { state with anonymousSets := state.anonymousSets.insert fork.span.start live }
    else state

end RenderState

namespace Rendering

/-- Fails if another node of the same document already declared the name. -/
def checkUnique (name : String) (origin : Origin) (offset : Nat) : Rendering Unit := do
  match ← recorded name with
  | some ⟨_, _, _, .declared existing⟩ =>
    if Origin.declared existing = origin then return
    else throw (.duplicateIdentifier name offset)
  | _ => return

/-- Draws a branch, for the record of a name if there is one. -/
def draw (name : Option String) (live : LiveFork) : Rendering (LiveFork × Nat) := do
  let offset := live.fork.span.start
  let state ← get
  let (drawn, deck, generator) := live.deck.draw Generator.below state.generator
  set { state with generator := generator }
  match drawn with
  | none => throw (.noChoice offset)
  | some drawn =>
    note (.drew name live drawn)
    if drawn.refilled then warn (.setExhausted live.fork.identifier offset)
    return ({ live with deck := deck }, drawn.index)

/-- Renders a branch of a fork. -/
def renderBranch (nested : Choice → Rendering String) (fork : Fork) (index : Nat) :
    Rendering String :=
  match fork.branches[index]? with
  | some branch => nested branch.choice
  | none => return ""

/-- Draws a branch and renders it. -/
def execute (nested : Choice → Rendering String) (name : Option String) (live : LiveFork) :
    Rendering (LiveFork × Nat × String) := do
  let (live, index) ← draw name live
  let rendered ← renderBranch nested live.fork index
  note (.finished name live)
  return (live, index, rendered)

/-- Fails if the name of a fork that is reached is taken. -/
def reach (fork : Fork) : Rendering Unit := do
  note (.reached fork)
  match fork.identifier with
  | some name => checkUnique name (.declared fork.span.start) fork.span.start
  | none => return

/-- Renders a fork. -/
def renderFork (nested : Choice → Rendering String) (fork : Fork) : Rendering String := do
  reach fork
  if fork.silent && fork.isSet then
    modify (·.registering fork)
    return ""
  else
    let (live, index, rendered) ← execute nested fork.identifier ((← get).liveOf fork)
    modify (·.keeping fork live index rendered)
    return rendered

/-- The branch of the target that a reference answers to: the one taken last, or a new one if the
reference executes its target again or if none has been taken. -/
def branchOf (nested : Choice → Rendering String) (reference : Reference) (record : Record) :
    Rendering (LiveFork × Nat × String) := do
  match record.chosen, reference.reruns with
  | some index, false => return (record.live, index, record.rendered)
  | _, _ =>
    let (live, index, rendered) ← execute nested (some reference.target) record.live
    modify (·.recording reference.target ⟨live, some index, rendered, record.origin⟩)
    return (live, index, rendered)

/-- The text of a reference whose target took the branch and gave the text. -/
def answer (nested : Choice → Rendering String) (reference : Reference) (index : Nat)
    (rendered : String) : Rendering String := do
  if reference.isCopy then return rendered
  else
    match (reference.mapping? index).or reference.fallback with
    | some choice =>
      note (.answered reference index choice)
      nested choice
    | none =>
      warn (.missingMapping index reference.target reference.span.start)
      return ""

/-- The text of a reference whose target has no record. -/
def answerAbsent (nested : Choice → Rendering String) (reference : Reference) :
    Rendering String := do
  note (.missed reference)
  if reference.reruns then throw (.unknownIdentifier reference.target reference.span.start)
  else
    match reference.fallback with
    | some choice => nested choice
    | none =>
      warn (.unresolved reference.target reference.span.start)
      return ""

/-- Records the outcome of a reference that has a name. -/
def nameOutcome (reference : Reference) (live : LiveFork) (index : Nat) (output : String) :
    Rendering Unit := do
  let offset := reference.span.start
  match reference.identifier with
  | some name =>
    checkUnique name (.declared offset) offset
    modify (·.recording name ⟨live, some index, output, .declared offset⟩)
  | none => return

/-- Renders a reference. -/
def renderReference (nested : Choice → Rendering String) (reference : Reference) :
    Rendering String := do
  note (.referred reference)
  match ← recorded reference.target with
  | none => answerAbsent nested reference
  | some target =>
    let (live, index, rendered) ← branchOf nested reference target
    let output ← answer nested reference index rendered
    nameOutcome reference live index output
    return output

end Rendering

end BranchText
