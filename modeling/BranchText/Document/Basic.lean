import BranchText.Chance.Deck
import BranchText.Source.Span

/-!
# Documents

A document is a sequence of nodes: literal text, forks and references. A fork is a point where a
render takes one of several branches; a reference replays, or maps, what a named fork took. What a
branch or a mapping renders is a choice: a nested sequence of nodes, a script block, or the call
of a function that a script provided.

Weights stay decimals as they were written. `Fork.deck` turns them into the numbers to draw with.
-/

namespace BranchText

/-- The source text of an embedded script. The span includes its brackets. -/
structure ScriptBlock where
  source : String
  span : Span
  deriving Repr, DecidableEq

/-- The call of a function that a script provided. -/
structure FunctionCall where
  name : String
  span : Span
  deriving Repr, DecidableEq

mutual

/-- One alternative of a fork. A branch without a weight shares the mass that is left over. -/
structure Branch where
  choice : Choice
  weight : Option Decimal

/-- A point where a render takes one of several branches. -/
structure Fork where
  identifier : Option String
  /-- Silent forks are executed but put no text out. -/
  silent : Bool
  /-- Set forks draw without replacement. -/
  isSet : Bool
  branches : List Branch
  span : Span

/-- What a reference renders when a given branch of its target was taken. -/
structure Mapping where
  branch : Nat
  choice : Choice

/-- A later look at what a named fork took. -/
structure Reference where
  target : String
  /-- The name under which the reference records its own outcome. -/
  identifier : Option String
  silent : Bool
  /-- In ascending order of branches, each at most once. -/
  mappings : List Mapping
  fallback : Option Choice
  /-- Whether the target is executed again first. -/
  reruns : Bool
  span : Span

inductive Node where
  | text (content : String)
  | fork (fork : Fork)
  | reference (reference : Reference)

inductive Choice where
  | nodes (nodes : List Node)
  | script (block : ScriptBlock)
  | call (call : FunctionCall)

end

deriving instance Repr, BEq, Inhabited for Node, Choice, Branch, Fork, Mapping, Reference

/-- A pattern and its replacement. Modes are read and kept, and never applied. -/
structure ModeRule where
  matcher : String
  replacement : Choice
  deriving Repr, BEq

/-- A named list of rules. -/
structure ModeDeclaration where
  name : String
  rules : List ModeRule
  span : Span
  deriving Repr, BEq

/-- A document as read. -/
structure Document where
  nodes : List Node
  modes : List ModeDeclaration
  /-- The names of the modes that the document switches to. -/
  modeSwitches : List String
  deriving Repr, BEq

namespace Fork

variable {W : Type} [WeightScale W]

/-- The written weights, as numbers to draw with. -/
def written (fork : Fork) : List (Option W) :=
  fork.branches.map fun branch => branch.weight.map WeightScale.ofDecimal

/-- The full deck of a fork. -/
def deck (fork : Fork) : Deck W := Deck.full fork.isSet fork.written

end Fork

namespace Reference

/-- Whether the reference repeats the text of its target as it is. -/
def isCopy (reference : Reference) : Bool :=
  reference.mappings.isEmpty && reference.fallback.isNone

/-- The choice mapped to a branch. -/
def mapping? (reference : Reference) (branch : Nat) : Option Choice :=
  (reference.mappings.find? (·.branch = branch)).map (·.choice)

end Reference

namespace Document

/-- Whether the document declares or switches modes. -/
def usesModes (document : Document) : Bool :=
  !document.modes.isEmpty || !document.modeSwitches.isEmpty

end Document

end BranchText
