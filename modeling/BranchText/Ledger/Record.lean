import BranchText.Document.Basic

/-!
# Records

The ledger of a render keeps a record of every named fork and named reference that was executed:
its live weights, the branch that was taken last, the text this gave, and which node declared the
name.
-/

namespace BranchText

/-- A fork with its live weights. -/
structure LiveFork where
  fork : Fork
  deck : Deck Float
  deriving Repr

namespace LiveFork

/-- A fork nothing has been drawn from. -/
def ofFork (fork : Fork) : LiveFork := ⟨fork, fork.deck⟩

end LiveFork

/-- Where a record comes from. -/
inductive Origin where
  /-- The node at this offset of the document. -/
  | declared (offset : Nat)
  /-- An included document. -/
  | imported
  deriving Repr, DecidableEq

/-- What the ledger keeps under a name. -/
structure Record where
  live : LiveFork
  /-- The branch taken last; none for a silent set that has not been drawn from. -/
  chosen : Option Nat
  rendered : String
  origin : Origin
  deriving Repr

end BranchText
