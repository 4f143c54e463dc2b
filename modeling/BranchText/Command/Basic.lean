/-!
# Commands

What running a command comes to: an exit code and what it writes.
-/

namespace BranchText

/-- The outcome of a command. -/
structure CommandResult where
  exitCode : Nat
  output : String
  errors : String
  deriving Repr, DecidableEq

namespace CommandResult

/-- A command that did what it was asked to. -/
def success (output errors : String) : CommandResult := ⟨0, output, errors⟩

/-- A command that failed. -/
def failure (errors : String) : CommandResult := ⟨1, "", errors⟩

end CommandResult

end BranchText
