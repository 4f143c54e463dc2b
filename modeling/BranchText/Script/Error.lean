/-!
# Script errors

Why a script gives no text. Only texts that a script or one of its functions raised have words of
their own; that a text is no script, that a name is unknown or that operands do not fit is told
apart by kind alone.
-/

namespace BranchText

/-- Why a script, or a function that a script provided, gives no text. -/
inductive ScriptError where
  /-- The text is no script. -/
  | malformed
  /-- The script stopped, with the text it raised if it raised one. -/
  | stopped (raised : Option String)
  /-- A provided function stopped. -/
  | functionStopped (raised : Option String)
  deriving Repr, DecidableEq

namespace ScriptError

/-- The text that was raised, after the start of a sentence. -/
def because (start : String) : Option String → String
  | none => start
  | some raised => start ++ ": " ++ raised

/-- The wording of a script error. -/
def message : ScriptError → String
  | malformed => "script compile error"
  | stopped raised => because "script runtime error" raised
  | functionStopped raised => because "provided function failed" raised

end ScriptError

end BranchText
