import BranchText.Document.Basic
import BranchText.Warning

/-!
# Advice on scripts

What can be said about a script block from its text and its outcome without failing the render:
random numbers that no seed decides, and blocks without any effect.
-/

namespace BranchText

/-- Whether a text occurs in another. -/
def occursIn (part : List Char) : List Char → Bool
  | [] => part.isEmpty
  | c :: rest => part.isPrefixOf (c :: rest) || occursIn part rest

namespace ScriptBlock

/-- The texts that stand for randomness no seed decides. -/
def ambientMarkers : List String := ["timestamp(", "Math.random"]

/-- A warning for every marker of unseeded randomness in the source of a block. -/
def ambientWarnings (source : String) (offset : Nat) : List Warning :=
  (ambientMarkers.filter fun marker => occursIn marker.toList source.toList).map fun marker =>
    .ambientRandomness marker offset

/-- A warning for a block that put nothing out, included nothing and registers nothing. -/
def idleWarning? (source output : String) (included : Nat) (offset : Nat) : Option Warning :=
  if occursIn "provide(".toList source.toList || !output.isEmpty || included ≠ 0 then none
  else some (.neverProvides offset)

end ScriptBlock

end BranchText
