import BranchText.Document.Scripts
import BranchText.Outcomes.Count
import BranchText.Script.Advice

/-!
# Findings

What can be found fault with in a document without rendering it: names that it refers to and does
not declare, doubtful scripts, and modes, which renders do not apply.
-/

namespace BranchText

namespace Document

/-- A warning about the modes of a document, if it has any. -/
def modeFinding? (document : Document) : Option Warning :=
  match document.modes with
  | mode :: _ => some (.modesIgnored document.modes.length mode.span.start)
  | [] => if document.modeSwitches.isEmpty then none else some .switchesIgnored

/-- Everything that can be found without rendering. -/
def findings (document : Document) : List Warning :=
  document.analyze.unresolved.map .undeclared
    ++ document.scripts.flatMap (fun block =>
      ScriptBlock.ambientWarnings block.source block.span.start)
    ++ document.modeFinding?.toList

end Document

end BranchText
