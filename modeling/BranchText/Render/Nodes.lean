import BranchText.Render.Fork

/-!
# Sequences of nodes

The texts of nodes are put one behind another. A silent node alone on its line takes the line
break after it along, so that a line of declarations leaves no empty line behind.
-/

namespace BranchText

namespace Rendering

/-- Whether a character leaves a line as empty as it was. -/
def isBlank (c : Char) : Bool := c = ' ' || c = '\t'

/-- Whether only blanks follow the last line break of the text, or its start if the text starts a
line. -/
def isLineStart (text : List Char) (startsLine : Bool) : Bool :=
  let tail := text.reverse.takeWhile (· ≠ '\n')
  (startsLine || tail.length < text.length) && tail.all isBlank

/-- Drops blanks and a line break from the start of a text that starts with them. -/
def dropLineBreak (text : List Char) : List Char :=
  match text.dropWhile isBlank with
  | '\r' :: '\n' :: rest => rest
  | '\n' :: rest => rest
  | _ => text

/-- The text so far, and whether a line break that follows is dropped. -/
structure Line where
  text : String
  dropsBreak : Bool

namespace Line

/-- Puts literal text behind. -/
def addText (line : Line) (content : String) : Line :=
  if line.dropsBreak then
    ⟨line.text ++ String.ofList (dropLineBreak content.toList), false⟩
  else ⟨line.text ++ content, false⟩

/-- Puts the text of a fork or a reference behind, unless it is silent. -/
def addRendered (line : Line) (startsLine silent : Bool) (rendered : String) : Line :=
  if silent then
    ⟨line.text, line.dropsBreak || isLineStart line.text.toList startsLine⟩
  else ⟨line.text ++ rendered, false⟩

end Line

/-- Renders one node behind what there is. -/
def addNode (nested : Choice → Rendering String) (startsLine : Bool) (line : Line) :
    Node → Rendering Line
  | .text content => return line.addText content
  | .fork fork => return line.addRendered startsLine fork.silent (← renderFork nested fork)
  | .reference reference =>
    return line.addRendered startsLine reference.silent (← renderReference nested reference)

/-- Renders a sequence of nodes. -/
def renderNodes (nested : Choice → Rendering String) (nodes : List Node) (startsLine : Bool) :
    Rendering String := do
  return (← nodes.foldlM (addNode nested startsLine) ⟨"", false⟩).text

end Rendering

end BranchText
