import BranchText.Document.Basic
import BranchText.Ron.Basic

/-!
# Documents in object notation

A dump shows everything a document was read as. Forks show their weights as they are drawn with,
shares of unwritten weights included.
-/

namespace BranchText

/-- A span in object notation. -/
def Span.toRon (span : Span) : Ron :=
  .fields [("start", .natural span.start), ("end", .natural span.stop)]

/-- A branch with the weight it is drawn with. -/
def weightedRon (value : Ron) (weight : Float) : Ron :=
  .fields [("value", value), ("weight", .present (.double weight))]

mutual

/-- A choice in object notation. -/
def Choice.toRon : Choice → Ron
  | .nodes nodes => .variant "Ast" (.list (nodesToRon nodes))
  | .script block =>
    .variant "Script" (.fields [("source", .text block.source), ("span", block.span.toRon)])
  | .call call => .variant "Call" (.fields [("name", .text call.name), ("span", call.span.toRon)])

/-- A node in object notation. -/
def Node.toRon : Node → Ron
  | .text content => .variant "Text" (.text content)
  | .fork ⟨identifier, silent, isSet, branches, span⟩ =>
    let weights : List Float := (Fork.deck ⟨identifier, silent, isSet, branches, span⟩).initial
    .variant "Fork" (.fields
      [("identifier", .ofOption .text identifier),
        ("is_silent", .bool silent),
        ("is_set", .bool isSet),
        ("weights", .list ((branchesToRon branches).zipWith weightedRon weights)),
        ("initial", .list (weights.map .double)),
        ("span", span.toRon)])
  | .reference ⟨target, identifier, silent, mappings, fallback, reruns, span⟩ =>
    .variant "Reference" (.fields
      [("referred_identifier", .text target),
        ("identifier", .ofOption .text identifier),
        ("is_silent", .bool silent),
        ("index_map", .map (mappingsToRon mappings)),
        ("fallback", fallbackToRon fallback),
        ("re_execute", .bool reruns),
        ("span", span.toRon)])

/-- Nodes in object notation. -/
def nodesToRon : List Node → List Ron
  | [] => []
  | node :: rest => node.toRon :: nodesToRon rest

/-- The choices of branches in object notation. -/
def branchesToRon : List Branch → List Ron
  | [] => []
  | ⟨choice, _⟩ :: rest => choice.toRon :: branchesToRon rest

/-- Mappings in object notation. -/
def mappingsToRon : List Mapping → List (Ron × Ron)
  | [] => []
  | ⟨branch, choice⟩ :: rest => (.natural branch, choice.toRon) :: mappingsToRon rest

/-- A fallback in object notation. -/
def fallbackToRon : Option Choice → Ron
  | none => .absent
  | some choice => .present choice.toRon

end

/-- A mode rule in object notation. -/
def ModeRule.toRon (rule : ModeRule) : Ron :=
  .fields [("matcher", .text rule.matcher), ("replacement", rule.replacement.toRon)]

/-- A mode declaration in object notation. -/
def ModeDeclaration.toRon (mode : ModeDeclaration) : Ron :=
  .fields [("name", .text mode.name), ("rules", .list (mode.rules.map ModeRule.toRon)),
    ("span", mode.span.toRon)]

/-- A document in object notation. -/
def Document.toRon (document : Document) : Ron :=
  .fields [("nodes", .list (nodesToRon document.nodes)),
    ("modes", .list (document.modes.map ModeDeclaration.toRon)),
    ("mode_switches", .list (document.modeSwitches.map .text))]

end BranchText
