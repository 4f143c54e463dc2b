import BranchText.Document.Basic

/-!
# The script blocks of a document

`Document.scripts` lists the script blocks of the nodes of a document: branch by branch, and in a
reference first the mappings in order of branches and then the fallback.
-/

namespace BranchText

mutual

/-- The script blocks of a choice. -/
def Choice.scripts : Choice → List ScriptBlock
  | .nodes nodes => scriptsOfNodes nodes
  | .script block => [block]
  | .call _ => []

/-- The script blocks of a node. -/
def Node.scripts : Node → List ScriptBlock
  | .text _ => []
  | .fork ⟨_, _, _, branches, _⟩ => scriptsOfBranches branches
  | .reference ⟨_, _, _, mappings, fallback, _, _⟩ =>
    scriptsOfMappings mappings ++ scriptsOfFallback fallback

/-- The script blocks of a sequence of nodes. -/
def scriptsOfNodes : List Node → List ScriptBlock
  | [] => []
  | node :: rest => node.scripts ++ scriptsOfNodes rest

/-- The script blocks of branches. -/
def scriptsOfBranches : List Branch → List ScriptBlock
  | [] => []
  | ⟨choice, _⟩ :: rest => choice.scripts ++ scriptsOfBranches rest

/-- The script blocks of mappings. -/
def scriptsOfMappings : List Mapping → List ScriptBlock
  | [] => []
  | ⟨_, choice⟩ :: rest => choice.scripts ++ scriptsOfMappings rest

/-- The script blocks of a fallback, if there is one. -/
def scriptsOfFallback : Option Choice → List ScriptBlock
  | none => []
  | some choice => choice.scripts

end

/-- Every script block of the nodes of a document. -/
def Document.scripts (document : Document) : List ScriptBlock := scriptsOfNodes document.nodes

end BranchText
