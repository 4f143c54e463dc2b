import BranchText.Document.Pieces

/-!
# Printed documents

The written form of a document tree, and which trees have one. Literal text is printed with a
backslash before every character that could be taken for syntax; forks and references are printed
in braces, their parts in a fixed order with single blanks between them.

Spans say where a node was read, so a tree and the tree read back from its print agree only
`withoutSpans`.
-/

namespace BranchText

namespace Print

/-- Whether a character of literal text is printed behind a backslash. -/
def needsEscape (c : Char) : Bool :=
  ['\\', '/', '[', '{', '}', '(', ')', ',', '\x22', '\x27', '\x60'].contains c

/-- Literal text. -/
def text (content : List Char) : List Char :=
  content.flatMap fun c => if needsEscape c then ['\\', c] else [c]

/-- Items with a comma and a blank between them. -/
def joined : List (List Char) → List Char
  | [] => []
  | [item] => item
  | item :: rest => item ++ ',' :: ' ' :: joined rest

/-- The flags of a block. -/
def flags (silent isSet : Bool) : List Char :=
  (if silent then ['#'] else []) ++ if isSet then ['|'] else []

/-- The name that a block starts with. -/
def label : Option String → List Char
  | none => []
  | some name => name.toList ++ [':', ' ']

/-- A whole number. -/
def number (value : Nat) : List Char := Nat.toDigits 10 value

/-- The weight behind an entry. -/
def weight : Option Decimal → List Char
  | none => []
  | some weight => ' ' :: number weight.digits

/-- What a reference renders, behind its target. -/
def groups : List (List Char) → List Char
  | [] => []
  | items => ':' :: ' ' :: joined items

mutual

/-- A choice: nested nodes in parentheses, a script in brackets, or a call. -/
def choice : Choice → List Char
  | .nodes inner => '(' :: (nodes inner ++ [')'])
  | .script block => '[' :: (block.source.toList ++ [']'])
  | .call call => ['c', 'a', 'l', 'l', ' '] ++ call.name.toList

/-- A node. -/
def node : Node → List Char
  | .text content => text content.toList
  | .fork ⟨identifier, silent, isSet, branches, _⟩ =>
    '{' :: (flags silent isSet ++ label identifier ++ joined (entries branches) ++ ['}'])
  | .reference ⟨target, identifier, silent, mappings, fallback, reruns, _⟩ =>
    '{' :: (flags silent false ++ label identifier ++
      (if reruns then ['e', 'v', 'a', 'l', ' '] else []) ++ '@' :: target.toList ++
      groups (mapped mappings ++ others fallback) ++ ['}'])

/-- A sequence of nodes. -/
def nodes : List Node → List Char
  | [] => []
  | first :: rest => node first ++ nodes rest

/-- The entries of a fork. -/
def entries : List Branch → List (List Char)
  | [] => []
  | ⟨value, written⟩ :: rest => (choice value ++ weight written) :: entries rest

/-- The mappings of a reference. -/
def mapped : List Mapping → List (List Char)
  | [] => []
  | ⟨branch, value⟩ :: rest => (number branch ++ [' ', '-', '>', ' '] ++ choice value) :: mapped rest

/-- The fallback of a reference. -/
def others : Option Choice → List (List Char)
  | none => []
  | some value => [choice value]

end

end Print

/-- A tree with every part of the syntax: a name that is a word of its own, flags, weights,
nested nodes, a copy, and a repeated execution with a mapping and a fallback. -/
def sampleTree : List Node :=
  [.text "5 - {call}",
    .fork ⟨some "call", true, true,
      [⟨.nodes [.text "a (b)"], some ⟨30, 0⟩⟩,
        ⟨.call ⟨"eval-2", default⟩, none⟩,
        ⟨.nodes [.fork ⟨none, false, false, [⟨.nodes [], none⟩], default⟩, .text "c"], some ⟨70, 0⟩⟩],
      default⟩,
    .reference ⟨"call", none, false, [], none, false, default⟩,
    .reference ⟨"call", some "use", true, [⟨0, .nodes [.text "x, y"]⟩, ⟨12, .call ⟨"f", default⟩⟩],
      some (.nodes []), true, default⟩]

example : String.ofList (Print.nodes sampleTree)
    = "5 - \\\x7bcall\\\x7d\x7b#|call: (a \\(b\\)) 30, call eval-2, (\x7b()\x7dc) 70\x7d" ++
      "\x7b@call\x7d\x7b#use: eval @call: 0 -> (x\\, y), 12 -> call f, ()\x7d" := by
  decide

/-! ## Trees that can be printed -/

/-- Whether the name can be written down as an identifier. -/
def IsIdentifier (name : String) : Prop :=
  name ≠ "" ∧ ∀ c ∈ name.toList, Reader.isIdentifierChar c = true

/-- The sum of the written weights of entries, all of which are whole numbers. -/
def writtenTotal : List Branch → Nat
  | [] => 0
  | ⟨_, none⟩ :: rest => writtenTotal rest
  | ⟨_, some weight⟩ :: rest => weight.digits + writtenTotal rest

/-- Whether a sequence starts with literal text. -/
def startsWithText : List Node → Bool
  | .text _ :: _ => true
  | _ => false

/-- Indices in ascending order, above a lower bound, that can be written down. -/
def AscendingFrom : Nat → List Mapping → Prop
  | _, [] => True
  | low, ⟨branch, _⟩ :: rest =>
    low ≤ branch ∧ branch ≤ Reader.largestBranch ∧ AscendingFrom (branch + 1) rest

mutual

/-- Choices without scripts, all of whose parts can be printed. -/
def Choice.Printable : Choice → Prop
  | .nodes nodes => NodesPrintable nodes
  | .script _ => False
  | .call call => IsIdentifier call.name

/-- Nodes that can be printed. -/
def Node.Printable : Node → Prop
  | .text content => content ≠ ""
  | .fork ⟨identifier, _, _, branches, _⟩ =>
    (∀ name, identifier = some name → IsIdentifier name) ∧ branches ≠ [] ∧
      writtenTotal branches ≤ 100 ∧ BranchesPrintable branches
  | .reference ⟨target, identifier, _, mappings, fallback, _, _⟩ =>
    IsIdentifier target ∧ (∀ name, identifier = some name → IsIdentifier name) ∧
      AscendingFrom 0 mappings ∧ MappingsPrintable mappings ∧ FallbackPrintable fallback

/-- Sequences without empty text and without text next to text. -/
def NodesPrintable : List Node → Prop
  | [] => True
  | .text content :: rest =>
    content ≠ "" ∧ startsWithText rest = false ∧ NodesPrintable rest
  | node :: rest => node.Printable ∧ NodesPrintable rest

/-- Entries whose weights are whole numbers. -/
def BranchesPrintable : List Branch → Prop
  | [] => True
  | ⟨choice, weight⟩ :: rest =>
    choice.Printable ∧ (∀ written, weight = some written → written.places = 0) ∧
      BranchesPrintable rest

/-- Mappings that can be printed. -/
def MappingsPrintable : List Mapping → Prop
  | [] => True
  | ⟨_, choice⟩ :: rest => choice.Printable ∧ MappingsPrintable rest

/-- Fallbacks that can be printed. -/
def FallbackPrintable : Option Choice → Prop
  | none => True
  | some choice => choice.Printable

end

/-! ## Trees without their places -/

mutual

/-- The choice with all spans at the start. -/
def Choice.withoutSpans : Choice → Choice
  | .nodes nodes => .nodes (nodesWithoutSpans nodes)
  | .script block => .script { block with span := default }
  | .call call => .call { call with span := default }

/-- The node with all spans at the start. -/
def Node.withoutSpans : Node → Node
  | .text content => .text content
  | .fork ⟨identifier, silent, isSet, branches, _⟩ =>
    .fork ⟨identifier, silent, isSet, branchesWithoutSpans branches, default⟩
  | .reference ⟨target, identifier, silent, mappings, fallback, reruns, _⟩ =>
    .reference ⟨target, identifier, silent, mappingsWithoutSpans mappings,
      fallbackWithoutSpans fallback, reruns, default⟩

/-- The sequence with all spans at the start. -/
def nodesWithoutSpans : List Node → List Node
  | [] => []
  | node :: rest => node.withoutSpans :: nodesWithoutSpans rest

/-- The entries with all spans at the start. -/
def branchesWithoutSpans : List Branch → List Branch
  | [] => []
  | ⟨choice, weight⟩ :: rest => ⟨choice.withoutSpans, weight⟩ :: branchesWithoutSpans rest

/-- The mappings with all spans at the start. -/
def mappingsWithoutSpans : List Mapping → List Mapping
  | [] => []
  | ⟨branch, choice⟩ :: rest => ⟨branch, choice.withoutSpans⟩ :: mappingsWithoutSpans rest

/-- The fallback with all spans at the start. -/
def fallbackWithoutSpans : Option Choice → Option Choice
  | none => none
  | some choice => some choice.withoutSpans

end

end BranchText
