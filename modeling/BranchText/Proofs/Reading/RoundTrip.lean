import BranchText.Document.Within
import BranchText.Proofs.Chance.WholeWeights
import BranchText.Proofs.Document.Spanless
import BranchText.Proofs.Reading.Steps

/-!
# Printed documents are read back

Every printable tree, printed and read, gives the tree up to spans. The proof follows the tree:
for each kind of part, what is printed for it is read back in front of any text that can stand
behind it, whatever was read before.
-/

namespace BranchText

/-! ## Trees without spans -/

@[simp]
theorem writtenTotal_withoutSpans (branches : List Branch) :
    writtenTotal (branchesWithoutSpans branches) = writtenTotal branches := by
  induction branches with
  | nil => rfl
  | cons branch rest ih =>
    obtain ⟨choice, weight⟩ := branch
    cases weight <;> simp [branchesWithoutSpans, writtenTotal, ih]

theorem wholeWeights_withoutSpans (branches : List Branch) :
    WholeWeights (branchesWithoutSpans branches) ↔ WholeWeights branches := by
  induction branches with
  | nil => rfl
  | cons branch rest ih =>
    obtain ⟨choice, weight⟩ := branch
    simp only [WholeWeights, branchesWithoutSpans, List.forall_mem_cons] at ih ⊢
    rw [ih]

theorem wholeWeights_of_printable {branches : List Branch}
    (printable : BranchesPrintable branches) : WholeWeights branches := by
  induction branches with
  | nil => intro branch member; cases member
  | cons branch rest ih =>
    obtain ⟨choice, weight⟩ := branch
    obtain ⟨-, whole, others⟩ := printable
    exact List.forall_mem_cons.2 ⟨whole, ih others⟩

/-! ## Passages -/

namespace Passage

/-- Whether text put behind the passage makes a node of its own. -/
def Fresh (passage : Passage) : Prop :=
  passage.text = "" ∧ ∀ content rest, passage.nodes ≠ .text content :: rest

theorem fresh_empty : Passage.empty.Fresh := ⟨rfl, by simp [empty]⟩

theorem append_empty (passage : Passage) : passage.append "" = passage := by
  simp [append]

theorem append_append (passage : Passage) (front back : String) :
    (passage.append front).append back = passage.append (front ++ back) := by
  simp [append, String.append_assoc]

/-- Text behind a fresh passage is its last node. -/
theorem close_append {passage : Passage} (fresh : passage.Fresh) {content : String}
    (some : content ≠ "") : (passage.append content).close = passage.close ++ [.text content] := by
  obtain ⟨nodes, text⟩ := passage
  obtain ⟨rfl, noText⟩ := fresh
  have notEmpty : content.isEmpty = false := by simpa using some
  have noMerge : flush ⟨nodes, content⟩ = .text content :: nodes := by
    rw [flush, if_neg (by simp [notEmpty])]
    split
    · rename_i found
      exact absurd found (noText _ _)
    · rfl
  have flushed : flush ⟨nodes, ""⟩ = nodes := rfl
  rw [close, append, close, flushed]
  simp [noMerge]

/-- A block behind a passage is its last node. -/
theorem close_addBlock (passage : Passage) (node : Node) :
    (passage.addBlock (some node)).close = passage.close ++ [node] := by
  simp [close, addBlock, flush]

theorem fresh_addBlock (passage : Passage) {node : Node} (noText : ∀ content, node ≠ .text content) :
    (passage.addBlock (some node)).Fresh :=
  ⟨rfl, fun content _ same => noText content (List.cons.inj same).1⟩

end Passage

namespace Reader

open Cursor

/-! ## Literal text -/

/-- Printed text is put behind the text of the passage. -/
theorem reads_text {enclosing : Option Nat} {depth : Nat} {legacy : Legacy}
    {good : List Node × Legacy → Prop} {content back rest : List Char}
    (ends : ∀ c, back.head? = some c → endsText c = true) (passage : Passage) {cursor : Cursor}
    (text : cursor.rest = Print.text content ++ back)
    (later : ∀ after : Cursor, after.rest = back →
      Reads (sequence enclosing depth (passage.append (String.ofList content)) legacy after) good
        rest) :
    Reads (sequence enclosing depth passage legacy cursor) good rest := by
  by_cases some : content = []
  · subst some
    simpa [Passage.append_empty] using later cursor text
  · obtain ⟨kind, taken, left, split, more, literal, given⟩ := gives_text some text ends
    have shorter : left.length < content.length := by
      have positive := List.length_pos_iff.2 more
      rw [split, List.length_append]
      omega
    refine reads_sequence_literal given literal fun after here => ?_
    refine reads_text ends _ here fun after there => ?_
    rw [Passage.append_append, ← String.ofList_append, ← split]
    exact later after there
termination_by content.length

/-! ## Nested parts -/

/-- What ends a sequence: the closing parenthesis of the one it stands in, or the end. -/
def Closes (enclosing : Option Nat) (tail rest : List Char) : Prop :=
  (enclosing.isSome = true ∧ tail = ')' :: rest) ∨ (enclosing = none ∧ tail = [] ∧ rest = [])

theorem Closes.endsText {enclosing : Option Nat} {tail rest : List Char}
    (closes : Closes enclosing tail rest) : ∀ c, tail.head? = some c → endsText c = true := by
  rcases closes with ⟨-, rfl⟩ | ⟨-, rfl, -⟩
  · simp [Cursor.endsText]
  · simp

/-- Where a sequence ends, the passage read so far is its value. -/
theorem Closes.reads_sequence {enclosing : Option Nat} {tail rest : List Char}
    {good : List Node × Legacy → Prop} {passage : Passage} {legacy : Legacy} {cursor : Cursor}
    (closes : Closes enclosing tail rest) (text : cursor.rest = tail)
    (isGood : good (passage.close, legacy)) :
    Reads (sequence enclosing 0 passage legacy cursor) good rest := by
  rcases closes with ⟨some, rfl⟩ | ⟨rfl, rfl, rfl⟩
  · obtain ⟨opening, rfl⟩ := Option.isSome_iff_exists.1 some
    exact reads_sequence_close text isGood
  · exact reads_sequence_end text isGood

/-- A printed choice starts with a parenthesis or is a call. -/
theorem choice_opens {value : Choice} (printable : value.Printable) (rest : List Char) :
    (∃ inside, Print.choice value ++ rest = '(' :: inside) ∨
      ∃ inside, Print.choice value ++ rest = ['c', 'a', 'l', 'l'] ++ ' ' :: inside := by
  match value, printable with
  | .nodes inner, _ => exact .inl ⟨_, by rw [Print.choice]; rfl⟩
  | .call call, _ => exact .inr ⟨_, by rw [Print.choice]; rfl⟩

theorem starts_choice {value : Choice} (printable : value.Printable) (rest : List Char) :
    Starts (Print.choice value ++ rest) fun kind => kind = .leftParen ∨ kind = .call := by
  rcases choice_opens printable rest with ⟨inside, opens⟩ | ⟨inside, opens⟩
  · rw [opens]
    exact .mark (show ('(', TokenKind.leftParen) ∈ marks by decide) (.inl rfl)
  · rw [opens]
    exact fun _ text => ⟨_, _, _, gives_call text, .inr rfl⟩

/-- A sequence is read back behind any passage that its text does not join. -/
def ReadsNodes (nodes : List Node) : Prop :=
  ∀ (enclosing : Option Nat) (tail rest : List Char) (passage : Passage) (cursor : Cursor),
    Closes enclosing tail rest → (startsWithText nodes = true → passage.Fresh) →
      cursor.rest = Print.nodes nodes ++ tail →
        Reads (sequence enclosing 0 passage .empty cursor) (fun read =>
          nodesWithoutSpans read.1 = nodesWithoutSpans passage.close ++ nodesWithoutSpans nodes ∧
            read.2 = .empty) rest

/-- A fork or a reference is read back as a block. -/
def ReadsBlock (node : Node) : Prop :=
  ∀ (opening : Nat) (rest : List Char) (cursor : Cursor),
    cursor.rest = (Print.node node).tail ++ rest →
      Reads (block opening cursor) (fun read =>
        ∃ found, read = (some found, .empty) ∧ found.withoutSpans = node.withoutSpans) rest

/-- A choice is read back in front of whatever can stand behind one. -/
def ReadsChoice (value : Choice) : Prop :=
  ∀ (c : Char) (rest : List Char) (cursor : Cursor), endsWord c = true →
    cursor.rest = Print.choice value ++ c :: rest →
      Reads (choice cursor) (fun read =>
        read.1.withoutSpans = value.withoutSpans ∧ read.2 = .empty) (c :: rest)

/-- The entries of a fork are read back behind those read before. -/
def ReadsEntries (branches : List Branch) : Prop :=
  ∀ (opening : Nat) (found : List Branch) (rest : List Char) (cursor : Cursor),
    (cursor.rest = Print.joined (Print.entries branches) ++ '}' :: rest ∨
      cursor.rest = ' ' :: (Print.joined (Print.entries branches) ++ '}' :: rest)) →
      Reads (entries opening found .empty cursor) (fun read =>
        branchesWithoutSpans read.1
          = branchesWithoutSpans found.reverse ++ branchesWithoutSpans branches ∧
          read.2 = .empty) rest

/-- The mappings and the fallback of a reference are read back behind the mappings of lower
branches. -/
def ReadsMappings (mapped : List Mapping) (fallback : Option Choice) : Prop :=
  ∀ (opening : Nat) (first : Bool) (found : List Mapping) (rest : List Char) (cursor : Cursor),
    (∀ other ∈ found, ∀ mapping ∈ mapped, other.branch < mapping.branch) →
    (cursor.rest = Print.joined (Print.mapped mapped ++ Print.others fallback) ++ '}' :: rest ∨
      cursor.rest
        = ' ' :: (Print.joined (Print.mapped mapped ++ Print.others fallback) ++ '}' :: rest)) →
      Reads (mappings opening first found none .empty cursor) (fun read =>
        mappingsWithoutSpans read.1
          = mappingsWithoutSpans found ++ mappingsWithoutSpans mapped ∧
          fallbackWithoutSpans read.2.1 = fallbackWithoutSpans fallback ∧ read.2.2 = .empty)
        ('}' :: rest)

/-! ### Sequences -/

theorem readsNodes_nil : ReadsNodes [] :=
  fun _ _ _ _ _ closes _ text => closes.reads_sequence text (by simp [nodesWithoutSpans])

/-- What is printed for a sequence that does not start with text ends the text before it. -/
theorem endsText_nodes {nodes : List Node} (noText : startsWithText nodes = false)
    {enclosing : Option Nat} {tail rest : List Char} (closes : Closes enclosing tail rest) :
    ∀ c, (Print.nodes nodes ++ tail).head? = some c → endsText c = true := by
  match nodes, noText with
  | [], _ => simpa [Print.nodes] using closes.endsText
  | .fork ⟨_, _, _, _, _⟩ :: _, _ => simp [Print.nodes, Print.node, endsText]
  | .reference ⟨_, _, _, _, _, _, _⟩ :: _, _ => simp [Print.nodes, Print.node, endsText]

/-- Text in a sequence goes behind the passage. -/
theorem readsNodes_text {content : String} {others : List Node} (some : content ≠ "")
    (noText : startsWithText others = false) (later : ReadsNodes others) :
    ReadsNodes (.text content :: others) := by
  intro enclosing tail rest passage cursor closes fresh text
  have contentText : cursor.rest
      = Print.text content.toList ++ (Print.nodes others ++ tail) := by
    simpa [Print.nodes, Print.node] using text
  refine reads_text (endsText_nodes noText closes) passage contentText fun after here => ?_
  rw [String.ofList_toList]
  obtain ⟨reading, read, ⟨value, legacy⟩, restEq⟩ :=
    later _ _ _ (passage.append content) after closes
      (fun starts => by rw [noText] at starts; cases starts) here
  refine ⟨reading, read, ⟨?_, legacy⟩, restEq⟩
  rw [value, Passage.close_append (fresh rfl) some]
  simp [nodesWithoutSpans, Node.withoutSpans]

/-- A node in a block goes behind the passage, and then the rest of the sequence. -/
theorem readsNodes_block {node : Node} {others : List Node}
    (braced : Print.node node = '{' :: (Print.node node).tail)
    (noText : ∀ content, node.withoutSpans ≠ .text content) (inner : ReadsBlock node)
    (later : ReadsNodes others) : ReadsNodes (node :: others) := by
  intro enclosing tail rest passage cursor closes _ text
  have blockText : cursor.rest
      = '{' :: ((Print.node node).tail ++ (Print.nodes others ++ tail)) := by
    rw [text, Print.nodes, braced]
    simp
  refine reads_sequence_block blockText (fun opening after here => inner opening _ after here) ?_
  rintro _ _ ⟨found, same, foundEq⟩ after here
  obtain ⟨rfl, rfl⟩ := Prod.mk.inj same
  have foundNoText : ∀ content, found ≠ .text content := by
    rintro content rfl
    exact noText content foundEq.symm
  have isFresh := passage.fresh_addBlock foundNoText
  obtain ⟨reading, read, ⟨value, legacy⟩, restEq⟩ :=
    later _ _ _ _ after closes (fun _ => isFresh) here
  refine ⟨reading, read, ⟨?_, legacy⟩, restEq⟩
  rw [value, Passage.close_addBlock]
  simp [nodesWithoutSpans, foundEq]

/-! ### Choices -/

theorem readsChoice_nodes {nodes : List Node} (inner : ReadsNodes nodes) :
    ReadsChoice (.nodes nodes) := by
  intro c rest cursor _ text
  have nodesText : cursor.rest = '(' :: (Print.nodes nodes ++ ')' :: c :: rest) := by
    simpa [Print.choice] using text
  obtain ⟨reading, read, ⟨found, ⟨value, legacy⟩, foundEq⟩, restEq⟩ :=
    reads_choice_nodes nodesText fun opening after here =>
      inner (some opening) _ _ .empty after (.inl ⟨rfl, rfl⟩) (fun _ => Passage.fresh_empty) here
  refine ⟨reading, read, ⟨?_, legacy⟩, restEq⟩
  have empty : nodesWithoutSpans Passage.empty.close = [] := rfl
  rw [empty, List.nil_append] at value
  rw [foundEq, Choice.withoutSpans, Choice.withoutSpans, value]

theorem readsChoice_call {call : FunctionCall} (valid : IsIdentifier call.name) :
    ReadsChoice (.call call) := by
  intro c rest cursor ends text
  obtain ⟨reading, read, ⟨span, value⟩, restEq⟩ := reads_choice_call text valid ends
  exact ⟨reading, read, by rw [value]; exact ⟨rfl, rfl⟩, restEq⟩

/-! ### Forks -/

/-- A choice is read back in front of its weight. -/
theorem ReadsChoice.before_weight {value : Choice} (inner : ReadsChoice value)
    {written : Option Decimal} {c : Char} {rest : List Char} (separates : isSeparator c)
    {cursor : Cursor}
    (text : cursor.rest = Print.choice value ++ (Print.weight written ++ c :: rest)) :
    Reads (choice cursor) (fun read =>
      read.1.withoutSpans = value.withoutSpans ∧ read.2 = .empty)
      (Print.weight written ++ c :: rest) := by
  cases written with
  | none => exact inner c rest cursor (by rcases separates with rfl | rfl <;> decide) text
  | some decimal => exact inner ' ' _ cursor (by decide) text

/-- An entry is read back, and then the others. -/
theorem readsEntries_cons {value : Choice} {written : Option Decimal} {others : List Branch}
    (printable : value.Printable)
    (whole : ∀ decimal, written = some decimal → decimal.places = 0) (inner : ReadsChoice value)
    (later : others ≠ [] → ReadsEntries others) :
    ReadsEntries (⟨value, written⟩ :: others) := by
  intro opening found rest cursor text
  have starts : ∀ behind, Starts (Print.choice value ++ behind) fun kind =>
      kind.isTrivia = false ∧ kind ≠ .rightBrace ∧ kind ≠ .endOfText :=
    fun behind => (starts_choice printable behind).imp fun kind opens => by
      rcases opens with rfl | rfl <;> decide
  cases others with
  | nil =>
    have entryText : cursor.rest = Print.choice value ++ (Print.weight written ++ '}' :: rest) ∨
        cursor.rest = ' ' :: (Print.choice value ++ (Print.weight written ++ '}' :: rest)) := by
      simpa [Print.entries, Print.joined] using text
    refine reads_entries opening found .empty entryText (starts _) whole (.inr rfl)
      (fun after here => inner.before_weight (.inr rfl) here) ?_
    rintro found' declared ⟨same, rfl⟩
    refine .inl ⟨rfl, rfl, ?_, rfl⟩
    simp [branchesWithoutSpans, same]
  | cons second more =>
    let printed := Print.joined (Print.entries (second :: more)) ++ '}' :: rest
    have entryText : cursor.rest
          = Print.choice value ++ (Print.weight written ++ ',' :: ' ' :: printed) ∨
        cursor.rest
          = ' ' :: (Print.choice value ++ (Print.weight written ++ ',' :: ' ' :: printed)) := by
      obtain ⟨secondValue, secondWritten⟩ := second
      simpa [Print.entries, Print.joined, printed] using text
    refine reads_entries opening found .empty entryText (starts _) whole (.inl rfl)
      (fun after here => inner.before_weight (.inl rfl) here) ?_
    rintro found' declared ⟨same, rfl⟩
    refine .inr ⟨rfl, fun after here => ?_⟩
    obtain ⟨reading, read, ⟨value, legacy⟩, restEq⟩ :=
      later (by simp) opening (⟨found', written⟩ :: found) rest after (.inr here)
    refine ⟨reading, read, ⟨?_, legacy⟩, restEq⟩
    rw [value]
    simp [branchesWithoutSpans, same]

/-- The entries of a fork start with a choice. -/
theorem entries_open {branches : List Branch} (some : branches ≠ [])
    (printable : BranchesPrintable branches) (tail : List Char) :
    ∃ value behind, Choice.Printable value ∧
      Print.joined (Print.entries branches) ++ tail = Print.choice value ++ behind := by
  match branches, some, printable with
  | [⟨value, written⟩], _, ⟨valuePrintable, _⟩ =>
    exact ⟨value, _, valuePrintable, by simp [Print.entries, Print.joined]; rfl⟩
  | ⟨value, written⟩ :: ⟨_, _⟩ :: _, _, ⟨valuePrintable, _⟩ =>
    exact ⟨value, _, valuePrintable, by simp [Print.entries, Print.joined]; rfl⟩

/-- A fork is read back from its entries. -/
theorem readsBlock_fork {identifier : Option String} {silent isSet : Bool} {branches : List Branch}
    {span : Span} (printable : (Node.fork ⟨identifier, silent, isSet, branches, span⟩).Printable)
    (inner : ReadsEntries branches) :
    ReadsBlock (.fork ⟨identifier, silent, isSet, branches, span⟩) := by
  intro opening rest cursor text
  obtain ⟨valid, some, small, entriesPrintable⟩ := printable
  have blockText : cursor.rest = Print.flags silent isSet ++ (Print.label identifier ++
      (Print.joined (Print.entries branches) ++ '}' :: rest)) := by
    simpa [Print.node] using text
  have opens : (∃ inside, Print.joined (Print.entries branches) ++ '}' :: rest = '(' :: inside) ∨
      ∃ inside, Print.joined (Print.entries branches) ++ '}' :: rest
        = ['c', 'a', 'l', 'l'] ++ ' ' :: inside := by
    obtain ⟨value, behind, valuePrintable, first⟩ :=
      entries_open some entriesPrintable ('}' :: rest)
    rw [first]
    exact choice_opens valuePrintable behind
  obtain ⟨reading, read, ⟨found, foundSpan, ⟨same, legacy⟩, node⟩, restEq⟩ :=
    reads_block_fork opening blockText valid opens
      (fun after here => inner opening [] rest after (.inl here)) fun found declared good span => by
        have sameBranches : branchesWithoutSpans found = branchesWithoutSpans branches := good.1
        have wholeWeights : WholeWeights found := by
          rw [← wholeWeights_withoutSpans, sameBranches, wholeWeights_withoutSpans]
          exact wholeWeights_of_printable entriesPrintable
        have light : writtenTotal found ≤ 100 := by
          rw [← writtenTotal_withoutSpans, sameBranches, writtenTotal_withoutSpans]
          exact small
        let fork : Fork := ⟨identifier, silent, isSet, found, span⟩
        have whole : WholeWeights fork.branches := wholeWeights
        exact ⟨_, ofWritten_whole whole light⟩
  refine ⟨reading, read, ⟨_, Prod.ext node legacy, ?_⟩, restEq⟩
  have sameBranches : branchesWithoutSpans found = branchesWithoutSpans branches := same
  rw [Node.withoutSpans, Node.withoutSpans, sameBranches]

/-! ### References -/

theorem joined_cons {item : List Char} {items : List (List Char)} (some : items ≠ []) :
    Print.joined (item :: items) = item ++ ',' :: ' ' :: Print.joined items := by
  obtain ⟨second, more, rfl⟩ := List.exists_cons_of_ne_nil some
  rfl

theorem mapped_ne_nil {mapped : List Mapping} {fallback : Option Choice}
    (more : mapped ≠ [] ∨ fallback ≠ none) : Print.mapped mapped ++ Print.others fallback ≠ [] := by
  match mapped, fallback, more with
  | ⟨_, _⟩ :: _, _, _ => simp [Print.mapped]
  | [], some _, _ => simp [Print.others]
  | [], none, more => simp at more

/-- Ascending branches are not below their bound. -/
theorem le_of_ascending {low : Nat} {mapped : List Mapping} (ascending : AscendingFrom low mapped) :
    ∀ mapping ∈ mapped, low ≤ mapping.branch := by
  induction mapped generalizing low with
  | nil => intro mapping member; cases member
  | cons first rest ih =>
    obtain ⟨branch, value⟩ := first
    obtain ⟨bound, -, above⟩ := ascending
    refine List.forall_mem_cons.2 ⟨bound, fun mapping member => ?_⟩
    exact Nat.le_trans bound (Nat.le_of_succ_le (ih above mapping member))

/-- A mapping is read back, and then the others and the fallback. -/
theorem readsMappings_cons {branch : Nat} {value : Choice} {others : List Mapping}
    {fallback : Option Choice} (printable : value.Printable) (small : branch ≤ largestBranch)
    (ascending : ∀ mapping ∈ others, branch < mapping.branch) (inner : ReadsChoice value)
    (later : others ≠ [] ∨ fallback ≠ none → ReadsMappings others fallback) :
    ReadsMappings (⟨branch, value⟩ :: others) fallback := by
  intro opening first found rest cursor above text
  have starts : ∀ behind, Starts (Print.choice value ++ behind) (·.isTrivia = false) :=
    fun behind => (starts_choice printable behind).imp fun kind opens => by
      rcases opens with rfl | rfl <;> decide
  have aboveFound : ∀ other ∈ found, other.branch < branch :=
    fun other member => above other member ⟨branch, value⟩ (List.mem_cons_self ..)
  by_cases more : others ≠ [] ∨ fallback ≠ none
  · let printed := Print.joined (Print.mapped others ++ Print.others fallback) ++ '}' :: rest
    have entryText : cursor.rest
          = Print.number branch ++ [' ', '-', '>', ' '] ++ (Print.choice value ++ ',' :: ' ' :: printed) ∨
        cursor.rest = ' ' :: (Print.number branch ++ [' ', '-', '>', ' '] ++
          (Print.choice value ++ ',' :: ' ' :: printed)) := by
      have items : Print.mapped others ++ Print.others fallback ≠ [] := mapped_ne_nil more
      simpa [Print.mapped, joined_cons items, printed] using text
    refine reads_mappings_index entryText small aboveFound (starts _) (.inl rfl)
      (fun after here => inner ',' _ after (by decide) here) ?_
    rintro found' declared ⟨same, rfl⟩
    refine .inr ⟨rfl, fun after here => ?_⟩
    have aboveOthers : ∀ other ∈ found ++ [⟨branch, found'⟩], ∀ mapping ∈ others,
        other.branch < mapping.branch := by
      intro other member mapping inOthers
      rcases List.mem_append.1 member with inFound | isLast
      · exact above other inFound mapping (List.mem_cons_of_mem _ inOthers)
      · rw [List.mem_singleton.1 isLast]
        exact ascending mapping inOthers
    obtain ⟨reading, read, ⟨value, legacy⟩, restEq⟩ :=
      later more opening false (found ++ [⟨branch, found'⟩]) rest after aboveOthers (.inr here)
    refine ⟨reading, read, ⟨?_, legacy⟩, restEq⟩
    rw [value]
    simp [mappingsWithoutSpans, same]
  · obtain ⟨rfl, rfl⟩ : others = [] ∧ fallback = none := by
      simpa [not_or] using more
    have entryText : cursor.rest
          = Print.number branch ++ [' ', '-', '>', ' '] ++ (Print.choice value ++ '}' :: rest) ∨
        cursor.rest = ' ' :: (Print.number branch ++ [' ', '-', '>', ' '] ++
          (Print.choice value ++ '}' :: rest)) := by
      simpa [Print.mapped, Print.others, Print.joined] using text
    refine reads_mappings_index entryText small aboveFound (starts _) (.inr rfl)
      (fun after here => inner '}' _ after (by decide) here) ?_
    rintro found' declared ⟨same, rfl⟩
    refine .inl ⟨rfl, rfl, ?_, rfl, rfl⟩
    simp [mappingsWithoutSpans, same]

/-- A fallback is read back. -/
theorem readsMappings_fallback {value : Choice} (printable : value.Printable)
    (inner : ReadsChoice value) : ReadsMappings [] (some value) := by
  intro opening first found rest cursor _ text
  have starts : Starts (Print.choice value ++ '}' :: rest) fun kind =>
      kind.isTrivia = false ∧ kind ≠ .rightBrace ∧ kind ≠ .endOfText ∧ kind ≠ .number :=
    (starts_choice printable _).imp fun kind opens => by
      rcases opens with rfl | rfl <;> decide
  have entryText : cursor.rest = Print.choice value ++ '}' :: rest ∨
      cursor.rest = ' ' :: (Print.choice value ++ '}' :: rest) := by
    simpa [Print.mapped, Print.others, Print.joined] using text
  refine reads_mappings_fallback entryText starts
    (fun after here => inner '}' _ after (by decide) here) ?_
  rintro found' declared ⟨same, rfl⟩
  refine ⟨by simp [mappingsWithoutSpans], ?_, rfl⟩
  rw [fallbackWithoutSpans, fallbackWithoutSpans, same]

/-- A reference is read back from its mappings. -/
theorem readsBlock_reference {target : String} {identifier : Option String} {silent reruns : Bool}
    {mapped : List Mapping} {fallback : Option Choice} {span : Span}
    (validTarget : IsIdentifier target)
    (valid : ∀ name, identifier = some name → IsIdentifier name)
    (inner : mapped ≠ [] ∨ fallback ≠ none → ReadsMappings mapped fallback) :
    ReadsBlock (.reference ⟨target, identifier, silent, mapped, fallback, reruns, span⟩) := by
  intro opening rest cursor text
  let inside := target.toList ++
    (Print.groups (Print.mapped mapped ++ Print.others fallback) ++ '}' :: rest)
  have blockText : cursor.rest = Print.flags silent false ++ (Print.label identifier ++
      ((if reruns then ['e', 'v', 'a', 'l', ' '] else []) ++ '@' :: inside)) := by
    simpa [Print.node, inside] using text
  by_cases copy : mapped ≠ [] ∨ fallback ≠ none
  · have insideEq : inside = target.toList ++ ':' :: ' ' ::
        (Print.joined (Print.mapped mapped ++ Print.others fallback) ++ '}' :: rest) := by
      obtain ⟨first, more, items⟩ := List.exists_cons_of_ne_nil (mapped_ne_nil copy)
      simp [inside, items, Print.groups]
    obtain ⟨reading, read, ⟨found, ⟨mappings, foundFallback, foundSpan, ⟨same, sameFallback, legacy⟩,
      foundEq⟩, node⟩, restEq⟩ := reads_block_reference opening blockText valid fun after here =>
        reads_reference_mapped (here.trans insideEq) validTarget fun entries there =>
          inner copy opening true [] rest entries (by simp) (.inr there)
    refine ⟨reading, read, ⟨_, Prod.ext node legacy, ?_⟩, restEq⟩
    have sameMappings : mappingsWithoutSpans mappings = mappingsWithoutSpans mapped := same
    have sameFound : fallbackWithoutSpans foundFallback = fallbackWithoutSpans fallback :=
      sameFallback
    have foundIs : found = ⟨target, identifier, silent, mappings, foundFallback, reruns, foundSpan⟩ :=
      foundEq
    rw [foundIs, Node.withoutSpans, Node.withoutSpans, sameMappings, sameFound]
  · obtain ⟨rfl, rfl⟩ : mapped = [] ∧ fallback = none := by
      simpa [not_or] using copy
    have insideEq : inside = target.toList ++ '}' :: rest := by
      simp [inside, Print.mapped, Print.others, Print.groups]
    obtain ⟨reading, read, ⟨found, ⟨foundSpan, foundEq⟩, node⟩, restEq⟩ :=
      reads_block_reference opening blockText valid fun after here =>
        reads_reference_copy (here.trans insideEq) validTarget
    obtain ⟨foundIs, legacy⟩ := Prod.mk.inj foundEq
    refine ⟨reading, read, ⟨_, Prod.ext node legacy, ?_⟩, restEq⟩
    rw [foundIs, Node.withoutSpans, Node.withoutSpans]

/-! ### The tree -/

mutual

theorem readsNodes (nodes : List Node) (printable : NodesPrintable nodes) : ReadsNodes nodes := by
  match nodes, printable with
  | [], _ => exact readsNodes_nil
  | .text _ :: others, ⟨filled, noText, othersPrintable⟩ =>
    exact readsNodes_text filled noText (readsNodes others othersPrintable)
  | .fork ⟨_, _, _, branches, _⟩ :: others, ⟨⟨valid, filled, small, branchesPrintable⟩, othersPrintable⟩ =>
    exact readsNodes_block (by simp [Print.node]) (by simp [Node.withoutSpans])
      (readsBlock_fork ⟨valid, filled, small, branchesPrintable⟩
        (readsEntries branches filled branchesPrintable)) (readsNodes others othersPrintable)
  | .reference ⟨_, _, _, mapped, fallback, _, _⟩ :: others,
      ⟨⟨validTarget, valid, ascending, mappedPrintable, fallbackPrintable⟩, othersPrintable⟩ =>
    exact readsNodes_block (by simp [Print.node]) (by simp [Node.withoutSpans])
      (readsBlock_reference validTarget valid
        (readsMappings mapped ascending mappedPrintable (readsFallback fallback fallbackPrintable)))
      (readsNodes others othersPrintable)

theorem readsChoice (value : Choice) (printable : value.Printable) : ReadsChoice value := by
  match value, printable with
  | .nodes nodes, printable => exact readsChoice_nodes (readsNodes nodes printable)
  | .call call, valid => exact readsChoice_call valid

theorem readsEntries (branches : List Branch) (filled : branches ≠ [])
    (printable : BranchesPrintable branches) : ReadsEntries branches := by
  match branches, printable with
  | ⟨value, written⟩ :: others, ⟨valuePrintable, whole, othersPrintable⟩ =>
    exact readsEntries_cons valuePrintable whole (readsChoice value valuePrintable)
      fun more => readsEntries others more othersPrintable

theorem readsMappings (mapped : List Mapping) {fallback : Option Choice} {low : Nat}
    (ascending : AscendingFrom low mapped) (printable : MappingsPrintable mapped)
    (readsFallback : fallback ≠ none → ReadsMappings [] fallback)
    (more : mapped ≠ [] ∨ fallback ≠ none) : ReadsMappings mapped fallback := by
  match mapped, ascending, printable with
  | ⟨branch, value⟩ :: others, ⟨_, small, above⟩, ⟨valuePrintable, othersPrintable⟩ =>
    exact readsMappings_cons valuePrintable small (le_of_ascending above)
      (readsChoice value valuePrintable) (readsMappings others above othersPrintable readsFallback)
  | [], _, _ => exact readsFallback (by simpa using more)

theorem readsFallback (fallback : Option Choice) (printable : FallbackPrintable fallback)
    (filled : fallback ≠ none) : ReadsMappings [] fallback := by
  match fallback, printable with
  | some value, printable => exact readsMappings_fallback printable (readsChoice value printable)

end

end Reader

/-! ## Documents -/

mutual

theorem nodesWithin_withoutSpans (nodes : List Node) :
    nodesWithin (nodesWithoutSpans nodes) = (nodesWithin nodes).map Node.withoutSpans := by
  match nodes with
  | [] => rfl
  | node :: others =>
    simp [nodesWithoutSpans, nodesWithin, within_withoutSpans node, nodesWithin_withoutSpans others]

theorem within_withoutSpans (node : Node) :
    node.withoutSpans.within = node.within.map Node.withoutSpans := by
  match node with
  | .text _ => simp [Node.withoutSpans, Node.within]
  | .fork ⟨_, _, _, branches, _⟩ =>
    simp [Node.withoutSpans, Node.within, withinBranches_withoutSpans branches]
  | .reference ⟨_, _, _, mapped, fallback, _, _⟩ =>
    simp [Node.withoutSpans, Node.within, withinMappings_withoutSpans mapped,
      withinFallback_withoutSpans fallback]

theorem choiceWithin_withoutSpans (value : Choice) :
    value.withoutSpans.within = value.within.map Node.withoutSpans := by
  match value with
  | .nodes nodes => simp [Choice.withoutSpans, Choice.within, nodesWithin_withoutSpans nodes]
  | .script _ => rfl
  | .call _ => rfl

theorem withinBranches_withoutSpans (branches : List Branch) :
    withinBranches (branchesWithoutSpans branches)
      = (withinBranches branches).map Node.withoutSpans := by
  match branches with
  | [] => rfl
  | ⟨value, _⟩ :: others =>
    simp [branchesWithoutSpans, withinBranches, choiceWithin_withoutSpans value,
      withinBranches_withoutSpans others]

theorem withinMappings_withoutSpans (mapped : List Mapping) :
    withinMappings (mappingsWithoutSpans mapped)
      = (withinMappings mapped).map Node.withoutSpans := by
  match mapped with
  | [] => rfl
  | ⟨_, value⟩ :: others =>
    simp [mappingsWithoutSpans, withinMappings, choiceWithin_withoutSpans value,
      withinMappings_withoutSpans others]

theorem withinFallback_withoutSpans (fallback : Option Choice) :
    withinFallback (fallbackWithoutSpans fallback)
      = (withinFallback fallback).map Node.withoutSpans := by
  match fallback with
  | none => rfl
  | some value => exact choiceWithin_withoutSpans value

end

/-- Whether the written weights of a fork are whole and at most its mass together. -/
def Node.Light : Node → Prop
  | .fork ⟨_, _, _, branches, _⟩ => WholeWeights branches ∧ writtenTotal branches ≤ 100
  | .text _ => True
  | .reference _ => True

theorem light_withoutSpans (node : Node) : node.withoutSpans.Light ↔ node.Light := by
  match node with
  | .text _ => simp [Node.withoutSpans]
  | .fork ⟨_, _, _, branches, _⟩ =>
    simp [Node.Light, Node.withoutSpans, wholeWeights_withoutSpans]
  | .reference ⟨_, _, _, _, _, _, _⟩ => simp [Node.Light, Node.withoutSpans]

mutual

/-- The forks of a printable sequence are light. -/
theorem light_of_nodesPrintable (nodes : List Node) (printable : NodesPrintable nodes) :
    ∀ node ∈ nodesWithin nodes, node.Light := by
  match nodes, printable with
  | [], _ => simp [nodesWithin]
  | .text _ :: others, ⟨_, _, othersPrintable⟩ =>
    simp only [nodesWithin, Node.within, List.forall_mem_append, List.forall_mem_singleton]
    exact ⟨trivial, light_of_nodesPrintable others othersPrintable⟩
  | .fork ⟨_, _, _, branches, _⟩ :: others, ⟨⟨_, _, small, branchesPrintable⟩, othersPrintable⟩ =>
    simp only [nodesWithin, Node.within, List.forall_mem_append, List.forall_mem_cons]
    exact ⟨⟨⟨wholeWeights_of_printable branchesPrintable, small⟩,
      light_of_branchesPrintable branches branchesPrintable⟩,
      light_of_nodesPrintable others othersPrintable⟩
  | .reference ⟨_, _, _, mapped, fallback, _, _⟩ :: others,
      ⟨⟨_, _, _, mappedPrintable, fallbackPrintable⟩, othersPrintable⟩ =>
    simp only [nodesWithin, Node.within, List.forall_mem_append, List.forall_mem_cons]
    exact ⟨⟨trivial, light_of_mappingsPrintable mapped mappedPrintable,
      light_of_fallbackPrintable fallback fallbackPrintable⟩,
      light_of_nodesPrintable others othersPrintable⟩

theorem light_of_printable (value : Choice) (printable : value.Printable) :
    ∀ node ∈ value.within, node.Light := by
  match value, printable with
  | .nodes nodes, printable => exact light_of_nodesPrintable nodes printable
  | .call _, _ => simp [Choice.within]

theorem light_of_branchesPrintable (branches : List Branch)
    (printable : BranchesPrintable branches) : ∀ node ∈ withinBranches branches, node.Light := by
  match branches, printable with
  | [], _ => simp [withinBranches]
  | ⟨value, _⟩ :: others, ⟨valuePrintable, _, othersPrintable⟩ =>
    simp only [withinBranches, List.forall_mem_append]
    exact ⟨light_of_printable value valuePrintable,
      light_of_branchesPrintable others othersPrintable⟩

theorem light_of_mappingsPrintable (mapped : List Mapping)
    (printable : MappingsPrintable mapped) : ∀ node ∈ withinMappings mapped, node.Light := by
  match mapped, printable with
  | [], _ => simp [withinMappings]
  | ⟨_, value⟩ :: others, ⟨valuePrintable, othersPrintable⟩ =>
    simp only [withinMappings, List.forall_mem_append]
    exact ⟨light_of_printable value valuePrintable,
      light_of_mappingsPrintable others othersPrintable⟩

theorem light_of_fallbackPrintable (fallback : Option Choice)
    (printable : FallbackPrintable fallback) : ∀ node ∈ withinFallback fallback, node.Light := by
  match fallback, printable with
  | none, _ => simp [withinFallback]
  | some value, printable => exact light_of_printable value printable

end

/-- Trees that agree up to spans have equally light forks. -/
theorem light_of_same {nodes others : List Node}
    (same : nodesWithoutSpans nodes = nodesWithoutSpans others)
    (light : ∀ node ∈ nodesWithin others, node.Light) : ∀ node ∈ nodesWithin nodes, node.Light := by
  intro node member
  have sameNodes : (nodesWithin nodes).map Node.withoutSpans
      = (nodesWithin others).map Node.withoutSpans := by
    rw [← nodesWithin_withoutSpans, same, nodesWithin_withoutSpans]
  have inOthers : node.withoutSpans ∈ (nodesWithin others).map Node.withoutSpans :=
    sameNodes ▸ List.mem_map_of_mem member
  obtain ⟨other, otherMember, otherEq⟩ := List.mem_map.1 inOthers
  rw [← light_withoutSpans, ← otherEq, light_withoutSpans]
  exact light other otherMember

/-- A printed tree is read as a document with the same tree up to spans and without modes, and
every fork of it is the one that its entries make. -/
theorem read_print (nodes : List Node) (printable : NodesPrintable nodes) :
    ∃ document, Document.read (Print.nodes nodes) = .ok document ∧
      nodesWithoutSpans document.nodes = nodesWithoutSpans nodes ∧
      document.modes = [] ∧ document.modeSwitches = [] ∧
      ∀ fork, .fork fork ∈ nodesWithin document.nodes →
        Deck.ofWritten fork.isSet fork.written = (.ok fork.deck : Except Float (Deck Float)) := by
  obtain ⟨reading, read, ⟨value, legacy⟩, -⟩ :=
    Reader.readsNodes nodes printable none [] [] .empty (Cursor.start (Print.nodes nodes))
      (.inr ⟨rfl, rfl, rfl⟩) (fun _ => Passage.fresh_empty) (by simp [Cursor.start])
  have sameNodes : nodesWithoutSpans reading.value.1 = nodesWithoutSpans nodes := value
  refine ⟨_, by rw [Document.read, read], sameNodes, by rw [legacy]; rfl, by rw [legacy]; rfl, ?_⟩
  intro ⟨identifier, silent, isSet, branches, span⟩ member
  have light : WholeWeights branches ∧ writtenTotal branches ≤ 100 :=
    light_of_same sameNodes (light_of_nodesPrintable nodes printable) _ member
  exact ofWritten_whole light.1 light.2

theorem sampleTree_printable : NodesPrintable sampleTree := by
  have chars : (["call", "eval-2", "use", "f"].all fun name =>
      name != "" && name.toList.all Reader.isIdentifierChar) = true := by decide +kernel
  have names : ∀ name ∈ ["call", "eval-2", "use", "f"], IsIdentifier name := by
    intro name member
    simpa [IsIdentifier] using List.all_eq_true.1 chars name member
  simp only [List.forall_mem_cons, List.not_mem_nil, false_implies, implies_true, and_true] at names
  simp [sampleTree, NodesPrintable, Node.Printable, Choice.Printable, BranchesPrintable,
    MappingsPrintable, FallbackPrintable, startsWithText, writtenTotal, AscendingFrom,
    Reader.largestBranch, names, UInt64.size]

/-- The sample tree is read back from its print. -/
theorem read_print_sampleTree : NodesPrintable sampleTree ∧
    ∃ document, Document.read (Print.nodes sampleTree) = .ok document ∧
      nodesWithoutSpans document.nodes = nodesWithoutSpans sampleTree ∧
      document.modes = [] ∧ document.modeSwitches = [] ∧
      ∀ fork, .fork fork ∈ nodesWithin document.nodes →
        Deck.ofWritten fork.isSet fork.written = (.ok fork.deck : Except Float (Deck Float)) :=
  ⟨sampleTree_printable, read_print sampleTree sampleTree_printable⟩

end BranchText
