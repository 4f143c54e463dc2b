import BranchText.Proofs.Render.Replacement

/-!
# What nodes contribute to the text

The text of a sequence of nodes is put together from one part for each node. A silent node
contributes nothing. A literal text directly behind a silent node loses a line break if all that
was put out before it ends where a line starts; every other node contributes its whole text. So a
run of silent nodes takes at most one line break along, however long it is.
-/

namespace BranchText

/-- Whether the node puts nothing out. -/
def Node.isSilent : Node → Bool
  | .text _ => false
  | .fork point => point.silent
  | .reference look => look.silent

namespace Rendering

/-- Renders one node, whether it is silent or not. -/
def renderNode (nested : Choice → Rendering String) : Node → Rendering String
  | .text content => return content
  | .fork fork => renderFork nested fork
  | .reference reference => renderReference nested reference

/-- The nodes render one after another, and give these texts. -/
inductive Renders (nested : Choice → Rendering String) :
    RenderState → List Node → List String → RenderState → Prop
  | nil (state : RenderState) : Renders nested state [] [] state
  | cons {state between later : RenderState} {node : Node} {text : String} {nodes : List Node}
    {texts : List String} (first : (renderNode nested node).run state = (.ok text, between))
    (rest : Renders nested between nodes texts later) :
    Renders nested state (node :: nodes) (text :: texts) later

/-- Whether the node just before the place is silent. -/
def behindSilent (nodes : List Node) : Nat → Bool
  | 0 => false
  | place + 1 => nodes[place]?.any Node.isSilent

/-- What a node that gave the text contributes behind what was put out before it. -/
def contribution (startsLine : Bool) (before : String) (silentBefore : Bool) :
    Node → String → String
  | .text content, _ =>
    if silentBefore && isLineStart before.toList startsLine then
      String.ofList (dropLineBreak content.toList)
    else content
  | .fork fork, text => if fork.silent then "" else text
  | .reference reference, text => if reference.silent then "" else text

/-- What a node would contribute if line breaks were never dropped. -/
def shown (node : Node) (text : String) : String := if node.isSilent then "" else text

/-- At most one line break, together with the blanks before it. -/
inductive OneBreak : List Char → Prop
  | none : OneBreak []
  | lineFeed {blanks : List Char} (blank : ∀ c ∈ blanks, isBlank c = true) :
    OneBreak (blanks ++ ['\n'])
  | both {blanks : List Char} (blank : ∀ c ∈ blanks, isBlank c = true) :
    OneBreak (blanks ++ ['\r', '\n'])

theorem exists_oneBreak_dropLineBreak (text : List Char) :
    ∃ removed, OneBreak removed ∧ text = removed ++ dropLineBreak text := by
  have blank : ∀ c ∈ text.takeWhile isBlank, isBlank c = true :=
    List.all_eq_true.1 List.all_takeWhile
  have split := text.takeWhile_append_dropWhile (p := isBlank)
  unfold dropLineBreak
  split
  · rename_i rest found
    refine ⟨_, .both blank, ?_⟩
    rw [found] at split
    simpa using split.symm
  · rename_i rest found
    refine ⟨_, .lineFeed blank, ?_⟩
    rw [found] at split
    simpa using split.symm
  · exact ⟨[], .none, rfl⟩

section Parts

variable {nested : Choice → Rendering String} (startsLine : Bool)

/-- The parts of nodes that gave the texts, behind what was put out before them. -/
def contributions : String → Bool → List Node → List String → List String
  | before, silentBefore, node :: nodes, text :: texts =>
    let part := contribution startsLine before silentBefore node text
    part :: contributions (before ++ part) node.isSilent nodes texts
  | _, _, _, _ => []

/-- Puts what a node gave behind the line. -/
def Line.add (line : Line) : Node → String → Line
  | .text content, _ => line.addText content
  | .fork fork, text => line.addRendered startsLine fork.silent text
  | .reference reference, text => line.addRendered startsLine reference.silent text

/-- A node is rendered, whatever it is, and then put behind the line. -/
theorem addNode_eq (line : Line) (node : Node) : addNode nested startsLine line node =
    renderNode nested node >>= fun text => pure (line.add startsLine node text) := by
  cases node <;> rfl

/-- A node puts its contribution behind the line. That a break is to be dropped means that the
node just before is silent and the line ends where a line starts. -/
theorem Line.add_contribution {line : Line} {silentBefore : Bool} (node : Node) (text : String)
    (drops : line.dropsBreak = (silentBefore && isLineStart line.text.toList startsLine)) :
    (line.add startsLine node text).text =
        line.text ++ contribution startsLine line.text silentBefore node text ∧
      (line.add startsLine node text).dropsBreak = (node.isSilent &&
        isLineStart (line.add startsLine node text).text.toList startsLine) := by
  -- What is silent adds nothing, so the break is dropped if it was to be dropped before.
  have added : ∀ silent : Bool,
      (line.addRendered startsLine silent text).text =
          line.text ++ (if silent then "" else text) ∧
        (line.addRendered startsLine silent text).dropsBreak = (silent &&
          isLineStart (line.addRendered startsLine silent text).text.toList startsLine) := by
    intro silent
    cases silent with
    | false => exact ⟨rfl, rfl⟩
    | true =>
      simp only [Line.addRendered, drops, if_true, String.append_empty, true_and, Bool.true_and]
      cases isLineStart line.text.toList startsLine <;> simp
  cases node with
  | text content =>
    simp only [Line.add, Line.addText, drops, contribution]
    split
    · exact ⟨rfl, rfl⟩
    · exact ⟨rfl, rfl⟩
  | fork fork => exact added fork.silent
  | reference reference => exact added reference.silent

/-- Nodes put their contributions behind the line, one after another. -/
theorem run_foldlM_addNode {state later : RenderState} {nodes : List Node} {texts : List String}
    (renders : Renders nested state nodes texts later) (line : Line) (silentBefore : Bool)
    (drops : line.dropsBreak = (silentBefore && isLineStart line.text.toList startsLine)) :
    ∃ last : Line, (nodes.foldlM (addNode nested startsLine) line).run state = (.ok last, later) ∧
      last.text =
        line.text ++ String.join (contributions startsLine line.text silentBefore nodes texts) := by
  induction renders generalizing line silentBefore with
  | nil state => exact ⟨line, rfl, (String.append_empty).symm⟩
  | @cons state between later node text nodes texts first rest ih =>
    obtain ⟨same, dropsNext⟩ := Line.add_contribution startsLine node text drops
    obtain ⟨last, runs, ends⟩ := ih (line.add startsLine node text) _ dropsNext
    refine ⟨last, ?_, ?_⟩
    · rw [List.foldlM_cons, addNode_eq, run_bind, run_bind, first]
      exact runs
    · rw [ends, same, contributions, String.join_cons, String.append_assoc]

/-- Every part is the contribution of its node. -/
theorem getElem?_contributions (before : String) (silentBefore : Bool) {nodes : List Node}
    {texts : List String} {place : Nat} {node : Node} {text : String}
    (there : nodes[place]? = some node) (gave : texts[place]? = some text) :
    (contributions startsLine before silentBefore nodes texts)[place]? =
      some (contribution startsLine (before ++ String.join
          ((contributions startsLine before silentBefore nodes texts).take place))
        (if place = 0 then silentBefore else behindSilent nodes place) node text) := by
  induction nodes generalizing texts before silentBefore place with
  | nil => cases there
  | cons first nodes ih =>
    cases texts with
    | nil => cases gave
    | cons firstText texts =>
      cases place with
      | zero =>
        cases there
        cases gave
        simp [contributions]
      | succ place =>
        have silent : (if place = 0 then first.isSilent else behindSilent nodes place) =
            behindSilent (first :: nodes) (place + 1) := by
          cases place <;> rfl
        rw [contributions, List.getElem?_cons_succ, ih _ _ there gave, silent, List.take_succ_cons,
          String.join_cons, String.append_assoc, if_neg (Nat.succ_ne_zero place)]

theorem length_contributions {state later : RenderState} {nodes : List Node} {texts : List String}
    (renders : Renders nested state nodes texts later) (before : String) (silentBefore : Bool) :
    (contributions startsLine before silentBefore nodes texts).length = nodes.length := by
  induction renders generalizing before silentBefore with
  | nil state => rfl
  | cons first rest ih => rw [contributions, List.length_cons, List.length_cons, ih]

/-- What a node contributes is what it would show, but for at most one line break. -/
theorem exists_oneBreak_contribution (before : String) (silentBefore : Bool) {node : Node}
    {text : String} {state between : RenderState}
    (rendered : (renderNode nested node).run state = (.ok text, between)) :
    ∃ removed, OneBreak removed ∧ (shown node text).toList =
      removed ++ (contribution startsLine before silentBefore node text).toList := by
  cases node with
  | text content =>
    cases rendered
    obtain ⟨removed, one, split⟩ := exists_oneBreak_dropLineBreak text.toList
    simp only [contribution]
    split
    · exact ⟨removed, one, by simpa [shown, Node.isSilent] using split⟩
    · exact ⟨[], .none, rfl⟩
  | fork fork => exact ⟨[], .none, rfl⟩
  | reference reference => exact ⟨[], .none, rfl⟩

/-- What a silent node contributes, and what it shows. -/
theorem eq_empty_of_isSilent (before : String) (silentBefore : Bool) {node : Node} (text : String)
    (silent : node.isSilent = true) :
    shown node text = "" ∧ contribution startsLine before silentBefore node text = "" := by
  refine ⟨if_pos silent, ?_⟩
  cases node with
  | text content => cases silent
  | fork fork => exact if_pos silent
  | reference reference => exact if_pos silent

/-- Silent nodes and the node behind them lose at most one line break together. -/
theorem exists_oneBreak_run {state later : RenderState} {nodes : List Node} {texts : List String}
    (renders : Renders nested state nodes texts later) (before : String) (silentBefore : Bool)
    (start count : Nat)
    (silent : ∀ place, start ≤ place → place < start + count → ∀ node, nodes[place]? = some node →
      node.isSilent = true) :
    ∃ removed, OneBreak removed ∧
      (String.join (((nodes.zipWith shown texts).drop start).take (count + 1))).toList =
        removed ++ (String.join (((contributions startsLine before silentBefore nodes texts).drop
          start).take (count + 1))).toList := by
  induction renders generalizing before silentBefore start count with
  | nil state => exact ⟨[], .none, by simp [contributions]⟩
  | @cons state between later node text nodes texts first rest ih =>
    rw [contributions, List.zipWith_cons_cons]
    cases start with
    | succ start =>
      refine ih _ _ start count fun place after below node there => ?_
      exact silent (place + 1) (by omega) (by omega) node there
    | zero =>
      obtain ⟨removed, one, split⟩ :=
        exists_oneBreak_contribution startsLine before silentBefore first
      cases count with
      | zero => exact ⟨removed, one, by simpa using split⟩
      | succ count =>
        obtain ⟨removed, one, split⟩ := ih _ _ 0 count
          fun place _ below node there => silent (place + 1) (by omega) (by omega) node there
        have nothing := eq_empty_of_isSilent startsLine before silentBefore text
          (silent 0 (by omega) (by omega) node rfl)
        refine ⟨removed, one, ?_⟩
        simpa [nothing.1, nothing.2] using split

/-- A sequence of nodes gives the contributions of its nodes, one behind another, and each run of
silent nodes takes at most one line break along, with the blanks before it. -/
theorem renderNodes_contributions {state later : RenderState} {nodes : List Node}
    {texts : List String} (renders : Renders nested state nodes texts later) :
    ∃ parts : List String, (renderNodes nested nodes startsLine).run state =
        (.ok (String.join parts), later) ∧ parts.length = nodes.length ∧
      (∀ (place : Nat) (node : Node) (text : String), nodes[place]? = some node →
        texts[place]? = some text → parts[place]? = some (contribution startsLine
          (String.join (parts.take place)) (behindSilent nodes place) node text)) ∧
      ∀ start count, (∀ place, start ≤ place → place < start + count → ∀ node,
          nodes[place]? = some node → node.isSilent = true) →
        ∃ removed, OneBreak removed ∧
          (String.join (((nodes.zipWith shown texts).drop start).take (count + 1))).toList =
            removed ++ (String.join ((parts.drop start).take (count + 1))).toList := by
  refine ⟨contributions startsLine "" false nodes texts, ?_,
    length_contributions startsLine renders _ _, fun place node text there gave => ?_,
    exists_oneBreak_run startsLine renders _ _⟩
  · obtain ⟨last, run, ends⟩ := run_foldlM_addNode startsLine renders ⟨"", false⟩ false rfl
    rw [renderNodes, run_bind, run]
    rw [String.empty_append] at ends
    exact congrArg (fun text => (Except.ok text, later)) ends
  · have part := getElem?_contributions startsLine "" false there gave
    rw [String.empty_append] at part
    cases place with
    | zero => exact part
    | succ place => exact part

end Parts

/-- A fork with one branch of text. -/
def oneWay (name : String) (silent isSet : Bool) (text : String) (start stop : Nat) : Node :=
  .fork ⟨some name, silent, isSet, [⟨.nodes [.text text], none⟩], ⟨start, stop⟩⟩

/-- Two silent declarations on a line of their own, and an empty fork that is not silent. -/
def declaringLine : List Node :=
  [.text "a\n", oneWay "N" true false "x" 2 11, oneWay "M" true true "y" 11 21, .text "  \nb",
    oneWay "E" false false "" 25 32, .text "\nc"]

/-- The declarations take the break of their line along, with the blanks before it; the empty fork
takes none. -/
theorem renderNodes_contributions_declaringLine :
    ∃ texts later parts, Renders (choice depthLimit scriptless) (.initial (.ofSeed 1))
        declaringLine texts later ∧
      (renderNodes (choice depthLimit scriptless) declaringLine true).run (.initial (.ofSeed 1)) =
        (.ok (String.join parts), later) ∧
      String.join parts = "a\nb\nc" ∧ ∃ removed, OneBreak removed ∧
        "  \nb".toList = removed ++ (String.join ((parts.drop 1).take 3)).toList := by
  have renders : ∃ later, Renders (choice depthLimit scriptless) (.initial (.ofSeed 1))
      declaringLine ["a\n", "x", "", "  \nb", "", "\nc"] later :=
    ⟨_, .cons (run_of_toOption (by decide +kernel)) <|
      .cons (run_of_toOption (by decide +kernel)) <|
      .cons (run_of_toOption (by decide +kernel)) <|
      .cons (run_of_toOption (by decide +kernel)) <|
      .cons (run_of_toOption (by decide +kernel)) <|
      .cons (run_of_toOption (by decide +kernel)) (.nil _)⟩
  obtain ⟨later, renders⟩ := renders
  obtain ⟨parts, run, -, -, runs⟩ := renderNodes_contributions true renders
  have text : ((renderNodes (choice depthLimit scriptless) declaringLine true).run
      (.initial (.ofSeed 1))).1.toOption = some "a\nb\nc" := by decide +kernel
  refine ⟨_, later, parts, renders, run, ?_, ?_⟩
  · rw [run] at text
    exact Option.some.inj text
  · refine runs 1 2 fun place after below node there => ?_
    obtain rfl | rfl : place = 1 ∨ place = 2 := by omega
    · cases there
      rfl
    · cases there
      rfl

end Rendering

end BranchText
