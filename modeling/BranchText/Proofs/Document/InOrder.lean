import BranchText.Proofs.Document.Choices
import BranchText.Proofs.Reading.NormalForm
import Mathlib.Data.List.Perm.Subperm

/-!
# Documents in order

Reading along a document, a reference is met in order if its target has been declared before, or is
not declared at all. What the reference may render is for the branches of its target: where it holds
forks or references, the target has to be one fork, and every such choice has to be the one for one
of its branches.
-/

namespace BranchText

/-- Whether a node is a fork. -/
def Node.isFork : Node → Bool
  | .text _ => false
  | .fork _ => true
  | .reference _ => false

/-- Whether a node is a reference. -/
def Node.isReference : Node → Bool
  | .text _ => false
  | .fork _ => false
  | .reference _ => true

/-- The forks and references among the nodes. -/
def marksOf (nodes : List Node) : List Node := nodes.filter (!·.isText)

/-- The forks and references within a choice. -/
def Choice.marks (choice : Choice) : List Node := marksOf choice.within

/-- What a reference renders for the branches of a fork with so many branches. -/
def Reference.taken (reference : Reference) (count : Nat) : List Choice :=
  (List.range count).filterMap reference.answer?

/-- A name is declared once, and stands for one fork with so many branches. -/
inductive Sole (root : List Node) : String → Nat → Prop
  | fork {name : String} {fork : Fork}
    (once : (nodesWithin root).filter (·.name? = some name) = [.fork fork]) :
    Sole root name fork.branches.length
  | reference {name : String} {reference : Reference} {count : Nat}
    (once : (nodesWithin root).filter (·.name? = some name) = [.reference reference])
    (target : Sole root reference.target count) : Sole root name count

/-- Every choice of the reference that holds forks or references is the one for one branch of its
target, and for one only. -/
def TakenOnce (root : List Node) (reference : Reference) : Prop :=
  (∀ choice ∈ reference.choices, choice.marks = []) ∨
    ∃ count, Sole root reference.target count ∧
      ((reference.taken count).filter (·.marks ≠ [])).Perm
        (reference.choices.filter (·.marks ≠ []))

/-- Where the names have been declared, the references in the choice are met in order. -/
inductive MetInOrder (root : List Node) : List String → Choice → Prop
  | script {known : List String} (block : ScriptBlock) : MetInOrder root known (.script block)
  | call {known : List String} (call : FunctionCall) : MetInOrder root known (.call call)
  | nil {known : List String} : MetInOrder root known (.nodes [])
  | text {known : List String} (content : String) {rest : List Node}
    (later : MetInOrder root known (.nodes rest)) :
    MetInOrder root known (.nodes (.text content :: rest))
  | fork {known : List String} {fork : Fork} {rest : List Node}
    (inside : ∀ front branch back, fork.branches = front ++ branch :: back →
      MetInOrder root (known ++ namesOf (withinBranches front)) branch.choice)
    (later : MetInOrder root (known ++ namesOf (Node.fork fork).within) (.nodes rest)) :
    MetInOrder root known (.nodes (.fork fork :: rest))
  | undeclared {known : List String} {reference : Reference} {rest : List Node}
    (absent : reference.target ∉ namesOf (nodesWithin root)) (unnamed : reference.identifier = none)
    (flat : ∀ choice ∈ reference.choices, choice.marks = [])
    (later : MetInOrder root known (.nodes rest)) :
    MetInOrder root known (.nodes (.reference reference :: rest))
  | reference {known : List String} {reference : Reference} {rest : List Node}
    (declared : reference.target ∈ known) (once : TakenOnce root reference)
    (inside : ∀ choice ∈ reference.choices, MetInOrder root known choice)
    (later : MetInOrder root (known ++ namesOf (Node.reference reference).within) (.nodes rest)) :
    MetInOrder root known (.nodes (.reference reference :: rest))

/-! ## Marks -/

section Marks

theorem marksOf_append (front back : List Node) :
    marksOf (front ++ back) = marksOf front ++ marksOf back := List.filter_append ..

theorem countP_marksOf {counted : Node → Bool}
    (marks : ∀ node, counted node = true → node.isText = false) (nodes : List Node) :
    (marksOf nodes).countP counted = nodes.countP counted := by
  rw [marksOf, List.countP_filter]
  refine List.countP_congr fun node _ => ?_
  cases isText : node.isText with
  | false => simp
  | true =>
    have uncounted : counted node = false := by
      rw [← Bool.not_eq_true]
      exact fun here => by rw [marks node here] at isText; cases isText
    simp [uncounted]

theorem namesOf_marksOf (nodes : List Node) : namesOf (marksOf nodes) = namesOf nodes := by
  rw [namesOf, marksOf, List.filterMap_filter]
  refine List.filterMap_congr fun node _ => ?_
  cases node <;> rfl

theorem flatMap_marks (choices : List Choice) :
    choices.flatMap Choice.marks = marksOf (choices.flatMap Choice.within) := by
  induction choices with
  | nil => rfl
  | cons choice rest ih =>
    rw [List.flatMap_cons, List.flatMap_cons, marksOf_append, ih]
    rfl

theorem Reference.nested_eq (reference : Reference) :
    reference.nested = reference.choices.flatMap Choice.within := by
  rw [nested, choices, List.flatMap_append, List.flatMap_map, withinMappings_eq]
  cases reference.fallback with
  | none => rfl
  | some choice => rw [Option.toList_some, List.flatMap_singleton]; rfl

/-- The marks of a choice are those of its first node and of the nodes behind it. -/
theorem marks_cons (node : Node) (rest : List Node) :
    Choice.marks (.nodes (node :: rest)) = marksOf node.within ++ Choice.marks (.nodes rest) :=
  marksOf_append ..

theorem marksOf_fork (fork : Fork) :
    marksOf (Node.fork fork).within = .fork fork :: marksOf (withinBranches fork.branches) := by
  cases fork
  rfl

theorem marksOf_reference (reference : Reference) :
    marksOf (Node.reference reference).within =
      .reference reference :: marksOf reference.nested := by
  rw [Reference.within_reference]
  rfl

theorem marksOf_nested (reference : Reference) :
    marksOf reference.nested = reference.choices.flatMap Choice.marks := by
  rw [Reference.nested_eq, flatMap_marks]

/-- Choices that hold neither forks nor references do not count. -/
theorem flatMap_marks_filter (choices : List Choice) :
    (choices.filter (·.marks ≠ [])).flatMap Choice.marks = choices.flatMap Choice.marks := by
  induction choices with
  | nil => rfl
  | cons choice rest ih =>
    rw [List.filter_cons, List.flatMap_cons]
    split
    · rw [List.flatMap_cons, ih]
    · rename_i flat
      have nothing : choice.marks = [] := by simpa using flat
      rw [nothing, ih, List.nil_append]

theorem flatMap_marks_eq_nil {choices : List Choice}
    (flat : ∀ choice ∈ choices, choice.marks = []) :
    choices.flatMap Choice.marks = [] := List.flatMap_eq_nil_iff.2 flat

theorem Reference.flatMap_taken_eq_nil {reference : Reference}
    (flat : ∀ choice ∈ reference.choices, choice.marks = []) (count : Nat) :
    (reference.taken count).flatMap Choice.marks = [] :=
  flatMap_marks_eq_nil fun choice member => by
    obtain ⟨index, -, found⟩ := List.mem_filterMap.1 member
    exact flat choice (Reference.mem_choices_of_answer? found)

/-- Either the target is one fork whose branches take all that the reference holds, or there is
nothing to take. -/
theorem TakenOnce.perm_or_flat {root : List Node} {reference : Reference}
    (once : TakenOnce root reference) :
    (∃ count, Sole root reference.target count ∧
      ((reference.taken count).flatMap Choice.marks).Perm (marksOf reference.nested)) ∨
    (∀ count, ¬ Sole root reference.target count) ∧ marksOf reference.nested = [] ∧
      ∀ choice ∈ reference.choices, choice.marks = [] := by
  rw [marksOf_nested]
  rcases once with flat | ⟨count, sole, perm⟩
  · have nothing := flatMap_marks_eq_nil flat
    by_cases sole : ∃ count, Sole root reference.target count
    · obtain ⟨count, sole⟩ := sole
      exact .inl ⟨count, sole, by rw [Reference.flatMap_taken_eq_nil flat, nothing]⟩
    · exact .inr ⟨not_exists.1 sole, nothing, flat⟩
  · refine .inl ⟨count, sole, ?_⟩
    rw [← flatMap_marks_filter, ← flatMap_marks_filter reference.choices]
    exact perm.flatMap_right _

end Marks

/-! ## Soles -/

section Soles

variable {root : List Node} {name : String} {count : Nat}

/-- The node that declares a name. -/
theorem Sole.exists_node (sole : Sole root name count) :
    ∃ node, (nodesWithin root).filter (·.name? = some name) = [node] := by
  cases sole with
  | fork once => exact ⟨_, once⟩
  | reference once _ => exact ⟨_, once⟩

/-- A node that declares the name is the one that does. -/
theorem Sole.eq_of_mem {node declaring : Node}
    (once : (nodesWithin root).filter (·.name? = some name) = [declaring])
    (within : node ∈ nodesWithin root) (declares : node.name? = some name) : node = declaring := by
  have member : node ∈ (nodesWithin root).filter (·.name? = some name) :=
    List.mem_filter.2 ⟨within, decide_eq_true declares⟩
  rw [once] at member
  exact List.mem_singleton.1 member

theorem Sole.of_fork {fork : Fork} (sole : Sole root name count)
    (within : .fork fork ∈ nodesWithin root) (declares : fork.identifier = some name) :
    fork.branches.length = count := by
  cases sole with
  | fork once =>
    cases Sole.eq_of_mem once within declares
    rfl
  | reference once _ => cases Sole.eq_of_mem once within declares

theorem Sole.of_reference {reference : Reference} (sole : Sole root name count)
    (within : .reference reference ∈ nodesWithin root)
    (declares : reference.identifier = some name) : Sole root reference.target count := by
  cases sole with
  | fork once => cases Sole.eq_of_mem once within declares
  | reference once target =>
    cases Sole.eq_of_mem once within declares
    exact target

/-- Where the declaring node is one of some marks, no other one of them declares the name. -/
theorem Sole.not_mem_namesOf {node : Node} {front back : List Node} (sole : Sole root name count)
    (room : (front ++ node :: back).Subperm (marksOf (nodesWithin root)))
    (declares : node.name? = some name) : name ∉ namesOf front ∧ name ∉ namesOf back := by
  obtain ⟨declaring, once⟩ := sole.exists_node
  have all : ((nodesWithin root).filter (·.name? = some name)).length = 1 := by rw [once]; rfl
  have fewer : (marksOf (nodesWithin root)).countP (·.name? = some name) ≤ 1 := by
    refine (List.filter_sublist.countP_le).trans ?_
    rw [List.countP_eq_length_filter, all]
  have counted := (room.countP_le (·.name? = some name)).trans fewer
  rw [List.countP_append, List.countP_cons, if_pos (decide_eq_true declares)] at counted
  have absent : ∀ nodes : List Node, nodes.countP (·.name? = some name) = 0 →
      name ∉ namesOf nodes := by
    intro nodes none listed
    obtain ⟨other, member, declares⟩ := mem_namesOf.1 listed
    exact List.countP_eq_zero.1 none other member (decide_eq_true declares)
  exact ⟨absent front (by omega), absent back (by omega)⟩

theorem mem_of_room {marks nodes : List Node} (room : marks.Subperm (marksOf nodes)) {node : Node}
    (member : node ∈ marks) : node ∈ nodes := List.mem_of_mem_filter (room.subset member)

/-- If the name of a fork is declared once, nothing in front of the fork or within it declares the
name. -/
theorem Sole.apart_of_fork {fork : Fork} {front : List Node} (sole : Sole root name count)
    (declares : fork.identifier = some name)
    (room : (front ++ .fork fork :: marksOf (withinBranches fork.branches)).Subperm
      (marksOf (nodesWithin root))) :
    name ∉ namesOf front ∧ name ∉ namesOf (withinBranches fork.branches) ∧
      fork.branches.length = count := by
  obtain ⟨before, apart⟩ := sole.not_mem_namesOf room declares
  rw [namesOf_marksOf] at apart
  exact ⟨before, apart,
    sole.of_fork (mem_of_room room (List.mem_append_right _ (List.mem_cons_self ..))) declares⟩

/-- If the name of a reference is declared once, nothing in front of the reference or within it
declares the name. -/
theorem Sole.apart_of_reference {reference : Reference} {front : List Node}
    (sole : Sole root name count) (declares : reference.identifier = some name)
    (room : (front ++ .reference reference :: marksOf reference.nested).Subperm
      (marksOf (nodesWithin root))) :
    name ∉ namesOf front ∧ name ∉ namesOf reference.nested ∧ Sole root reference.target count := by
  obtain ⟨before, apart⟩ := sole.not_mem_namesOf room declares
  rw [namesOf_marksOf] at apart
  exact ⟨before, apart,
    sole.of_reference (mem_of_room room (List.mem_append_right _ (List.mem_cons_self ..))) declares⟩

end Soles

/-- Where there are only texts, nothing is out of order. -/
theorem MetInOrder.of_marks {root : List Node} {known : List String} {choice : Choice}
    (flat : choice.marks = []) : MetInOrder root known choice := by
  induction choice using Choice.along with
  | script block => exact .script block
  | call call => exact .call call
  | nil => exact .nil
  | text content rest ih => exact .text content (ih flat)
  | fork fork rest _ _ =>
    rw [marks_cons, marksOf_fork] at flat
    cases flat
  | reference reference rest _ _ =>
    rw [marks_cons, marksOf_reference] at flat
    cases flat

end BranchText
