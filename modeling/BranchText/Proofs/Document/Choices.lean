import BranchText.Proofs.Document.References

/-!
# Induction over choices

Nodes, entries and mappings nest in each other by way of the choices that they hold. What is said of
all choices follows along their nodes: for a fork it holds of the choices of its branches, and for a
reference it holds of all that it may render.
-/

namespace BranchText

variable {holds : Choice → Prop}

/-- A property passes on to a choice from the choices that its first node holds and from the nodes
behind it. -/
structure PassesOn (holds : Choice → Prop) : Prop where
  script : ∀ block, holds (.script block)
  call : ∀ call, holds (.call call)
  nil : holds (.nodes [])
  text : ∀ (content : String) (rest : List Node), holds (.nodes rest) →
    holds (.nodes (.text content :: rest))
  fork : ∀ (fork : Fork) (rest : List Node), (∀ branch ∈ fork.branches, holds branch.choice) →
    holds (.nodes rest) → holds (.nodes (.fork fork :: rest))
  reference : ∀ (reference : Reference) (rest : List Node),
    (∀ choice ∈ reference.choices, holds choice) → holds (.nodes rest) →
      holds (.nodes (.reference reference :: rest))

namespace PassesOn

mutual

theorem choice (passes : PassesOn holds) (choice : Choice) : holds choice := by
  match choice with
  | .nodes nodes => exact passes.nodes nodes
  | .script block => exact passes.script block
  | .call call => exact passes.call call

theorem nodes (passes : PassesOn holds) (nodes : List Node) : holds (.nodes nodes) := by
  match nodes with
  | [] => exact passes.nil
  | .text content :: rest => exact passes.text content rest (passes.nodes rest)
  | .fork ⟨identifier, silent, isSet, branches, span⟩ :: rest =>
    exact passes.fork _ rest (passes.branches branches) (passes.nodes rest)
  | .reference ⟨target, identifier, silent, mappings, fallback, reruns, span⟩ :: rest =>
    refine passes.reference _ rest (fun choice member => ?_) (passes.nodes rest)
    rcases List.mem_append.1 member with mapped | fallen
    · obtain ⟨mapping, listed, rfl⟩ := List.mem_map.1 mapped
      exact passes.mappings mappings mapping listed
    · exact passes.fallback fallback choice (Option.mem_toList.1 fallen)

theorem branches (passes : PassesOn holds) (branches : List Branch) :
    ∀ branch ∈ branches, holds branch.choice := by
  match branches with
  | [] => exact List.forall_mem_nil _
  | ⟨choice, _⟩ :: rest =>
    exact List.forall_mem_cons.2 ⟨passes.choice choice, passes.branches rest⟩

theorem mappings (passes : PassesOn holds) (mappings : List Mapping) :
    ∀ mapping ∈ mappings, holds mapping.choice := by
  match mappings with
  | [] => exact List.forall_mem_nil _
  | ⟨_, choice⟩ :: rest =>
    exact List.forall_mem_cons.2 ⟨passes.choice choice, passes.mappings rest⟩

theorem fallback (passes : PassesOn holds) (fallback : Option Choice) :
    ∀ choice ∈ fallback, holds choice := by
  match fallback with
  | none => exact fun _ member => nomatch member
  | some choice =>
    rintro _ ⟨⟩
    exact passes.choice choice

end

end PassesOn

/-- Induction along the nodes of a choice, and into the choices that they hold. -/
@[elab_as_elim]
theorem Choice.along (script : ∀ block, holds (.script block)) (call : ∀ call, holds (.call call))
    (nil : holds (.nodes []))
    (text : ∀ (content : String) (rest : List Node), holds (.nodes rest) →
      holds (.nodes (.text content :: rest)))
    (fork : ∀ (fork : Fork) (rest : List Node), (∀ branch ∈ fork.branches, holds branch.choice) →
      holds (.nodes rest) → holds (.nodes (.fork fork :: rest)))
    (reference : ∀ (reference : Reference) (rest : List Node),
      (∀ choice ∈ reference.choices, holds choice) → holds (.nodes rest) →
        holds (.nodes (.reference reference :: rest)))
    (choice : Choice) : holds choice :=
  PassesOn.choice ⟨script, call, nil, text, fork, reference⟩ choice

end BranchText
