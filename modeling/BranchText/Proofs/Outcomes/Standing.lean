import BranchText.Proofs.Outcomes.Accountable
import BranchText.Proofs.Outcomes.Possible

/-!
# What stays recorded

Under a name there are only forks that the name may stand for. While nodes are rendered that do not
declare a name and do not execute it again, the same fork stays recorded under it.
-/

namespace BranchText

namespace Outcomes

variable {root nodes : List Node} {view between after : View}

/-- Only forks are recorded that their names may stand for. -/
def Standing (root : List Node) (view : View) : Prop :=
  ∀ name taken, view name = some taken → Denotes root name taken.fork

/-- What the nodes do to what is recorded. -/
structure Moves (root nodes : List Node) (view after : View) : Prop where
  standing : Standing root after
  keeps : ∀ name, Quiet root name nodes → ∀ taken, view name = some taken →
    ∃ later, after name = some later ∧ later.fork = taken.fork

theorem Moves.refl (standing : Standing root view) : Moves root nodes view view :=
  ⟨standing, fun _ _ taken found => ⟨taken, found, rfl⟩⟩

theorem Moves.trans (first : Moves root nodes view between)
    (second : Moves root nodes between after) :
    Moves root nodes view after := by
  refine ⟨second.standing, fun name quiet taken found => ?_⟩
  obtain ⟨middle, there, same⟩ := first.keeps name quiet taken found
  obtain ⟨later, last, sameLast⟩ := second.keeps name quiet middle there
  exact ⟨later, last, sameLast.trans same⟩

/-- A fork is recorded under a name that may stand for it, and that is not quiet or had it before. -/
theorem Moves.named (moves : Moves root nodes view after) {name : Option String} {taken : Taken}
    (denotes : ∀ own, name = some own → Denotes root own taken.fork)
    (keeps : ∀ own, name = some own → Quiet root own nodes → ∀ before, view own = some before →
      before.fork = taken.fork) : Moves root nodes view (after.named name taken) := by
  refine ⟨fun other found present => ?_, fun other quiet before found => ?_⟩
  · by_cases same : name = some other
    · subst same
      rw [View.named_self] at present
      cases present
      exact denotes other rfl
    · rw [View.named_of_ne _ same] at present
      exact moves.standing other found present
  · by_cases same : name = some other
    · subst same
      exact ⟨taken, View.named_self .., (keeps other rfl quiet before found).symm⟩
    · rw [View.named_of_ne _ same]
      exact moves.keeps other quiet before found

/-- Everything that runs is within the document. -/
theorem mem_of_runs (inside : nodesWithin nodes ⊆ nodesWithin root) {node : Node}
    (runs : Runs root nodes node) : node ∈ nodesWithin root := by
  cases runs with
  | within member => exact inside member
  | drawn _ draws member =>
    refine within_subset_nodesWithin root _ draws.denotes.within ?_
    rename_i reference fork _
    obtain ⟨identifier, silent, isSet, branches, span⟩ := fork
    exact List.mem_cons_of_mem _ member

/-- The choices among what runs do to what is recorded what the nodes do. -/
def Keeps (root nodes : List Node) (inner : Giving) : Prop :=
  ∀ choice : Choice, (∀ node ∈ choice.within, Runs root nodes node) →
    ∀ view text after, Standing root view → inner choice view text after →
      Moves root nodes view after

section Steps

variable {inner : Giving} (keeps : Keeps root nodes inner)
  (standing : Standing root view)
include keeps standing

theorem moves_fork {fork : Fork} (runs : ∀ node ∈ (Node.fork fork).within, Runs root nodes node)
    {text : String} (gives : ForkGives inner fork view text after)
    (inside : nodesWithin nodes ⊆ nodesWithin root) : Moves root nodes view after := by
  have here := runs _ (Node.self_mem_within _)
  have denotes : ∀ own, fork.identifier = some own → Denotes root own fork :=
    fun own identifier => .declared (mem_of_runs inside here) identifier
  have declared : ∀ own, fork.identifier = some own → ¬ Quiet root own nodes :=
    fun own identifier quiet => quiet.undeclared _ here identifier
  cases gives with
  | left =>
    exact (Moves.refl standing).named denotes fun own identifier quiet =>
      absurd quiet (declared own identifier)
  | stayed => exact .refl standing
  | drawn executes drawn =>
    obtain ⟨found, renders⟩ := drawn
    have inBranch := fun node member => runs node
      (Fork.branch_within (List.mem_of_getElem? found) member)
    exact (keeps _ inBranch _ _ _ standing renders).named denotes fun own identifier quiet =>
      absurd quiet (declared own identifier)

theorem moves_takes {reference : Reference} (runs : Runs root nodes (.reference reference))
    {taken : Taken} (found : view reference.target = some taken) {index : Nat} {rendered : String}
    (takes : Takes inner reference taken view index rendered after) :
    Moves root nodes view after := by
  cases takes with
  | last => exact .refl standing
  | drawn executes drawn =>
    obtain ⟨branch, renders⟩ := drawn
    have draws : Draws root reference taken.fork :=
      ⟨standing _ _ found, executes.imp_right fun pending => pending.2⟩
    have inBranch : ∀ node ∈ Choice.within _, Runs root nodes node := fun _ member =>
      .drawn runs draws (within_subset_of_branch (List.mem_of_getElem? branch) member)
    refine (keeps _ inBranch _ _ _ standing renders).named ?_ ?_
    · rintro _ ⟨⟩
      exact draws.denotes
    · rintro _ ⟨⟩ _ before same
      rw [found] at same
      cases same
      rfl

theorem moves_answers {reference : Reference}
    (runs : ∀ node ∈ (Node.reference reference).within, Runs root nodes node) {index : Nat}
    {rendered text : String} (answers : Answers inner reference index rendered view text after) :
    Moves root nodes view after := by
  cases answers with
  | own => exact .refl standing
  | choice found renders =>
    exact keeps _ (fun node member => runs node (Reference.answer_within found member)) _ _ _
      standing renders

theorem moves_reference {reference : Reference}
    (runs : ∀ node ∈ (Node.reference reference).within, Runs root nodes node) {text : String}
    (gives : ReferenceGives inner reference view text after)
    (inside : nodesWithin nodes ⊆ nodesWithin root) : Moves root nodes view after := by
  have here := runs _ (Node.self_mem_within _)
  cases gives with
  | absent looks missing found renders =>
    exact keeps _ (fun node member => runs node (Reference.fallback_within found member)) _ _ _
      standing renders
  | nothing => exact .refl standing
  | present found takes answers =>
    have denotes := standing _ _ found
    have moved := moves_takes keeps standing here found takes
    refine (moved.trans (moves_answers keeps moved.standing runs answers)).named
      (fun own identifier => ?_) fun own identifier quiet => ?_
    · exact .named (mem_of_runs inside here) identifier denotes
    · exact absurd identifier (quiet.undeclared _ here)

theorem moves_node {startsLine : Bool} {line last : Rendering.Line} {node : Node}
    (runs : ∀ other ∈ node.within, Runs root nodes other)
    (gives : NodeGives inner startsLine line view node last after)
    (inside : nodesWithin nodes ⊆ nodesWithin root) : Moves root nodes view after := by
  cases gives with
  | text => exact .refl standing
  | fork gives => exact moves_fork keeps standing runs gives inside
  | reference gives => exact moves_reference keeps standing runs gives inside

theorem moves_nodes {startsLine : Bool} {line last : Rendering.Line} {among : List Node}
    (runs : ∀ node ∈ nodesWithin among, Runs root nodes node)
    (gives : NodesGive inner startsLine among line view last after)
    (inside : nodesWithin nodes ⊆ nodesWithin root) : Moves root nodes view after := by
  induction gives with
  | nil => exact .refl standing
  | cons first others ih =>
    rw [nodesWithin] at runs
    have moved := moves_node keeps standing
      (fun node member => runs node (List.mem_append_left _ member)) first inside
    exact moved.trans (ih moved.standing fun node member =>
      runs node (List.mem_append_right _ member))

end Steps

theorem keeps_possible (inside : nodesWithin nodes ⊆ nodesWithin root) (depth : Nat) :
    Keeps root nodes (possible depth) := by
  induction depth with
  | zero => exact fun _ _ _ _ _ _ given => given.elim
  | succ depth ih =>
    intro choice runs view text after standing given
    cases choice with
    | nodes among =>
      obtain ⟨line, gives, -⟩ := given
      exact moves_nodes ih standing runs gives inside
    | script block => exact given.elim
    | call call => exact given.elim

end Outcomes

end BranchText
