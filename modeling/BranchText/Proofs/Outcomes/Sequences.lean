import BranchText.Proofs.Outcomes.Credit

/-!
# How much sequences give

What a sequence costs bounds what it gives, node by node: behind each node of it, the records are
worth what is due for the references still to come. By induction on the nesting of choices, every
choice of an accountable document that was counted gives no more than it costs.
-/

namespace BranchText

namespace Outcomes

open Rendering (Line)

variable {root before rest : List Node} {graph : Graph} {names : Finset String} {dues : Dues}
  {view after : View}

/-- Where references still to come look at a fork of a sequence and have something to choose for
it, the fork is recorded. -/
def Held (before rest : List Node) (view : View) : Prop :=
  ∀ fork name, .fork fork ∈ before → fork.identifier = some name →
    (∃ reader ∈ readersOf name rest, ∃ choice ∈ reader.choices, choice.isPlain = false) →
      ∃ taken, view name = some taken ∧ taken.fork = fork

/-- A document that is accounted for, with its graph and what is possible in it. -/
structure Setup (root : List Node) (graph : Graph) (inner : Giving) : Prop where
  solid : graph.Solid
  branching : Branching (nodesWithin root)
  acyclic : Acyclic root
  accountable : Accountable root
  keeps : ∀ nodes, nodesWithin nodes ⊆ nodesWithin root → Keeps root nodes inner
  bounded : Bounded root graph inner

section Nodes

variable {inner : Giving} (setup : Setup root graph inner)
include setup

section Node

variable {node : Node} (member : before ++ node :: rest ∈ sequences root)
include member

omit setup member in
theorem runs_node : ∀ other ∈ node.within, Runs root (node :: rest) other := fun _ inside =>
  .within (within_subset_of_mem (List.mem_cons_self ..) inside)

omit setup in
theorem within_node : node ∈ nodesWithin root :=
  nodesWithin_subset_of_mem_sequences member
    (within_subset_of_mem (List.mem_append_right _ (List.mem_cons_self ..)) (Node.self_mem_within _))

/-- What is held before a node is held behind it. -/
theorem Held.step {startsLine : Bool} {line last : Line} (accounted : Accounted root graph view)
    (held : Held before (node :: rest) view)
    (gives : NodeGives inner startsLine line view node last after) :
    Held (before ++ [node]) rest after := by
  intro fork name listed identifier reads
  rcases List.mem_append.1 listed with earlier | here
  -- A fork before the node: it is neither declared nor executed again behind it, so it stays.
  · obtain ⟨reader, readsRest, choice, among, heavy⟩ := reads
    have readsAll : reader ∈ readersOf name (node :: rest) := by
      rw [readersOf_cons]
      exact List.mem_append_right _ readsRest
    obtain ⟨taken, found, same⟩ := held fork name earlier identifier
      ⟨reader, readsAll, choice, among, heavy⟩
    obtain ⟨front, between, rfl⟩ := List.append_of_mem earlier
    have inSequence := member
    rw [List.append_assoc, List.cons_append] at inSequence
    rcases setup.accountable.quiet front fork (between ++ node :: rest) name inSequence identifier
      with plain | quiet
    · rw [readersOf_append] at plain
      have light := plain reader (List.mem_append_right _ readsAll) choice among
      rw [heavy] at light
      cases light
    · have inside : nodesWithin (node :: rest) ⊆ nodesWithin root := fun other inside =>
        nodesWithin_subset_of_mem_sequences member
          (by rw [nodesWithin_append]; exact List.mem_append_right _ inside)
      have moves := moves_node (setup.keeps _ inside) accounted.standing runs_node gives inside
      obtain ⟨later, present, sameLater⟩ :=
        moves.keeps name (quiet.mono (runs_of_append between)) taken found
      exact ⟨later, present, sameLater.trans same⟩
  · cases List.mem_singleton.1 here
    cases gives with
    | fork gives =>
      cases gives with
      | left => exact ⟨_, by rw [identifier, View.named_self], rfl⟩
      | stayed _ own found same =>
        cases own.symm.trans identifier
        exact ⟨_, found, same⟩
      | drawn _ drawn =>
        obtain ⟨_, between, -, -, rfl⟩ := drawn.exists
        exact ⟨_, by rw [identifier, View.named_self], rfl⟩

variable (fine : Fine graph (.nodes (before ++ node :: rest)))
include fine

omit member in
theorem fine_from : Fine graph (.nodes (node :: rest)) := fine.of_append setup.solid

variable (accounted : Accounted root graph view) (held : Held before (node :: rest) view)
include held

/-- What a reference that looks at its target gives was counted. -/
theorem fine_look {reference : Reference} (same : node = .reference reference)
    (looks : reference.reruns = false) {choice : Choice} (among : choice ∈ reference.choices) :
    choice.isPlain = true ∨ ∃ taken, view reference.target = some taken ∧
      ∀ index < taken.fork.branches.length, reference.answer? index = some choice →
        Fine graph choice := by
  subst same
  by_cases light : choice.isPlain = true
  · exact .inl light
  have heavy : choice.isPlain = false := Bool.not_eq_true _ ▸ light
  rcases setup.accountable.beside before reference rest member looks with plain | ⟨fork, listed, own⟩
  · exact .inl (plain choice among)
  have renders : reference.isCopy = false := by
    rw [← Bool.not_eq_true]
    intro copies
    rw [Reference.isCopy, Bool.and_eq_true, List.isEmpty_iff, Option.isNone_iff_eq_none] at copies
    rw [Reference.choices, copies.1, copies.2] at among
    cases among
  have reads : ∀ between, reference ∈ readersOf reference.target
      (between ++ .reference reference :: rest) := fun between =>
    List.mem_filterMap.2 ⟨_, List.mem_append_right _ (List.mem_cons_self ..),
      Node.reader?_eq_some_iff.2 ⟨rfl, rfl, looks, renders⟩⟩
  obtain ⟨taken, found, rfl⟩ := held fork _ listed own ⟨reference, reads [], choice, among, heavy⟩
  refine .inr ⟨taken, found, fun index below answers => ?_⟩
  obtain ⟨front, between, rfl⟩ := List.append_of_mem listed
  rw [List.append_assoc, List.cons_append] at fine
  obtain ⟨_, pays, -⟩ := (fine.of_append setup.solid).fork setup.solid
  refine pays.answers reference ?_ index below choice answers
  rw [Fork.readers, own]
  exact reads between

include accounted

omit held in
/-- A fork in a sequence is paid for. -/
theorem weighs_fork_node {fork : Fork} (same : node = .fork fork)
    (admits : Admits root (before ++ node :: rest) names dues) :
    Weighs (fun outcome : String × View => cost graph (.nodes rest) *
        worth graph names (owing graph dues (before ++ [node]) rest) outcome.2)
      (fun outcome => ForkGives inner fork view outcome.1 outcome.2)
      (cost graph (.nodes (node :: rest)) *
        worth graph names (owing graph dues before (node :: rest)) view) := by
  subst same
  obtain ⟨own, pays, le, -⟩ := (fine_from setup fine).fork setup.solid
  have within := within_node member
  have reached : Runs root (before ++ .fork fork :: rest) (.fork fork) :=
    runs_of_append before _ (within_subset_of_mem (List.mem_cons_self ..) (Node.self_mem_within _))
  have fits : Admits root (.fork fork :: rest) names
      (owing graph dues before (.fork fork :: rest)) :=
    admits_owing setup.accountable member admits
  let later := owing graph dues (before ++ [Node.fork fork]) rest
  have positive : ∀ name index, 1 ≤ later name index := fun name index =>
    Nat.mul_pos (admits.positive name index) one_le_credit
  have less : ∀ name ∈ without names fork.identifier, ∀ index,
      later name index ≤ owing graph dues before (.fork fork :: rest) name index :=
    fun name inside index => owing_le (ne_of_mem_without inside)
  have branches : ∀ branch ∈ fork.branches,
      Admits root branch.choice.among (without names fork.identifier) later := fun branch inside =>
    (fits.branch setup.acyclic (fun own identifier => .declared within identifier) inside
      fun node nested => runs_node _ (Fork.branch_within inside nested)).le positive less
  have due : ∀ index, dueAt names later fork.identifier index ≤
      ((fork.readers rest).map (costAt graph · index)).prod := by
    intro index
    unfold dueAt
    split
    · exact one_le_prod
    · rename_i name identifier
      split
      · rename_i inside
        refine le_of_eq ?_
        rw [show later name index = dues name index * _ from rfl, credit_fork identifier,
          admits.declared _ name reached identifier inside, Nat.one_mul]
      · exact one_le_prod
  have paid := pays.covers setup.accountable member due
  have one := pays.one_le (setup.branching fork within)
  refine ((weighs_fork setup.bounded within pays.branches accounted positive branches one paid).scale
    (cost graph (.nodes rest))).imp (fun _ => id) (fun _ _ => Nat.le_refl _) ?_
  have worthLe : worth graph (without names fork.identifier) later view ≤
      worth graph names (owing graph dues before (.fork fork :: rest)) view :=
    (worth_mono less).trans (worth_without_le fits.positive _)
  calc cost graph (.nodes rest) * (own * worth graph (without names fork.identifier) later view)
      = own * cost graph (.nodes rest) *
          worth graph (without names fork.identifier) later view := by
        ac_rfl
    _ ≤ cost graph (.nodes (.fork fork :: rest)) *
          worth graph names (owing graph dues before (.fork fork :: rest)) view :=
        Nat.mul_le_mul le worthLe

/-- What a reference answers was counted. -/
theorem fine_answers {reference : Reference} (same : node = .reference reference) (taken : Taken)
    (found : view reference.target = some taken) (index : Nat)
    (below : index < taken.fork.branches.length) (choice : Choice)
    (answers : reference.answer? index = some choice) : Fine graph choice := by
  cases reruns : reference.reruns with
  | false =>
    rcases fine_look setup member fine held same reruns
      (Reference.mem_choices_of_answer? answers) with plain | ⟨other, present, isFine⟩
    · exact .inl plain
    · cases found.symm.trans present
      exact isFine index below answers
  | true =>
    subst same
    obtain ⟨_, pays, -⟩ :=
      (fine_from setup fine).again setup.solid reruns (accounted _ _ found).known
    exact pays.answers reference (List.mem_singleton_self _) index below choice answers

omit accounted in
theorem plain_fallback {reference : Reference} (same : node = .reference reference)
    (looks : reference.reruns = false) (missing : view reference.target = none) (choice : Choice)
    (fallback : reference.fallback = some choice) : choice.isPlain = true := by
  rcases fine_look setup member fine held same looks (Reference.mem_choices_of_fallback fallback)
    with plain | ⟨taken, found, -⟩
  · exact plain
  · rw [missing] at found
    cases found

/-- A reference in a sequence is paid for. -/
theorem weighs_reference_node {reference : Reference} (same : node = .reference reference)
    (admits : Admits root (before ++ node :: rest) names dues) :
    Weighs (fun outcome : String × View => cost graph (.nodes rest) *
        worth graph names (owing graph dues (before ++ [node]) rest) outcome.2)
      (fun outcome => ReferenceGives inner reference view outcome.1 outcome.2)
      (cost graph (.nodes (node :: rest)) *
        worth graph names (owing graph dues before (node :: rest)) view) := by
  have answers := fine_answers setup member fine accounted held same
  have fallback := plain_fallback setup member fine held same
  subst same
  have fineHere := fine_from setup fine
  have within := within_node member
  have fits : Admits root (.reference reference :: rest) names
      (owing graph dues before (.reference reference :: rest)) :=
    admits_owing setup.accountable member admits
  have runs : ∀ other ∈ (Node.reference reference).within,
      Runs root (.reference reference :: rest) other := runs_node
  let later := owing graph dues (before ++ [Node.reference reference]) rest
  have positive : ∀ name index, 1 ≤ later name index := fun name index =>
    Nat.mul_pos (admits.positive name index) one_le_credit
  have less : ∀ name index,
      later name index ≤ owing graph dues before (.reference reference :: rest) name index :=
    fun _ _ => owing_le (Node.forkName?_reference_ne reference _)
  cases reruns : reference.reruns with
  | false =>
    have beside : (∀ choice ∈ reference.choices, choice.isPlain = true) ∨
        reference.target ∈ before.filterMap Node.forkName? :=
      (setup.accountable.beside before reference rest member reruns).imp_right mem_forkNames.2
    have due : ∀ index, costAt graph reference index * later reference.target index ≤
        owing graph dues before (.reference reference :: rest) reference.target index := by
      intro index
      have owes : later reference.target index = dues reference.target index *
          credit graph before rest reference.target index :=
        congrArg _ (credit_append_of_ne (Node.forkName?_reference_ne reference _))
      rw [owes, Nat.mul_left_comm]
      exact Nat.mul_le_mul_left _ (cost_mul_credit_le reruns beside)
    have weighs := weighs_look setup.bounded runs within accounted answers setup.acyclic reruns
      (fallback reruns) fits positive less due
    exact (weighs.scale (cost graph (.nodes rest))).imp (fun _ => id) (fun _ _ => Nat.le_refl _)
      (Nat.mul_le_mul_right _ (fineHere.cost_tail_le setup.solid))
  | true =>
    cases found : view reference.target with
    | none => exact .of_isEmpty fun _ => not_again reruns found
    | some taken =>
      obtain ⟨own, pays, le, -⟩ := fineHere.again setup.solid reruns (accounted _ _ found).known
      have paid := pays.covers_again setup.accountable within reruns (accounted _ _ found).denotes
      have weighs := weighs_again setup.bounded runs within accounted answers setup.acyclic reruns
        found (fits.le positive fun name _ => less name) paid
      refine (weighs.scale (cost graph (.nodes rest))).imp (fun _ => id) (fun _ _ => Nat.le_refl _)
        ?_
      calc cost graph (.nodes rest) * (own * worth graph names later view)
          = own * cost graph (.nodes rest) * worth graph names later view := by ac_rfl
        _ ≤ cost graph (.nodes (.reference reference :: rest)) *
              worth graph names (owing graph dues before (.reference reference :: rest)) view :=
            Nat.mul_le_mul le (worth_mono fun name _ => less name)

/-- What a node of a sequence gives is accounted for. -/
theorem accounted_node {startsLine : Bool} {line last : Line}
    (gives : NodeGives inner startsLine line view node last after) :
    Accounted root graph after := by
  have fineHere := fine_from setup fine
  have within := within_node member
  cases gives with
  | text => exact accounted
  | fork gives =>
    obtain ⟨_, pays, -, known⟩ := fineHere.fork setup.solid
    exact accounted_fork setup.bounded within pays.branches accounted
      (fun own identifier => ⟨.declared within identifier, known own identifier, pays.branches⟩) gives
  | @reference reference _ _ gives =>
    refine accounted_reference setup.bounded within accounted
      (fine_answers setup member fine accounted held rfl) (plain_fallback setup member fine held rfl)
      (fun name taken identifier found => ?_) gives
    have known := (accounted _ _ found).known
    cases reruns : reference.reruns with
    | false => exact fineHere.look reruns known identifier
    | true =>
      obtain ⟨_, -, -, declared⟩ := fineHere.again setup.solid reruns known
      exact declared name identifier

/-- A node in a sequence is paid for. -/
theorem weighs_node (admits : Admits root (before ++ node :: rest) names dues) (startsLine : Bool)
    (line : Line) :
    Weighs (fun outcome : Line × View => cost graph (.nodes rest) *
        worth graph names (owing graph dues (before ++ [node]) rest) outcome.2)
      (fun outcome => NodeGives inner startsLine line view node outcome.1 outcome.2)
      (cost graph (.nodes (node :: rest)) *
        worth graph names (owing graph dues before (node :: rest)) view) := by
  cases same : node with
  | text content =>
    refine Weighs.single (line.addText content, view) ?_ fun _ => ?_
    · rintro ⟨last, after⟩ gives
      cases gives
      rfl
    · rw [← same]
      refine Nat.mul_le_mul ((fine_from setup fine).cost_tail_le setup.solid)
        (worth_mono fun name _ index => owing_le ?_)
      rw [same]
      exact fun none => nomatch none
  | fork fork =>
    rw [← same]
    refine (weighs_fork_node setup member fine accounted same admits).map
      (fun outcome => (line.addRendered startsLine fork.silent outcome.1, outcome.2))
      (fun _ _ => Nat.le_refl _) ?_
    rintro ⟨last, after⟩ gives
    cases same
    cases gives with
    | fork gives => exact ⟨(_, _), gives, rfl⟩
  | reference reference =>
    rw [← same]
    refine (weighs_reference_node setup member fine accounted held same admits).map
      (fun outcome => (line.addRendered startsLine reference.silent outcome.1, outcome.2))
      (fun _ _ => Nat.le_refl _) ?_
    rintro ⟨last, after⟩ gives
    cases same
    cases gives with
    | reference gives => exact ⟨(_, _), gives, rfl⟩

end Node

/-! ## Sequences -/

section Rest

variable (member : before ++ rest ∈ sequences root)
  (fine : Fine graph (.nodes (before ++ rest))) (accounted : Accounted root graph view)
  (held : Held before rest view)
include member fine accounted held

/-- What a sequence gives is accounted for. -/
theorem accounted_nodes {startsLine : Bool} {line last : Line}
    (gives : NodesGive inner startsLine rest line view last after) :
    Accounted root graph after := by
  induction gives generalizing before with
  | nil => exact accounted
  | @cons node others _ _ _ _ _ _ first _ ih =>
    have between := accounted_node setup member fine accounted held first
    have holds := held.step setup member accounted first
    rw [List.append_cons] at member fine
    exact ih member fine between holds

/-- The rest of a sequence, with what is due for it, bounds what it gives. -/
theorem weighs_nodes (admits : Admits root (before ++ rest) names dues) (startsLine : Bool)
    (line : Line) :
    Weighs (fun outcome : Line × View => worth graph names dues outcome.2)
      (fun outcome => NodesGive inner startsLine rest line view outcome.1 outcome.2)
      (cost graph (.nodes rest) * worth graph names (owing graph dues before rest) view) := by
  induction rest generalizing before view line with
  | nil =>
    refine Weighs.single (line, view) ?_ fun _ => ?_
    · rintro ⟨last, after⟩ gives
      cases gives
      rfl
    · rw [cost_of_isPlain rfl, Nat.one_mul]
      exact worth_mono fun name _ index => Nat.le_mul_of_pos_right _ one_le_credit
  | cons node others ih =>
    have second : ∀ outcome : Line × View,
        NodeGives inner startsLine line view node outcome.1 outcome.2 →
        Weighs (fun outcome : Line × View => worth graph names dues outcome.2)
          (fun last => NodesGive inner startsLine others outcome.1 outcome.2 last.1 last.2)
          (cost graph (.nodes others) *
            worth graph names (owing graph dues (before ++ [node]) others) outcome.2) := by
      intro outcome gives
      have between := accounted_node setup member fine accounted held gives
      have holds := held.step setup member accounted gives
      rw [List.append_cons] at member fine admits
      exact ih member fine between holds admits outcome.1
    -- What is still due behind the node is the worth that the node is weighed with.
    refine (weighs_node setup member fine accounted held admits startsLine line).bind second ?_
    rintro ⟨last, after⟩ gives
    cases gives with
    | cons first others => exact ⟨(_, _), first, others⟩

end Rest

end Nodes

/-! ## Whole documents -/

theorem owing_nil : owing graph dues [] rest = dues := by
  funext name index
  exact Nat.mul_one _

/-- Every choice of an accountable document gives no more than it costs. -/
theorem setup_possible (solid : graph.Solid) (branching : Branching (nodesWithin root))
    (acyclic : Acyclic root) (accountable : Accountable root) (depth : Nat) :
    Setup root graph (possible depth) := by
  refine ⟨solid, branching, acyclic, accountable, fun _ inside => keeps_possible inside depth, ?_⟩
  induction depth with
  | zero =>
    exact fun _ _ _ _ _ =>
      ⟨fun _ _ given => given.elim, fun _ _ _ => .of_isEmpty fun _ => id⟩
  | succ depth ih =>
    have setup : Setup root graph (possible depth) :=
      ⟨solid, branching, acyclic, accountable, fun _ inside => keeps_possible inside depth, ih⟩
    intro choice among fine view accounted
    cases choice with
    | nodes nodes =>
      have member : [] ++ nodes ∈ sequences root := among nodes rfl
      have fine : Fine graph (.nodes ([] ++ nodes)) := fine
      have held : Held [] nodes view := fun _ _ listed => absurd listed List.not_mem_nil
      refine ⟨?_, fun names dues admits => ?_⟩
      · rintro text after ⟨line, gives, -⟩
        exact accounted_nodes setup member fine accounted held gives
      · have weighs := weighs_nodes setup member fine accounted held admits false ⟨"", false⟩
        rw [owing_nil] at weighs
        refine weighs.map (fun outcome => (outcome.1.text, outcome.2)) (fun _ _ => Nat.le_refl _) ?_
        rintro ⟨text, after⟩ ⟨line, gives, same⟩
        exact ⟨(line, after), gives, Prod.ext same.symm rfl⟩
    | script block => exact ⟨fun _ _ given => given.elim, fun _ _ _ => .of_isEmpty fun _ => id⟩
    | call call => exact ⟨fun _ _ given => given.elim, fun _ _ _ => .of_isEmpty fun _ => id⟩

/-- The names that a document refers to. -/
def targetsOf (nodes : List Node) : List String :=
  nodes.filterMap fun
    | .reference look => some look.target
    | _ => none

theorem admits_root : Admits root root (targetsOf (nodesWithin root)).toFinset fun _ _ => 1 where
  positive _ _ := Nat.le_refl 1
  targets reference reached := by
    have within := mem_of_runs (List.Subset.refl _) reached
    exact List.mem_toFinset.2 (List.mem_filterMap.2 ⟨_, within, rfl⟩)
  declared _ _ _ _ _ _ := rfl
  repeated _ _ _ _ := rfl

/-- Different texts of a document are no more than it costs. -/
theorem length_le_cost {inner : Giving} (setup : Setup root graph inner)
    (fine : Fine graph (.nodes root)) (startsLine : Bool) (line : Line) {texts : List String}
    (distinct : texts.Nodup)
    (given : ∀ text ∈ texts, ∃ last after, NodesGive inner startsLine root line .empty last after ∧
      last.text = text) : texts.length ≤ cost graph (.nodes root) := by
  have member : [] ++ root ∈ sequences root := List.mem_cons_self ..
  have fine : Fine graph (.nodes ([] ++ root)) := fine
  have accounted : Accounted root graph .empty := fun _ _ found => nomatch found
  have held : Held [] root .empty := fun _ _ listed => absurd listed List.not_mem_nil
  have weighs := weighs_nodes setup member fine accounted held admits_root startsLine line
  have nothing : ∀ names dues, worth graph names dues .empty = 1 :=
    fun names dues => Finset.prod_eq_one fun _ _ => rfl
  rw [nothing, Nat.mul_one] at weighs
  have shown : ∀ text ∈ texts, ∃ outcome : Line × View,
      NodesGive inner startsLine root line .empty outcome.1 outcome.2 ∧ outcome.1.text = text := by
    intro text among
    obtain ⟨last, after, gives, same⟩ := given text among
    exact ⟨(last, after), gives, same⟩
  exact weighs.length_le distinct (fun _ _ => one_le_worth fun _ _ => Nat.le_refl 1) shown
    fun _ _ _ first second => first.symm.trans second

end Outcomes

end BranchText
