import BranchText.Proofs.Outcomes.Bounds

/-!
# What is due in a sequence

Behind a fork of a sequence, as much is due for each of its branches as the references behind it
have for the branch. In an accountable document this fits what is still to be rendered, and what a
fork costs covers its branches with what is due for them.
-/

namespace BranchText

/-- The name of a fork. -/
def Node.forkName? : Node → Option String
  | .text _ => none
  | .fork point => point.identifier
  | .reference _ => none

theorem Node.forkName?_reference_ne (reference : Reference) (name : String) :
    (Node.reference reference).forkName? ≠ some name := fun same => nomatch same

theorem mem_forkNames {name : String} {nodes : List Node} :
    name ∈ nodes.filterMap Node.forkName? ↔
      ∃ fork, .fork fork ∈ nodes ∧ fork.identifier = some name := by
  rw [List.mem_filterMap]
  constructor
  · rintro ⟨node, member, same⟩
    cases node with
    | text content => cases same
    | fork fork => exact ⟨fork, member, same⟩
    | reference reference => cases same
  · rintro ⟨fork, member, same⟩
    exact ⟨.fork fork, member, same⟩

theorem readersOf_cons (name : String) (node : Node) (rest : List Node) :
    readersOf name (node :: rest) = (node.reader? name).toList ++ readersOf name rest := by
  rw [readersOf, List.filterMap_cons]
  cases node.reader? name <;> rfl

theorem readersOf_append (name : String) (front back : List Node) :
    readersOf name (front ++ back) = readersOf name front ++ readersOf name back :=
  List.filterMap_append ..

theorem Quiet.mono {root nodes part : List Node} {name : String} (quiet : Quiet root name nodes)
    (runs : ∀ node ∈ nodesWithin part, Runs root nodes node) : Quiet root name part where
  undeclared node reached := quiet.undeclared node (reached.mono runs)
  unrepeated reference reached := quiet.unrepeated reference (reached.mono runs)

theorem runs_of_append {root : List Node} (front : List Node) {back : List Node} :
    ∀ node ∈ nodesWithin back, Runs root (front ++ back) node := fun _ inside =>
  .within (by rw [nodesWithin_append]; exact List.mem_append_right _ inside)

namespace Outcomes

variable {graph : Graph} {root before rest : List Node} {node : Node} {name : String} {index : Nat}

/-- What the references still to come have for a branch of a fork before them. -/
noncomputable def credit (graph : Graph) (before rest : List Node) : Dues := fun name index =>
  if name ∈ before.filterMap Node.forkName? then
    ((readersOf name rest).map (costAt graph · index)).prod
  else 1

/-- What is due where some nodes of a sequence are rendered and others still to come. -/
noncomputable def owing (graph : Graph) (dues : Dues) (before rest : List Node) : Dues :=
  fun name index => dues name index * credit graph before rest name index

theorem one_le_prod {references : List Reference} :
    1 ≤ (references.map (costAt graph · index)).prod := by
  induction references with
  | nil => exact Nat.le_refl 1
  | cons reference others ih =>
    rw [List.map_cons, List.prod_cons]
    exact Nat.mul_pos (one_le_costAt reference index) ih

theorem one_le_credit : 1 ≤ credit graph before rest name index := by
  unfold credit
  split
  · exact one_le_prod
  · exact Nat.le_refl 1

theorem credit_tail_le :
    credit graph before rest name index ≤ credit graph before (node :: rest) name index := by
  unfold credit
  split
  · rw [readersOf_cons, List.map_append, List.prod_append]
    exact Nat.le_mul_of_pos_left _ one_le_prod
  · exact Nat.le_refl 1

theorem credit_append_of_ne (different : node.forkName? ≠ some name) :
    credit graph (before ++ [node]) rest name index = credit graph before rest name index := by
  have same : name ∈ (before ++ [node]).filterMap Node.forkName? ↔
      name ∈ before.filterMap Node.forkName? := by
    rw [List.filterMap_append, List.mem_append, List.mem_filterMap (l := [node])]
    refine or_iff_left ?_
    rintro ⟨other, member, named⟩
    rw [List.mem_singleton.1 member] at named
    exact different named
  unfold credit
  simp only [same]

theorem credit_fork {fork : Fork} (identifier : fork.identifier = some name) :
    credit graph (before ++ [Node.fork fork]) rest name index =
      ((fork.readers rest).map (costAt graph · index)).prod := by
  have member : name ∈ (before ++ [Node.fork fork]).filterMap Node.forkName? :=
    mem_forkNames.2 ⟨fork, List.mem_append_right _ (List.mem_singleton_self _), identifier⟩
  rw [credit, if_pos member, Fork.readers, identifier]

/-- A reference that looks at a fork before it has been paid for. -/
theorem cost_mul_credit_le {reference : Reference} (looks : reference.reruns = false)
    (beside : (∀ choice ∈ reference.choices, choice.isPlain = true) ∨
      reference.target ∈ before.filterMap Node.forkName?) :
    costAt graph reference index * credit graph before rest reference.target index ≤
      credit graph before (.reference reference :: rest) reference.target index := by
  by_cases copies : reference.isCopy = true
  · rw [costAt, Reference.answer?_of_isCopy copies]
    exact (Nat.one_mul _).le.trans credit_tail_le
  · rcases beside with plain | member
    · rw [costAt_eq_one plain, Nat.one_mul]
      exact credit_tail_le
    · have reads : (Node.reference reference).reader? reference.target = some reference :=
        Node.reader?_eq_some_iff.2 ⟨rfl, rfl, looks, Bool.not_eq_true _ ▸ copies⟩
      rw [credit, credit, if_pos member, if_pos member, readersOf_cons, reads, Option.toList,
        List.map_append, List.prod_append]
      simp

/-- Behind a node, no more is due under the names of other forks. -/
theorem owing_le {dues : Dues} (different : node.forkName? ≠ some name) :
    owing graph dues (before ++ [node]) rest name index ≤
      owing graph dues before (node :: rest) name index := by
  rw [owing, owing, credit_append_of_ne different]
  exact Nat.mul_le_mul_left _ credit_tail_le

section Accountable

variable (accountable : Accountable root) (member : before ++ rest ∈ sequences root)
include accountable member

/-- Nothing is due for what is declared or executed again. -/
theorem credit_eq_one (loud : ¬ Quiet root name rest) :
    credit graph before rest name index = 1 := by
  unfold credit
  split
  · rename_i declared
    obtain ⟨fork, listed, identifier⟩ := mem_forkNames.1 declared
    obtain ⟨front, between, rfl⟩ := List.append_of_mem listed
    rw [List.append_assoc, List.cons_append] at member
    rcases accountable.quiet front fork (between ++ rest) name member identifier with plain | quiet
    · refine List.prod_eq_one fun factor inside => ?_
      obtain ⟨reader, reads, rfl⟩ := List.mem_map.1 inside
      rw [readersOf_append] at plain
      exact costAt_eq_one (plain reader (List.mem_append_right _ reads)) index
    · exact absurd (quiet.mono (runs_of_append between)) loud
  · rfl

theorem admits_owing {names : Finset String} {dues : Dues}
    (admits : Admits root (before ++ rest) names dues) :
    Admits root rest names (owing graph dues before rest) := by
  have within : Admits root rest names dues := admits.mono (runs_of_append before)
  refine ⟨fun name index => Nat.mul_pos (admits.positive name index) one_le_credit, within.targets,
    fun node name reached declared inside index => ?_, fun reference reached reruns index => ?_⟩
  · have loud : ¬ Quiet root name rest := fun quiet => quiet.undeclared node reached declared
    rw [owing, within.declared node name reached declared inside,
      credit_eq_one accountable member loud]
  · have loud : ¬ Quiet root reference.target rest := fun quiet =>
      quiet.unrepeated reference reached reruns rfl
    rw [owing, within.repeated reference reached reruns, credit_eq_one accountable member loud]

end Accountable

/-! ## Costs cover what is due -/

/-- Of choices at most one of which adds something, the costs add up to their product. -/
theorem prod_cost_le {choices : List Choice} (single : choices.countP (!·.isPlain) ≤ 1) :
    (choices.map (cost graph)).prod ≤ 1 + (choices.map (cost graph · - 1)).sum := by
  induction choices with
  | nil => exact Nat.le_refl 1
  | cons choice others ih =>
    rw [List.map_cons, List.prod_cons, List.map_cons, List.sum_cons]
    have one : 1 ≤ cost graph choice := one_le_cost choice
    by_cases plain : choice.isPlain = true
    · rw [List.countP_cons_of_neg (by rw [plain]; exact Bool.false_ne_true)] at single
      rw [cost_of_isPlain plain, Nat.one_mul, Nat.sub_self, Nat.zero_add]
      exact ih single
    · rw [List.countP_cons_of_pos (by simpa using plain)] at single
      have others : (others.map (cost graph)).prod = 1 := by
        refine List.prod_eq_one fun factor inside => ?_
        obtain ⟨other, member, rfl⟩ := List.mem_map.1 inside
        have nothing := Nat.le_zero.1 (Nat.le_of_succ_le_succ single)
        have none := List.countP_eq_zero.1 nothing other member
        exact cost_of_isPlain (by simpa using none)
      rw [others]
      omega

theorem prod_costAt (references : List Reference) (index : Nat) :
    (references.map (costAt graph · index)).prod =
      ((references.filterMap (·.answer? index)).map (cost graph)).prod := by
  induction references with
  | nil => rfl
  | cons reference others ih =>
    rw [List.map_cons, List.prod_cons, List.filterMap_cons, ih, costAt]
    cases reference.answer? index with
    | none => exact Nat.one_mul _
    | some choice => rfl

theorem sum_costAt (references : List Reference) (index : Nat) :
    (references.map (costAt graph · index - 1)).sum =
      ((references.filterMap (·.answer? index)).map (cost graph · - 1)).sum := by
  induction references with
  | nil => rfl
  | cons reference others ih =>
    rw [List.map_cons, List.sum_cons, List.filterMap_cons, ih, costAt]
    cases reference.answer? index with
    | none => exact Nat.zero_add _
    | some choice => rfl

theorem sum_map_sum {α : Type} (items : List α) (count : Nat) (part : α → Nat → Nat) :
    ∑ index ∈ Finset.range count, (items.map (part · index)).sum =
      (items.map fun item => ∑ index ∈ Finset.range count, part item index).sum := by
  induction items with
  | nil => simp
  | cons item others ih => simp only [List.map_cons, List.sum_cons, Finset.sum_add_distrib, ih]

variable {fork : Fork} {own : Nat}

theorem Pays.one_le {references : List Reference} (pays : Pays graph fork references own)
    (nonempty : fork.branches ≠ []) : 1 ≤ own := by
  have first : 0 < fork.branches.length := List.length_pos_iff.2 nonempty
  have part : branchCost graph fork 0 ≤
      ∑ index ∈ Finset.range fork.branches.length, branchCost graph fork index :=
    Finset.single_le_sum (fun _ _ => Nat.zero_le _) (Finset.mem_range.2 first)
  have one : 1 ≤ branchCost graph fork 0 := one_le_branchCost first
  have paid := pays.le
  omega

/-- What pays for a fork and its references covers its branches with what is due for them. -/
theorem Pays.covers (accountable : Accountable root) {after : List Node}
    (member : before ++ .fork fork :: after ∈ sequences root)
    (pays : Pays graph fork (fork.readers after) own) {due : Nat → Nat}
    (le : ∀ index, due index ≤ ((fork.readers after).map (costAt graph · index)).prod) :
    ∑ index ∈ Finset.range fork.branches.length, branchCost graph fork index * due index ≤ own := by
  -- Branch by branch, a product of which at most one factor is not one is paid as a sum.
  refine le_trans ?_ pays.le
  rw [← sum_map_sum _ _ fun reference index => costAt graph reference index - 1,
    ← Finset.sum_add_distrib]
  refine Finset.sum_le_sum fun index inside => (Nat.mul_le_mul_left _ (le index)).trans ?_
  have below := Finset.mem_range.1 inside
  have found := List.getElem?_eq_getElem below
  generalize fork.branches[index] = branch at found
  have paid : branchCost graph fork index = cost graph branch.choice := by
    rw [branchCost, found]
    rfl
  have single : (branch.choice :: (fork.readers after).filterMap (·.answer? index)).countP
      (!·.isPlain) ≤ 1 := by
    cases identifier : fork.identifier with
    | none =>
      rw [Fork.readers, identifier]
      exact List.countP_le_length
    | some name =>
      rw [Fork.readers, identifier]
      exact accountable.single before fork after name member identifier index branch found
  have bound : cost graph branch.choice * ((fork.readers after).map (costAt graph · index)).prod ≤
      1 + ((cost graph branch.choice - 1) +
        ((fork.readers after).map (costAt graph · index - 1)).sum) := by
    rw [prod_costAt, sum_costAt]
    exact prod_cost_le single
  have one : 1 ≤ cost graph branch.choice := one_le_cost branch.choice
  rw [paid]
  omega

/-- What pays for executing a fork again covers its branches with what the reference has for
them. -/
theorem Pays.covers_again (accountable : Accountable root) {reference : Reference}
    (within : .reference reference ∈ nodesWithin root) (reruns : reference.reruns = true)
    (denotes : Denotes root reference.target fork) (pays : Pays graph fork [reference] own) :
    ∑ index ∈ Finset.range fork.branches.length,
      costAt graph reference index * branchCost graph fork index ≤ own := by
  refine le_trans ?_ pays.le
  rw [List.map_singleton, List.sum_singleton, ← Finset.sum_add_distrib]
  refine Finset.sum_le_sum fun index inside => ?_
  have below := Finset.mem_range.1 inside
  have found := List.getElem?_eq_getElem below
  have oneBranch : 1 ≤ branchCost graph fork index := one_le_branchCost below
  have oneAnswer : 1 ≤ costAt graph reference index := one_le_costAt reference index
  have either : branchCost graph fork index = 1 ∨ costAt graph reference index = 1 := by
    cases answers : reference.answer? index with
    | none =>
      rw [costAt, answers]
      exact .inr rfl
    | some choice =>
      rw [branchCost, found, costAt, answers]
      exact (accountable.repeated reference within reruns fork denotes index _ choice found
        answers).imp cost_of_isPlain cost_of_isPlain
  rcases either with one | one
  · rw [one]
    omega
  · rw [one]
    omega

end Outcomes

end BranchText
