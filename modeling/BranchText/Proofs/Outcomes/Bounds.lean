import BranchText.Proofs.Outcomes.Standing
import BranchText.Proofs.Outcomes.Weighing
import BranchText.Proofs.Outcomes.Worth

/-!
# How much forks and references give

From what is recorded, a choice gives outcomes whose records are together worth no more than what
is recorded, as many times as the choice costs. `Bounds` states this of one choice; from it follows
the same for forks and for references, whichever branch they draw.
-/

namespace BranchText

/-- The nodes of a choice. -/
def Choice.among : Choice → List Node
  | .nodes inner => inner
  | .script _ => []
  | .call _ => []

theorem Choice.nodesWithin_among (choice : Choice) : nodesWithin choice.among = choice.within := by
  cases choice <;> rfl

namespace Outcomes

variable {root nodes part : List Node} {graph : Graph} {names : Finset String} {dues less : Dues}
  {view after : View}

/-! ## Dues that fit -/

/-- What is due fits the nodes: it counts for every name that they refer to, and nothing is due for
what they declare or execute again. -/
structure Admits (root nodes : List Node) (names : Finset String) (dues : Dues) : Prop where
  positive : ∀ name index, 1 ≤ dues name index
  targets : ∀ reference, Runs root nodes (.reference reference) → reference.target ∈ names
  declared : ∀ node name, Runs root nodes node → node.name? = some name → name ∈ names →
    ∀ index, dues name index = 1
  repeated : ∀ reference, Runs root nodes (.reference reference) → reference.reruns = true →
    ∀ index, dues reference.target index = 1

theorem Admits.mono (admits : Admits root nodes names dues)
    (runs : ∀ node ∈ nodesWithin part, Runs root nodes node) : Admits root part names dues where
  positive := admits.positive
  targets reference reached := admits.targets reference (reached.mono runs)
  declared node name reached := admits.declared node name (reached.mono runs)
  repeated reference reached := admits.repeated reference (reached.mono runs)

theorem Admits.le (admits : Admits root nodes names dues)
    (positive : ∀ name index, 1 ≤ less name index)
    (le : ∀ name ∈ names, ∀ index, less name index ≤ dues name index) :
    Admits root nodes names less where
  positive := positive
  targets := admits.targets
  declared node name reached declared member index := by
    have one := admits.declared node name reached declared member index
    exact Nat.le_antisymm (one ▸ le name member index) (positive name index)
  repeated reference reached reruns index := by
    have one := admits.repeated reference reached reruns index
    exact Nat.le_antisymm (one ▸ le _ (admits.targets reference reached) index) (positive _ index)

/-- A branch of a fork does not refer to the fork. -/
theorem Admits.branch (acyclic : Acyclic root) (admits : Admits root nodes names dues) {fork : Fork}
    {name : Option String} (denotes : ∀ own, name = some own → Denotes root own fork)
    {branch : Branch} (member : branch ∈ fork.branches)
    (runs : ∀ node ∈ branch.choice.within, Runs root nodes node) :
    Admits root branch.choice.among (without names name) dues := by
  have same := branch.choice.nodesWithin_among
  have within : Admits root branch.choice.among names dues := admits.mono (same ▸ runs)
  cases name with
  | none => exact within
  | some own =>
    refine ⟨within.positive, fun reference reached => ?_,
      fun node name reached declared inside => ?_,
      within.repeated⟩
    · refine Finset.mem_erase.2 ⟨?_, within.targets reference reached⟩
      exact (denotes own rfl).target_ne acyclic (same ▸ within_subset_of_branch member) reached
    · exact within.declared node name reached declared (Finset.mem_of_mem_erase inside)

/-! ## Accounted records -/

/-- The graph knows the fork under a name that may stand for it, and counts its branches. -/
structure Owned (root : List Node) (graph : Graph) (name : String) (fork : Fork) : Prop where
  denotes : Denotes root name fork
  known : Known graph name fork
  fine : ∀ branch ∈ fork.branches, Fine graph branch.choice

/-- The graph knows everything that is recorded. -/
def Accounted (root : List Node) (graph : Graph) (view : View) : Prop :=
  ∀ name taken, view name = some taken → Owned root graph name taken.fork

theorem Accounted.standing (accounted : Accounted root graph view) : Standing root view :=
  fun name taken found => (accounted name taken found).denotes

theorem Accounted.named (accounted : Accounted root graph view) {name : Option String}
    {taken : Taken}
    (owned : ∀ own, name = some own → Owned root graph own taken.fork) :
    Accounted root graph (view.named name taken) := by
  intro other found present
  by_cases same : name = some other
  · subst same
    rw [View.named_self] at present
    cases present
    exact owned other rfl
  · rw [View.named_of_ne _ same] at present
    exact accounted other found present

/-- What a choice gives is accounted for. -/
structure Bounds (root : List Node) (graph : Graph) (inner : Giving) (choice : Choice)
    (view : View) : Prop where
  accounted : ∀ text after, inner choice view text after → Accounted root graph after
  weighs : ∀ names dues, Admits root choice.among names dues →
    Weighs (fun outcome : String × View => worth graph names dues outcome.2)
      (fun outcome => inner choice view outcome.1 outcome.2)
      (cost graph choice * worth graph names dues view)

/-- So is what all choices of the document give that were counted. -/
def Bounded (root : List Node) (graph : Graph) (inner : Giving) : Prop :=
  ∀ choice : Choice, (∀ among, choice = .nodes among → among ∈ sequences root) →
    Fine graph choice → ∀ view, Accounted root graph view → Bounds root graph inner choice view

section Steps

variable {inner : Giving} (bounded : Bounded root graph inner)
include bounded

/-! ## Draws -/

section Drawn

variable {fork : Fork} (within : .fork fork ∈ nodesWithin root)
  (fine : ∀ branch ∈ fork.branches, Fine graph branch.choice)
  (accounted : Accounted root graph view)
include within fine accounted

theorem bounds_branch {branch : Branch} (member : branch ∈ fork.branches) :
    Bounds root graph inner branch.choice view :=
  bounded _ (fun _ same => mem_sequences_of_branch within member same) (fine branch member) view
    accounted

theorem accounted_drawn {name : Option String}
    (owned : ∀ own, name = some own → Owned root graph own fork) {index : Nat} {text : String}
    (drawn : Drawn inner fork name view index text after) : Accounted root graph after := by
  obtain ⟨found, renders⟩ := drawn
  have bounds := bounds_branch bounded within fine accounted (List.mem_of_getElem? found)
  exact (bounds.accounted _ _ renders).named owned

/-- The branches of a fork that is drawn from, each with a factor. -/
theorem weighs_drawn (positive : ∀ name index, 1 ≤ dues name index) {name : Option String}
    (admits : ∀ branch ∈ fork.branches, Admits root branch.choice.among (without names name) dues)
    (factor : Nat → Nat) :
    Weighs (fun outcome : Nat × String × View =>
        factor outcome.1 * worth graph names dues outcome.2.2)
      (fun outcome => Drawn inner fork name view outcome.1 outcome.2.1 outcome.2.2)
      ((∑ index ∈ Finset.range fork.branches.length,
          factor index * (branchCost graph fork index * dueAt names dues name index)) *
        worth graph (without names name) dues view) := by
  have each : ∀ index < fork.branches.length,
      Weighs (fun outcome : Nat × String × View =>
          factor outcome.1 * worth graph names dues outcome.2.2)
        (fun outcome => outcome.1 = index ∧
          Drawn inner fork name view outcome.1 outcome.2.1 outcome.2.2)
        (factor index * (branchCost graph fork index * dueAt names dues name index) *
          worth graph (without names name) dues view) := by
    intro index below
    have found := List.getElem?_eq_getElem below
    have member := List.mem_of_getElem? found
    generalize fork.branches[index] = branch at found member
    have weighs := (bounds_branch bounded within fine accounted member).weighs _ _
      (admits branch member)
    have due : 1 ≤ dueAt names dues name index := by
      unfold dueAt
      split
      · exact Nat.le_refl 1
      · split
        · exact positive _ index
        · exact Nat.le_refl 1
    have paid : branchCost graph fork index = cost graph branch.choice := by
      rw [branchCost, found]
      rfl
    have scaled := weighs.scale (factor index * dueAt names dues name index)
    rw [paid, show factor index * (cost graph branch.choice * dueAt names dues name index) *
        worth graph (without names name) dues view = factor index * dueAt names dues name index *
          (cost graph branch.choice * worth graph (without names name) dues view) by ac_rfl]
    refine scaled.map (fun outcome => (index, outcome.1, outcome.2.named name
      ⟨fork, some index, outcome.1⟩)) (fun outcome _ => ?_) ?_
    · rw [Nat.mul_assoc]
      refine Nat.mul_le_mul_left _ (worth_named due fun other same listed => ?_)
      subst same
      rw [dueAt, if_pos listed]
      exact Nat.le_refl _
    · rintro ⟨_, text, after⟩ ⟨rfl, drawn⟩
      obtain ⟨_, between, foundHere, renders, same⟩ := drawn.exists
      cases found.symm.trans foundHere
      exact ⟨(text, between), renders, Prod.ext rfl (Prod.ext rfl same)⟩
  refine Weighs.union each ?_ (le_of_eq (Finset.sum_mul ..).symm)
  rintro ⟨index, text, after⟩ drawn
  refine ⟨index, ?_, rfl, drawn⟩
  obtain ⟨_, _, found, -⟩ := drawn.exists
  exact (List.getElem?_eq_some_iff.1 found).1

end Drawn

/-! ## Forks -/

omit bounded in
/-- What a fork is worth under its name while it waits, or once it has been drawn from. -/
theorem worthOf_le {fork : Fork} {name : String} (member : name ∈ names) {own : Nat} (one : 1 ≤ own)
    (paid : ∑ index ∈ Finset.range fork.branches.length,
      branchCost graph fork index * dueAt names dues (some name) index ≤ own) {taken : Taken}
    (same : taken.fork = fork)
    (below : ∀ index, taken.chosen = some index → index < fork.branches.length) :
    worthOf graph (dues name) (some taken) ≤ own := by
  simp only [dueAt, if_pos member] at paid
  obtain ⟨other, chosen, rendered⟩ := taken
  have same : other = fork := same
  subst same
  cases chosen with
  | none => exact max_le one paid
  | some index =>
    have within := below index rfl
    let costs := fun index => branchCost graph other index * dues name index
    calc dues name index
        ≤ costs index := Nat.le_mul_of_pos_left _ (one_le_branchCost within)
      _ ≤ ∑ index ∈ Finset.range other.branches.length, costs index :=
          Finset.single_le_sum (fun _ _ => Nat.zero_le _) (Finset.mem_range.2 within)
      _ ≤ own := paid

section Fork

variable {fork : Fork} (within : .fork fork ∈ nodesWithin root)
  (fine : ∀ branch ∈ fork.branches, Fine graph branch.choice)
  (accounted : Accounted root graph view)
include within fine accounted

theorem accounted_fork (owned : ∀ own, fork.identifier = some own → Owned root graph own fork)
    {text : String} (gives : ForkGives inner fork view text after) :
    Accounted root graph after := by
  cases gives with
  | left => exact accounted.named owned
  | stayed => exact accounted
  | drawn _ drawn => exact accounted_drawn bounded within fine accounted owned drawn

/-- What pays for the branches of a fork, with what is due for them, pays for the fork. -/
theorem weighs_fork (positive : ∀ name index, 1 ≤ dues name index)
    (admits : ∀ branch ∈ fork.branches,
      Admits root branch.choice.among (without names fork.identifier) dues)
    {own : Nat} (one : 1 ≤ own) (paid : ∑ index ∈ Finset.range fork.branches.length,
      branchCost graph fork index * dueAt names dues fork.identifier index ≤ own) :
    Weighs (fun outcome : String × View => worth graph names dues outcome.2)
      (fun outcome => ForkGives inner fork view outcome.1 outcome.2)
      (own * worth graph (without names fork.identifier) dues view) := by
  cases waits : fork.silent && fork.isSet with
  | true =>
    by_cases missing : ∀ name, fork.identifier = some name → view name = none
    · refine Weighs.single ("", view.named fork.identifier ⟨fork, none, ""⟩) ?_ fun _ => ?_
      · rintro ⟨text, after⟩ gives
        cases gives with
        | left => rfl
        | stayed _ identifier found =>
          rw [missing _ identifier] at found
          cases found
        | drawn executes =>
          rw [waits] at executes
          cases executes
      · refine worth_named one fun name identifier member => ?_
        rw [identifier] at paid
        exact worthOf_le member one paid rfl fun _ none => nomatch none
    · refine Weighs.single ("", view) ?_ fun gives => ?_
      · rintro ⟨text, after⟩ gives
        cases gives with
        | left _ absent => exact absurd absent missing
        | stayed => rfl
        | drawn executes =>
          rw [waits] at executes
          cases executes
      · have stays : ∀ text after, ForkGives inner fork view text after →
            ∃ name taken, fork.identifier = some name ∧ view name = some taken ∧
              taken.fork = fork ∧
                ∀ index, taken.chosen = some index → index < fork.branches.length := by
          intro text after gives
          cases gives with
          | left _ absent => exact absurd absent missing
          | stayed _ identifier found same below => exact ⟨_, _, identifier, found, same, below⟩
          | drawn executes =>
            rw [waits] at executes
            cases executes
        obtain ⟨name, taken, identifier, found, same, below⟩ := stays _ _ gives
        rw [identifier] at paid ⊢
        change worth graph names dues view ≤ _
        by_cases member : name ∈ names
        · rw [worth_eq_mul member, found]
          exact Nat.mul_le_mul_right _ (worthOf_le member one paid same below)
        · rw [without, Finset.erase_eq_of_notMem member]
          exact Nat.le_mul_of_pos_left _ one
  | false =>
    have drawn := weighs_drawn bounded within fine accounted positive admits fun _ => 1
    simp only [Nat.one_mul] at drawn
    have paying := drawn.imp (fun _ => id) (fun _ _ => Nat.le_refl _) (Nat.mul_le_mul_right _ paid)
    refine paying.map (fun outcome => outcome.2) (fun _ _ => Nat.le_refl _) ?_
    rintro ⟨text, after⟩ gives
    cases gives with
    | left waiting =>
      rw [waits] at waiting
      cases waiting
    | stayed waiting =>
      rw [waits] at waiting
      cases waiting
    | drawn _ drawn => exact ⟨(_, text, after), drawn, rfl⟩

end Fork

/-! ## References -/

section Reference

variable {reference : Reference}
  (runs : ∀ node ∈ (Node.reference reference).within, Runs root nodes node)
include runs

section Takes

variable {taken : Taken} (found : view reference.target = some taken)
  (accounted : Accounted root graph view)
include found accounted

omit runs in
theorem accounted_takes {index : Nat} {text : String}
    (takes : Takes inner reference taken view index text after) : Accounted root graph after := by
  have owned := accounted _ _ found
  cases takes with
  | last => exact accounted
  | drawn _ drawn =>
    refine accounted_drawn bounded owned.denotes.within owned.fine accounted ?_ drawn
    rintro _ ⟨⟩
    exact owned

variable (acyclic : Acyclic root) (admits : Admits root nodes names dues)
include acyclic admits

/-- Every branch that a reference draws from its target, with a factor. -/
theorem weighs_taken (executes : reference.reruns = true ∨
      taken.chosen = none ∧ taken.fork.silent = true ∧ taken.fork.isSet = true)
    (factor : Nat → Nat) :
    Weighs (fun outcome : Nat × String × View =>
        factor outcome.1 * worth graph names dues outcome.2.2)
      (fun outcome => Takes inner reference taken view outcome.1 outcome.2.1 outcome.2.2)
      ((∑ index ∈ Finset.range taken.fork.branches.length,
          factor index * (branchCost graph taken.fork index * dues reference.target index)) *
        worth graph (names.erase reference.target) dues view) := by
  have owned := accounted _ _ found
  have here := runs _ (Node.self_mem_within _)
  have draws : Draws root reference taken.fork := ⟨owned.denotes, executes.imp_right And.right⟩
  have fits : ∀ branch ∈ taken.fork.branches,
      Admits root branch.choice.among (without names (some reference.target)) dues := by
    refine fun branch member => admits.branch acyclic ?_ member fun node inside => ?_
    · rintro _ ⟨⟩
      exact owned.denotes
    · exact .drawn here draws (within_subset_of_branch member inside)
  -- The target is recorded anew, and worth what is due for the branch that was drawn.
  have drawn := weighs_drawn bounded owned.denotes.within owned.fine accounted admits.positive fits
    factor
  simp only [dueAt, if_pos (admits.targets reference here)] at drawn
  refine drawn.imp ?_ (fun _ _ => Nat.le_refl _) (Nat.le_refl _)
  rintro ⟨index, text, after⟩ takes
  cases takes with
  | last chosen _ looks =>
    rcases executes with reruns | ⟨none, -⟩
    · rw [looks] at reruns
      cases reruns
    · rw [chosen] at none
      cases none
  | drawn _ drawn => exact drawn

/-- A reference that looks at its target takes nothing that its record is not worth. -/
theorem weighs_takes_look (looks : reference.reruns = false) :
    Weighs (fun outcome : Nat × String × View => worth graph names dues outcome.2.2)
      (fun outcome => Takes inner reference taken view outcome.1 outcome.2.1 outcome.2.2)
      (worth graph names dues view) := by
  have member := admits.targets reference (runs _ (Node.self_mem_within _))
  cases chosen : taken.chosen with
  | some index =>
    refine Weighs.single (index, taken.rendered, view) ?_ fun _ => Nat.le_refl _
    rintro ⟨other, text, after⟩ takes
    cases takes with
    | last same => rw [Option.some.inj (chosen.symm.trans same)]
    | drawn executes =>
      rcases executes with reruns | ⟨none, -⟩
      · rw [looks] at reruns
        cases reruns
      · rw [chosen] at none
        cases none
  | none =>
    by_cases waits : taken.fork.silent = true ∧ taken.fork.isSet = true
    · have drawn := weighs_taken bounded runs found accounted acyclic admits
        (.inr ⟨chosen, waits⟩) fun _ => 1
      simp only [Nat.one_mul] at drawn
      refine drawn.imp (fun _ => id) (fun _ _ => Nat.le_refl _) ?_
      rw [worth_eq_mul member, found]
      obtain ⟨fork, other, rendered⟩ := taken
      cases chosen
      exact Nat.mul_le_mul_right _ (Nat.le_max_right ..)
    · refine .of_isEmpty fun outcome takes => ?_
      obtain ⟨index, text, after⟩ := outcome
      cases takes with
      | last some =>
        rw [chosen] at some
        cases some
      | drawn executes =>
        rcases executes with reruns | ⟨-, pending⟩
        · rw [looks] at reruns
          cases reruns
        · exact waits pending

end Takes

/-! ### Answers -/

section Answers

variable (within : .reference reference ∈ nodesWithin root) (accounted : Accounted root graph view)
  {index : Nat} (fine : ∀ choice, reference.answer? index = some choice → Fine graph choice)
  {rendered : String}
include within accounted fine

omit runs in
theorem bounds_answer {choice : Choice} (found : reference.answer? index = some choice) :
    Bounds root graph inner choice view := by
  refine bounded choice (fun among same => ?_) (fine choice found) view accounted
  subst same
  exact mem_sequences_of_choice within (Reference.mem_choices_of_answer? found)

omit runs in
theorem accounted_answers {text : String}
    (answers : Answers inner reference index rendered view text after) :
    Accounted root graph after := by
  cases answers with
  | own => exact accounted
  | choice found renders =>
    exact (bounds_answer bounded within accounted fine found).accounted _ _ renders

/-- What a reference has for a branch pays for what it gives for the branch. -/
theorem weighs_answers (admits : Admits root nodes names dues) :
    Weighs (fun outcome : String × View => worth graph names dues outcome.2)
      (fun outcome => Answers inner reference index rendered view outcome.1 outcome.2)
      (costAt graph reference index * worth graph names dues view) := by
  cases found : reference.answer? index with
  | none =>
    refine Weighs.single (if reference.isCopy then rendered else "", view) ?_ fun _ => ?_
    · rintro ⟨text, after⟩ answers
      cases answers with
      | own => rfl
      | choice some =>
        rw [found] at some
        cases some
    · rw [costAt, found]
      exact Nat.le_mul_of_pos_left _ Nat.one_pos
  | some choice =>
    have inside := choice.nodesWithin_among ▸ fun node member =>
      runs node (Reference.answer_within found member)
    have weighs :=
      (bounds_answer bounded within accounted fine found).weighs _ _ (admits.mono inside)
    rw [costAt, found]
    refine weighs.imp ?_ (fun _ _ => Nat.le_refl _) (Nat.le_refl _)
    rintro ⟨text, after⟩ answers
    cases answers with
    | own none =>
      rw [found] at none
      cases none
    | choice same renders =>
      cases found.symm.trans same
      exact renders

end Answers

/-! ### Whole references -/

section Whole

variable (within : .reference reference ∈ nodesWithin root) (accounted : Accounted root graph view)
  (fine : ∀ taken, view reference.target = some taken → ∀ index < taken.fork.branches.length,
    ∀ choice, reference.answer? index = some choice → Fine graph choice)
include within accounted fine

omit runs in
/-- Where the target is not recorded, there is nothing to choose. -/
theorem accounted_reference
    (plain : reference.reruns = false → view reference.target = none →
      ∀ choice, reference.fallback = some choice → choice.isPlain = true)
    (known : ∀ name taken, reference.identifier = some name → view reference.target = some taken →
      Known graph name taken.fork) {text : String}
    (gives : ReferenceGives inner reference view text after) : Accounted root graph after := by
  cases gives with
  | absent looks missing found renders =>
    have isPlain := plain looks missing _ found
    refine (bounded _ (fun among same => ?_) (.inl isPlain) view accounted).accounted
      _ _ renders
    subst same
    exact mem_sequences_of_choice within (Reference.mem_choices_of_fallback found)
  | nothing => exact accounted
  | present found takes answers =>
    have owned := accounted _ _ found
    have knows := fun own identifier => known own _ identifier found
    have between := accounted_takes bounded found accounted takes
    have after := accounted_answers bounded within between (fine _ found _ takes.below) answers
    exact after.named fun own identifier =>
      ⟨.named within identifier owned.denotes, knows own identifier, owned.fine⟩

omit within accounted fine bounded in
/-- Recording the outcome of a reference adds nothing. -/
theorem worth_outcome_le (admits : Admits root nodes names dues) (fork : Fork) (index : Nat)
    (text : String) :
    worth graph names dues (after.named reference.identifier ⟨fork, some index, text⟩) ≤
      worth graph names dues after := by
  have one : ∀ name, reference.identifier = some name → name ∈ names →
      worthOf graph (dues name) (some ⟨fork, some index, text⟩) ≤ 1 := fun name identifier member =>
    le_of_eq (admits.declared _ name (runs _ (Node.self_mem_within _)) identifier member index)
  refine (worth_named (Nat.le_refl 1) one).trans ?_
  rw [Nat.one_mul]
  exact worth_without_le admits.positive _

/-- A reference answers to each branch that it takes. -/
theorem weighs_present {taken : Taken} (found : view reference.target = some taken)
    (fits : Admits root nodes names less) {worthTaken : Nat × String × View → Nat} {bound : Nat}
    (taking : Weighs worthTaken
      (fun took => Takes inner reference taken view took.1 took.2.1 took.2.2) bound)
    (answering : ∀ index rendered between, Takes inner reference taken view index rendered between →
      costAt graph reference index * worth graph names less between ≤
        worthTaken (index, rendered, between)) :
    Weighs (fun outcome : String × View => worth graph names less outcome.2)
      (fun outcome => ReferenceGives inner reference view outcome.1 outcome.2) bound := by
  have second : ∀ took : Nat × String × View,
      Takes inner reference taken view took.1 took.2.1 took.2.2 →
      Weighs (fun outcome : String × View => worth graph names less outcome.2)
        (fun outcome => ∃ answer : String × View,
          Answers inner reference took.1 took.2.1 took.2.2 answer.1 answer.2 ∧
            outcome = (answer.1, answer.2.named reference.identifier
              ⟨taken.fork, some took.1, answer.1⟩)) (worthTaken took) := by
    rintro ⟨index, rendered, between⟩ takes
    have accountedBetween := accounted_takes bounded found accounted takes
    have answers : Weighs (fun outcome : String × View => worth graph names less outcome.2)
        (fun outcome => Answers inner reference index rendered between outcome.1 outcome.2)
        (costAt graph reference index * worth graph names less between) :=
      weighs_answers bounded runs within accountedBetween (fine _ found index takes.below) fits
    refine (answers.imp (fun _ => id) (fun _ _ => Nat.le_refl _) (answering _ _ _ takes)).map
      (fun answer => (answer.1, answer.2.named reference.identifier
        ⟨taken.fork, some index, answer.1⟩)) ?_ fun _ => id
    exact fun answer _ => worth_outcome_le runs fits taken.fork index answer.1
  refine taking.bind second ?_
  rintro ⟨text, after⟩ gives
  dsimp only at gives
  cases gives with
  | absent _ missing =>
    rw [found] at missing
    cases missing
  | nothing _ missing =>
    rw [found] at missing
    cases missing
  | @present _ index rendered _ between after same takes answers =>
    cases found.symm.trans same
    exact ⟨(index, rendered, between), takes, (text, after), answers, rfl⟩

/-- What is due for the branches of its target pays for a reference that looks at it. -/
theorem weighs_look (acyclic : Acyclic root) (looks : reference.reruns = false)
    (plain : view reference.target = none → ∀ choice, reference.fallback = some choice →
      choice.isPlain = true)
    (admits : Admits root nodes names dues) (positive : ∀ name index, 1 ≤ less name index)
    (le : ∀ name index, less name index ≤ dues name index)
    (due : ∀ index, costAt graph reference index * less reference.target index ≤
      dues reference.target index) :
    Weighs (fun outcome : String × View => worth graph names less outcome.2)
      (fun outcome => ReferenceGives inner reference view outcome.1 outcome.2)
      (worth graph names dues view) := by
  have here := runs _ (Node.self_mem_within _)
  have member := admits.targets reference here
  have fits := admits.le positive fun name _ => le name
  cases found : view reference.target with
  | none =>
    cases fallback : reference.fallback with
    | none =>
      refine Weighs.single ("", view) ?_ fun _ => worth_mono fun name _ => le name
      rintro ⟨text, after⟩ gives
      dsimp only at gives
      cases gives with
      | absent _ _ some =>
        rw [fallback] at some
        cases some
      | nothing => rfl
      | present some =>
        rw [found] at some
        cases some
    | some choice =>
      have isPlain := plain found choice fallback
      have inside := choice.nodesWithin_among ▸ fun node member =>
        runs node (Reference.fallback_within fallback member)
      have bounds := bounded choice (fun among same => by
        subst same
        exact mem_sequences_of_choice within (Reference.mem_choices_of_fallback fallback))
        (.inl isPlain) view accounted
      have weighs := bounds.weighs _ _ (fits.mono inside)
      rw [cost_of_isPlain isPlain, Nat.one_mul] at weighs
      refine weighs.imp ?_ (fun _ _ => Nat.le_refl _) (worth_mono fun name _ => le name)
      rintro ⟨text, after⟩ gives
      dsimp only at gives
      cases gives with
      | absent _ _ same renders =>
        cases fallback.symm.trans same
        exact renders
      | nothing _ _ none =>
        rw [fallback] at none
        cases none
      | present some =>
        rw [found] at some
        cases some
  | some taken =>
    have taking := weighs_takes_look bounded runs found accounted acyclic admits looks
    refine weighs_present bounded runs within accounted fine found fits taking
      fun index rendered between takes => ?_
    obtain ⟨text, recorded⟩ := takes.recorded found
    change _ ≤ worth graph names dues between
    rw [worth_eq_mul member, worth_eq_mul member, recorded, ← Nat.mul_assoc]
    exact Nat.mul_le_mul (due index) (worth_mono fun name _ => le name)

/-- A reference that executes its target again is paid for by what pays for the branches of the
target together with what the reference has for them. -/
theorem weighs_again (acyclic : Acyclic root) (reruns : reference.reruns = true) {taken : Taken}
    (found : view reference.target = some taken) (admits : Admits root nodes names dues) {own : Nat}
    (paid : ∑ index ∈ Finset.range taken.fork.branches.length,
      costAt graph reference index * branchCost graph taken.fork index ≤ own) :
    Weighs (fun outcome : String × View => worth graph names dues outcome.2)
      (fun outcome => ReferenceGives inner reference view outcome.1 outcome.2)
      (own * worth graph names dues view) := by
  have here := runs _ (Node.self_mem_within _)
  have taking := weighs_taken bounded runs found accounted acyclic admits (.inl reruns)
    (costAt graph reference)
  simp only [admits.repeated reference here reruns, Nat.mul_one] at taking
  have less : worth graph (names.erase reference.target) dues view ≤ worth graph names dues view :=
    worth_without_le admits.positive (some reference.target)
  have room := Nat.mul_le_mul paid less
  exact weighs_present bounded runs within accounted fine found admits
    (taking.imp (fun _ => id) (fun _ _ => Nat.le_refl _) room) fun _ _ _ _ => Nat.le_refl _

omit runs accounted fine bounded within in
/-- Nothing executes a name that has no record. -/
theorem not_again (reruns : reference.reruns = true) (missing : view reference.target = none)
    {text : String} : ¬ ReferenceGives inner reference view text after := by
  intro gives
  cases gives with
  | absent looks =>
    rw [reruns] at looks
    cases looks
  | nothing looks =>
    rw [reruns] at looks
    cases looks
  | present found =>
    rw [missing] at found
    cases found

end Whole

end Reference

end Steps

end Outcomes

end BranchText
