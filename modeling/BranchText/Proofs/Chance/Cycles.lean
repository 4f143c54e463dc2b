import BranchText.Proofs.Chance.ExactWeights

/-!
# The cycles of set decks

A set deck that is drawn from again and again goes through cycles: each cycle deals every place of
positive weight once, and the next draw refills the deck. What carries this is that the live
weights are the initial ones with the places of the current cycle set to zero.
-/

namespace BranchText

namespace Deck

section Calls

variable {W G : Type} [WeightScale W] (below : W → G → W × G) (deck : Deck W) (sources : Nat → G)

/-- The deck before the call with a number, each call having a source of its own. -/
def before : Nat → Deck W
  | 0 => deck
  | number + 1 => ((before number).draw below (sources number)).2.1

/-- What the call with a number gives: the draw if it succeeds, and the deck and the source that
it leaves. -/
def call (number : Nat) : Option Draw × Deck W × G :=
  (deck.before below sources number).draw below (sources number)

/-- The places that calls deal, in order. -/
def dealt (calls : List Nat) : List Nat :=
  calls.filterMap fun number => (deck.call below sources number).1.map (·.index)

end Calls

/-- The places of positive weight. -/
def positivePlaces (weights : List ℚ) : List Nat :=
  (List.range weights.length).filter fun place => 0 < weights.getD place 0

/-- The weights that are left when the places have none. -/
def zeroed (weights : List ℚ) (places : List Nat) : List ℚ :=
  weights.mapIdx fun place weight => if place ∈ places then 0 else weight

theorem mem_positivePlaces {weights : List ℚ} {place : Nat} :
    place ∈ positivePlaces weights ↔ ∃ weight, weights[place]? = some weight ∧ 0 < weight := by
  simp only [positivePlaces, List.mem_filter, List.mem_range, decide_eq_true_eq,
    List.getD_eq_getElem?_getD]
  constructor
  · rintro ⟨inside, positive⟩
    rw [List.getElem?_eq_getElem inside] at positive
    exact ⟨weights[place], List.getElem?_eq_getElem inside, positive⟩
  · rintro ⟨weight, found, positive⟩
    rw [found]
    exact ⟨(List.getElem?_eq_some_iff.1 found).1, positive⟩

theorem nodup_positivePlaces (weights : List ℚ) : (positivePlaces weights).Nodup :=
  List.nodup_range.filter _

@[simp]
theorem zeroed_nil (weights : List ℚ) : zeroed weights [] = weights := by
  apply List.ext_getElem?
  simp [zeroed]

theorem getElem?_zeroed (weights : List ℚ) (places : List Nat) (place : Nat) :
    (zeroed weights places)[place]? =
      weights[place]?.map fun weight => if place ∈ places then 0 else weight :=
  List.getElem?_mapIdx

/-- Spending one more place. -/
theorem set_zeroed (weights : List ℚ) (places : List Nat) (place : Nat) :
    (zeroed weights places).set place 0 = zeroed weights (places ++ [place]) := by
  apply List.ext_getElem?
  intro other
  rw [List.getElem?_set, getElem?_zeroed, getElem?_zeroed]
  by_cases same : place = other
  · subst same
    cases found : weights[place]? with
    | none => simp [zeroed, List.getElem?_eq_none_iff.1 found]
    | some weight => simp [zeroed, (List.getElem?_eq_some_iff.1 found).1]
  · have apart : ¬ other = place := fun eq => same eq.symm
    simp [same, apart]

/-- A deck in the middle of a cycle: the places dealt in the cycle are different places of positive
weight, and they alone have lost their weight. -/
structure InCycle (weights : List ℚ) (spent : List Nat) (deck : Deck ℚ) : Prop where
  isSet : deck.isSet = true
  initial : deck.initial = weights
  live : deck.live = zeroed weights spent
  nodup : spent.Nodup
  positive : spent ⊆ positivePlaces weights

/-- Weights that fit make a full deck. -/
theorem ofWritten_of_fits (isSet : Bool) {written : List (Option ℚ)} (fits : Weight.Fits written) :
    ofWritten isSet written = .ok (full isSet written) := by
  have limit : (WeightScale.limit : ℚ) = 100 + 100 / 4503599627370496 := rfl
  have light : ¬ WeightScale.limit < Weight.total (written.filterMap id) := by
    have := fits.total_le
    rw [not_lt]
    linarith
  rw [ofWritten, if_neg light]

theorem inCycle_full (written : List (Option ℚ)) :
    InCycle (Weight.normalize written) [] (full true written) where
  isSet := rfl
  initial := rfl
  live := (zeroed_nil _).symm
  nodup := List.nodup_nil
  positive := List.nil_subset _

namespace InCycle

variable {G : Type} (below : ℚ → G → ℚ × G) {weights : List ℚ} {spent : List Nat}
  {deck : Deck ℚ}

theorem spend (cycle : InCycle weights spent deck) {place : Nat} (fresh : place ∉ spent)
    (positive : place ∈ positivePlaces weights) :
    InCycle weights (spent ++ [place]) (deck.spend place) where
  isSet := (isSet_spend ..).trans cycle.isSet
  initial := (initial_spend ..).trans cycle.initial
  live := by
    rw [Deck.spend, if_pos cycle.isSet, ← set_zeroed, ← cycle.live]
  nodup := List.nodup_append.2 ⟨cycle.nodup, List.nodup_singleton place, by
    intro first member second single
    rw [List.mem_singleton.1 single]
    exact fun same => fresh (same ▸ member)⟩
  positive := List.append_subset.2 ⟨cycle.positive, by
    intro other single
    exact List.mem_singleton.1 single ▸ positive⟩

theorem refill (cycle : InCycle weights spent deck) : InCycle weights [] deck.refill where
  isSet := cycle.isSet
  initial := cycle.initial
  live := cycle.initial.trans (zeroed_nil _).symm
  nodup := List.nodup_nil
  positive := List.nil_subset _

theorem live_nonneg (cycle : InCycle weights spent deck) (nonneg : ∀ weight ∈ weights, 0 ≤ weight) :
    ∀ weight ∈ deck.live, 0 ≤ weight := by
  intro weight member
  rw [cycle.live] at member
  obtain ⟨place, inside, rfl⟩ := List.mem_mapIdx.1 member
  split
  · exact le_rfl
  · exact nonneg _ (List.getElem_mem inside)

/-- The places that can be dealt are those of positive weight that the cycle has not dealt. -/
theorem live_positive_iff (cycle : InCycle weights spent deck) {place : Nat} :
    (∃ weight, deck.live[place]? = some weight ∧ 0 < weight) ↔
      place ∉ spent ∧ place ∈ positivePlaces weights := by
  rw [mem_positivePlaces, cycle.live, getElem?_zeroed]
  by_cases member : place ∈ spent <;> simp [member]

/-- The choice from a deck with something left falls on a place that the cycle has not dealt. -/
theorem choose_some (cycle : InCycle weights spent deck)
    (nonneg : ∀ weight ∈ weights, 0 ≤ weight)
    (short : spent.length < (positivePlaces weights).length) (source : G) :
    ∃ place later, Weight.choose below deck.live source = (some place, later) ∧
      place ∉ spent ∧ place ∈ positivePlaces weights := by
  have unspent : ∃ place ∈ positivePlaces weights, place ∉ spent := by
    by_contra absent
    push Not at absent
    have shorter := ((nodup_positivePlaces weights).subperm absent).length_le
    omega
  obtain ⟨place, positive, fresh⟩ := unspent
  obtain ⟨weight, there, above⟩ := cycle.live_positive_iff.2 ⟨fresh, positive⟩
  obtain ⟨index, later, chosen⟩ := Weight.exists_choose below source (cycle.live_nonneg nonneg)
    ⟨weight, List.mem_of_getElem? there, above⟩
  obtain ⟨drawn, found, notNonpos⟩ := Weight.positive_of_choose chosen
  exact ⟨index, later, chosen, cycle.live_positive_iff.1 ⟨drawn, found, not_le.1 notNonpos⟩⟩

/-- A cycle that has dealt as many places as there are has dealt them all. -/
theorem spent_perm (cycle : InCycle weights spent deck)
    (complete : spent.length = (positivePlaces weights).length) :
    spent.Perm (positivePlaces weights) :=
  (cycle.nodup.subperm cycle.positive).perm_of_length_le complete.ge

/-- Nothing can be chosen at the end of a cycle. -/
theorem choose_none (cycle : InCycle weights spent deck)
    (complete : spent.length = (positivePlaces weights).length) (source : G) :
    Weight.choose below deck.live source = (none, source) := by
  refine Weight.choose_of_nonpos below source fun weight member => ?_
  obtain ⟨place, there⟩ := List.mem_iff_getElem?.1 member
  by_contra above
  obtain ⟨fresh, positive⟩ := cycle.live_positive_iff.1 ⟨weight, there, not_le.1 above⟩
  exact fresh ((cycle.spent_perm complete).mem_iff.2 positive)

/-- Within a cycle a draw deals one more place, without a refill. -/
theorem draw_within (cycle : InCycle weights spent deck)
    (nonneg : ∀ weight ∈ weights, 0 ≤ weight)
    (short : spent.length < (positivePlaces weights).length) (source : G) :
    ∃ place, (deck.draw below source).1 = some ⟨place, false⟩ ∧
      InCycle weights (spent ++ [place]) (deck.draw below source).2.1 := by
  obtain ⟨place, later, chosen, fresh, positive⟩ := cycle.choose_some below nonneg short source
  have drawn : deck.draw below source = (some ⟨place, false⟩, deck.spend place, later) := by
    rw [Deck.draw, chosen]
  rw [drawn]
  exact ⟨place, rfl, cycle.spend fresh positive⟩

/-- At the end of a cycle a draw refills the deck and starts the next cycle. -/
theorem draw_at_end (cycle : InCycle weights spent deck)
    (nonneg : ∀ weight ∈ weights, 0 ≤ weight)
    (complete : spent.length = (positivePlaces weights).length)
    (some : 0 < (positivePlaces weights).length) (source : G) :
    ∃ place, (deck.draw below source).1 = .some ⟨place, true⟩ ∧
      InCycle weights [place] (deck.draw below source).2.1 := by
  obtain ⟨place, later, chosen, fresh, positive⟩ :=
    cycle.refill.choose_some below nonneg some source
  have drawn : deck.draw below source = (.some ⟨place, true⟩, deck.refill.spend place, later) := by
    rw [Deck.draw, cycle.choose_none below complete]
    simp only [cycle.isSet, if_true, chosen]
  rw [drawn]
  exact ⟨place, rfl, cycle.refill.spend fresh positive⟩

end InCycle

section Cycles

variable {G : Type} (below : ℚ → G → ℚ × G) {weights : List ℚ} {deck : Deck ℚ}
  (sources : Nat → G)

theorem dealt_range'_succ (start count : Nat) :
    deck.dealt below sources (List.range' start (count + 1)) =
      deck.dealt below sources (List.range' start count) ++
        deck.dealt below sources [start + count] := by
  rw [List.range'_1_concat, dealt, List.filterMap_append]
  rfl

theorem dealt_singleton (number : Nat) {draw : Draw}
    (drawn : (deck.call below sources number).1 = some draw) :
    deck.dealt below sources [number] = [draw.index] := by
  simp [dealt, drawn]

/-- One cycle, from a full or an exhausted deck on: every call succeeds, and only the first one
refills the deck, if it was exhausted. -/
theorem calls_in_cycle (nonneg : ∀ weight ∈ weights, 0 ≤ weight)
    (some : 0 < (positivePlaces weights).length) {spent : List Nat} {start : Nat} {refills : Bool}
    (cycle : InCycle weights spent (deck.before below sources start))
    (ends : if refills then spent.length = (positivePlaces weights).length else spent = [])
    (count : Nat) (within : count < (positivePlaces weights).length) :
    (∃ place, (deck.call below sources (start + count)).1 =
        .some ⟨place, refills && count == 0⟩) ∧
      InCycle weights (deck.dealt below sources (List.range' start (count + 1)))
        (deck.before below sources (start + count + 1)) ∧
      (deck.dealt below sources (List.range' start (count + 1))).length = count + 1 := by
  induction count with
  | zero =>
    have first : ∃ place, (deck.call below sources start).1 = .some ⟨place, refills⟩ ∧
        InCycle weights [place] (deck.before below sources (start + 1)) := by
      cases refills with
      | true => exact cycle.draw_at_end below nonneg ends some (sources start)
      | false =>
        rw [if_neg Bool.false_ne_true] at ends
        subst ends
        exact cycle.draw_within below nonneg within (sources start)
    obtain ⟨place, drawn, next⟩ := first
    rw [List.range'_one, dealt_singleton below sources start drawn]
    exact ⟨⟨place, by rw [Nat.add_zero, drawn, beq_self_eq_true, Bool.and_true]⟩, next, rfl⟩
  | succ count ih =>
    obtain ⟨-, before, dealt⟩ := ih (by omega)
    obtain ⟨place, drawn, next⟩ := before.draw_within below nonneg
      (by omega) (sources (start + count + 1))
    rw [dealt_range'_succ, dealt_singleton below sources (start + (count + 1)) drawn]
    refine ⟨⟨place, ?_⟩, next, by simp [dealt]⟩
    rw [show (count + 1 == 0) = false from rfl, Bool.and_false]
    exact drawn

/-- Before each cycle the deck is full, or exhausted by the cycle before. -/
theorem before_cycle (nonneg : ∀ weight ∈ weights, 0 ≤ weight)
    (some : 0 < (positivePlaces weights).length) (full : InCycle weights [] deck) (cycle : Nat) :
    ∃ spent, InCycle weights spent
        (deck.before below sources (cycle * (positivePlaces weights).length)) ∧
      if decide (0 < cycle) then spent.length = (positivePlaces weights).length else spent = [] := by
  induction cycle with
  | zero =>
    rw [Nat.zero_mul]
    exact ⟨[], full, rfl⟩
  | succ cycle ih =>
    obtain ⟨spent, here, ends⟩ := ih
    have last := calls_in_cycle below sources nonneg some here ends
      ((positivePlaces weights).length - 1) (by omega)
    rw [Nat.sub_add_cancel some, Nat.add_assoc, Nat.sub_add_cancel some, ← Nat.succ_mul] at last
    exact ⟨_, last.2.1, last.2.2⟩

/-- A deck without positive weights never deals, and is left as it is. -/
theorem call_of_nonpos (nonpos : ∀ weight ∈ weights, weight ≤ 0) (full : InCycle weights [] deck)
    (number : Nat) : deck.call below sources number = (none, deck, sources number) := by
  have live : deck.live = weights := full.live.trans (zeroed_nil weights)
  have refilled : deck.refill = deck :=
    congrArg (Deck.mk deck.isSet deck.initial) (full.initial.trans live.symm)
  have drawn : ∀ source, deck.draw below source = (none, deck, source) := by
    intro source
    have nothing := Weight.choose_of_nonpos below source nonpos
    rw [Deck.draw, refilled, live, nothing]
    simp only [full.isSet, if_true, nothing]
  have before : ∀ number, deck.before below sources number = deck := by
    intro number
    induction number with
    | zero => rfl
    | succ number ih => rw [Deck.before, ih, drawn]
  rw [call, before, drawn]

/-- Every call succeeds, and those at the start of a cycle after the first refill the deck. -/
theorem exists_call (nonneg : ∀ weight ∈ weights, 0 ≤ weight)
    (some : 0 < (positivePlaces weights).length) (full : InCycle weights [] deck) (number : Nat) :
    ∃ draw, (deck.call below sources number).1 = .some draw ∧
      (draw.refilled = true ↔ 0 < number ∧ (positivePlaces weights).length ∣ number) := by
  obtain ⟨spent, here, ends⟩ := before_cycle below sources nonneg some full
    (number / (positivePlaces weights).length)
  obtain ⟨⟨place, drawn⟩, -, -⟩ := calls_in_cycle below sources nonneg some here ends
    (number % (positivePlaces weights).length) (Nat.mod_lt _ some)
  rw [Nat.div_add_mod'] at drawn
  refine ⟨_, drawn, ?_⟩
  rw [Bool.and_eq_true, decide_eq_true_eq, beq_iff_eq, ← Nat.dvd_iff_mod_eq_zero]
  constructor
  · rintro ⟨later, divides⟩
    exact ⟨Nat.pos_of_ne_zero fun zero => by simp [zero] at later, divides⟩
  · rintro ⟨later, divides⟩
    exact ⟨Nat.div_pos (Nat.le_of_dvd later divides) some, divides⟩

/-- A cycle deals every place of positive weight once, and no other. -/
theorem dealt_perm (nonneg : ∀ weight ∈ weights, 0 ≤ weight)
    (some : 0 < (positivePlaces weights).length) (full : InCycle weights [] deck) (cycle : Nat) :
    (deck.dealt below sources (List.range' (cycle * (positivePlaces weights).length)
      (positivePlaces weights).length)).Perm (positivePlaces weights) := by
  obtain ⟨spent, here, ends⟩ := before_cycle below sources nonneg some full cycle
  obtain ⟨-, last, complete⟩ := calls_in_cycle below sources nonneg some here ends
    ((positivePlaces weights).length - 1) (by omega)
  rw [Nat.sub_add_cancel some] at last complete
  exact last.spent_perm complete

/-- A set deck with exact weights that are not negative and not too heavy: if it has places of
positive weight, every call succeeds, each cycle deals each of these places once and nothing else,
and the calls that refill the deck are those at the start of a cycle after the first. If it has
none, every call fails and changes nothing. -/
theorem deals_in_cycles {written : List (Option ℚ)} (fits : Weight.Fits written) :
    ∃ deck : Deck ℚ, ofWritten true written = .ok deck ∧ ∀ sources : Nat → G,
      (0 < (positivePlaces deck.initial).length →
        (∀ number, ∃ draw, (deck.call below sources number).1 = some draw ∧
          (draw.refilled = true ↔ 0 < number ∧ (positivePlaces deck.initial).length ∣ number)) ∧
        ∀ cycle, (deck.dealt below sources
          (List.range' (cycle * (positivePlaces deck.initial).length)
            (positivePlaces deck.initial).length)).Perm (positivePlaces deck.initial)) ∧
      ((positivePlaces deck.initial).length = 0 → ∀ number,
        deck.call below sources number = (none, deck, sources number)) := by
  have nonneg := Weight.nonneg_of_mem_normalize fits
  have start := inCycle_full written
  refine ⟨full true written, ofWritten_of_fits true fits, fun sources =>
    ⟨fun some => ?_, fun none => ?_⟩⟩
  · exact ⟨exists_call below sources nonneg some start,
      dealt_perm below sources nonneg some start⟩
  · change (positivePlaces (Weight.normalize written)).length = 0 at none
    refine call_of_nonpos below sources (fun weight member => ?_) start
    obtain ⟨place, there⟩ := List.mem_iff_getElem?.1 member
    by_contra above
    have positive : place ∈ positivePlaces (Weight.normalize written) :=
      mem_positivePlaces.2 ⟨weight, there, not_le.1 above⟩
    rw [List.eq_nil_of_length_eq_zero none] at positive
    cases positive

/-- Written weights with a zero and two branches that share what is left. -/
def unevenWeights : List (Option ℚ) := [some 0, none, some 40, none]

theorem deals_in_cycles_uneven :
    Weight.Fits unevenWeights ∧ ∃ deck : Deck ℚ, ofWritten true unevenWeights = .ok deck ∧
      positivePlaces deck.initial = [1, 2, 3] ∧
      ∀ below : ℚ → Nat → ℚ × Nat, ∀ sources cycle,
        (deck.dealt below sources (List.range' (cycle * 3) 3)).Perm [1, 2, 3] := by
  have fits : Weight.Fits unevenWeights := by
    refine ⟨fun weight member => ?_, by decide +kernel⟩
    simp only [unevenWeights, List.mem_cons, List.not_mem_nil, Option.some.injEq, reduceCtorEq,
      or_false, false_or] at member
    rcases member with rfl | rfl <;> norm_num
  refine ⟨fits, ?_⟩
  have places : positivePlaces (full true unevenWeights).initial = [1, 2, 3] := by decide +kernel
  refine ⟨_, ofWritten_of_fits true fits, places, fun below sources cycle => ?_⟩
  obtain ⟨deck, built, deals⟩ := deals_in_cycles below fits
  rw [ofWritten_of_fits true fits] at built
  cases built
  have cycles := ((deals sources).1 (by rw [places]; decide)).2 cycle
  rw [places] at cycles
  exact cycles

end Cycles

end Deck

end BranchText
