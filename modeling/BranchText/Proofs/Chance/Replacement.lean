import BranchText.Chance.Deck

/-!
# Drawing without replacement

A set deck never deals a place again that it has dealt since its last refill: a dealt place keeps
no weight, and places without weight are passed over.
-/

namespace BranchText

section Weights

variable {W : Type} [WeightScale W]

/-- The walk over weights ends at a place with weight, unless it has found one before. -/
theorem Weight.positive_of_go (draw : W) (weights : List W) {index found : Nat} {running : W}
    {last : Option Nat} (picked : pickAt.go draw weights index running last = some found) :
    last = some found ∨
      ∃ place weight, found = index + place ∧ weights[place]? = some weight ∧ ¬ weight ≤ 0 := by
  induction weights generalizing index running last with
  | nil => exact .inl picked
  | cons weight rest ih =>
    have later : ∀ {running : W} {last : Option Nat},
        pickAt.go draw rest (index + 1) running last = some found →
          last = some found ∨ ∃ place value, found = index + place ∧
            (weight :: rest)[place]? = some value ∧ ¬ value ≤ 0 := by
      intro running last picked
      rcases ih picked with before | ⟨place, value, rfl, there, positive⟩
      · exact .inl before
      · exact .inr ⟨place + 1, value, Nat.add_right_comm .., there, positive⟩
    rw [pickAt.go] at picked
    by_cases none : weight ≤ 0
    · rw [if_pos none] at picked
      exact later picked
    · rw [if_neg none] at picked
      have here : ∃ place value, index = index + place ∧
          (weight :: rest)[place]? = some value ∧ ¬ value ≤ 0 := ⟨0, weight, rfl, rfl, none⟩
      split at picked
      · cases picked
        exact .inr here
      · rcases later picked with same | found
        · cases same
          exact .inr here
        · exact .inr found

/-- A drawn place has weight. -/
theorem Weight.positive_of_choose {G : Type} {below : W → G → W × G} {weights : List W}
    {source later : G} {index : Nat} (chosen : choose below weights source = (some index, later)) :
    ∃ weight, weights[index]? = some weight ∧ ¬ weight ≤ 0 := by
  unfold choose at chosen
  simp only at chosen
  split at chosen
  · cases chosen
  · have picked : pickAt (below (total weights) source).1 weights = some index := congrArg (·.1) chosen
    rcases positive_of_go _ _ picked with none | ⟨place, weight, same, there, positive⟩
    · cases none
    · rw [Nat.zero_add] at same
      exact ⟨weight, same ▸ there, positive⟩

end Weights

namespace Deck

variable {W : Type} [WeightScale W]

/-- Some source makes the deck deal the draw, which leaves `rest`. -/
def Deals {G : Type} (below : W → G → W × G) (deck : Deck W) (draw : Draw) (rest : Deck W) : Prop :=
  ∃ source later, deck.draw below source = (some draw, rest, later)

/-- The places that were dealt since the last refill, in draws the latest of which comes first. -/
def spentSince : List Draw → List Nat
  | [] => []
  | draw :: earlier => draw.index :: if draw.refilled then [] else spentSince earlier

/-- None of the places has weight left. -/
def Depleted (deck : Deck W) (places : List Nat) : Prop :=
  ∀ place ∈ places, ∀ weight, deck.live[place]? = some weight → weight ≤ 0

theorem depleted_nil (deck : Deck W) : deck.Depleted [] := fun _ member => by cases member

/-- A spent place has no weight left, and no other place gains any. -/
theorem Depleted.spend {deck : Deck W} {places : List Nat} (depleted : deck.Depleted places)
    (isSet : deck.isSet = true) (zero : (0 : W) ≤ 0) (index : Nat) :
    (deck.spend index).Depleted (index :: places) := by
  intro place member weight there
  rw [Deck.spend, if_pos isSet, List.getElem?_set] at there
  split at there
  · split at there
    · cases there
      exact zero
    · cases there
  · rename_i other
    rcases List.mem_cons.1 member with same | inPlaces
    · exact absurd same.symm other
    · exact depleted place inPlaces weight there

section Deals

variable {G : Type} {below : W → G → W × G} {deck rest : Deck W} {draw : Draw}

/-- What a deck deals: a place with weight, after a refill if it is a set with nothing left. -/
theorem Deals.cases (deals : deck.Deals below draw rest) :
    (draw.refilled = false ∧ (∃ weight, deck.live[draw.index]? = some weight ∧ ¬ weight ≤ 0) ∧
        rest = deck.spend draw.index) ∨
      (draw.refilled = true ∧
        (∃ weight, deck.initial[draw.index]? = some weight ∧ ¬ weight ≤ 0) ∧
        rest = deck.refill.spend draw.index) := by
  obtain ⟨source, later, dealt⟩ := deals
  unfold Deck.draw at dealt
  split at dealt
  · rename_i index source' chosen
    cases dealt
    exact .inl ⟨rfl, Weight.positive_of_choose chosen, rfl⟩
  · split at dealt
    · split at dealt
      · rename_i index source' chosen
        cases dealt
        exact .inr ⟨rfl, Weight.positive_of_choose chosen, rfl⟩
      · cases dealt
    · cases dealt

@[simp]
theorem isSet_spend (deck : Deck W) (index : Nat) : (deck.spend index).isSet = deck.isSet := by
  unfold spend
  split <;> rfl

@[simp]
theorem initial_spend (deck : Deck W) (index : Nat) :
    (deck.spend index).initial = deck.initial := by
  unfold spend
  split <;> rfl

@[simp]
theorem length_live_spend (deck : Deck W) (index : Nat) :
    (deck.spend index).live.length = deck.live.length := by
  unfold spend
  split
  · exact List.length_set
  · rfl

/-- Dealing leaves a set a set. -/
theorem Deals.isSet (deals : deck.Deals below draw rest) : rest.isSet = deck.isSet := by
  rcases deals.cases with ⟨-, -, rfl⟩ | ⟨-, -, rfl⟩
  · exact isSet_spend ..
  · exact isSet_spend ..

/-- Whether the deck has this many weights. -/
def Fits (deck : Deck W) (count : Nat) : Prop :=
  deck.initial.length = count ∧ deck.live.length = count

/-- Dealing takes no weight away. -/
theorem Deals.fits {count : Nat} (deals : deck.Deals below draw rest) (fits : deck.Fits count) :
    rest.Fits count := by
  rcases deals.cases with ⟨-, -, rfl⟩ | ⟨-, -, rfl⟩
  · exact ⟨by rw [initial_spend]; exact fits.1, by rw [length_live_spend]; exact fits.2⟩
  · exact ⟨by rw [initial_spend]; exact fits.1, by rw [length_live_spend]; exact fits.1⟩

/-- A dealt place is the place of a branch. -/
theorem Deals.index_lt {count : Nat} (deals : deck.Deals below draw rest) (fits : deck.Fits count) :
    draw.index < count := by
  rcases deals.cases with ⟨-, ⟨weight, there, -⟩, -⟩ | ⟨-, ⟨weight, there, -⟩, -⟩
  · rw [← fits.2]
    exact (List.getElem?_eq_some_iff.1 there).1
  · rw [← fits.1]
    exact (List.getElem?_eq_some_iff.1 there).1

/-- A place that was dealt since the last refill is not dealt again. -/
theorem Deals.notMem {draws : List Draw} (deals : deck.Deals below draw rest)
    (depleted : deck.Depleted (spentSince draws)) (goesOn : draw.refilled = false) :
    draw.index ∉ spentSince draws := by
  rcases deals.cases with ⟨-, ⟨weight, there, positive⟩, -⟩ | ⟨refilled, -, -⟩
  · exact fun member => positive (depleted _ member weight there)
  · rw [goesOn] at refilled
    cases refilled

/-- What was dealt since the last refill stays without weight. -/
theorem Deals.depleted {draws : List Draw} (deals : deck.Deals below draw rest)
    (isSet : deck.isSet = true) (zero : (0 : W) ≤ 0) (depleted : deck.Depleted (spentSince draws)) :
    rest.Depleted (spentSince (draw :: draws)) := by
  rcases deals.cases with ⟨goesOn, -, rfl⟩ | ⟨refilled, -, rfl⟩
  · rw [spentSince, goesOn]
    exact depleted.spend isSet zero draw.index
  · rw [spentSince, refilled]
    have refillSet : deck.refill.isSet = true := isSet
    exact (depleted_nil deck.refill).spend refillSet zero draw.index

end Deals

/-! ## Sequences of draws -/

/-- No draw takes a place that an earlier one took, unless the deck was refilled between them. -/
def NoRepeat (draws : List Draw) : Prop :=
  ∀ front first middle second back, draws = front ++ first :: (middle ++ second :: back) →
    (∀ draw ∈ middle ++ [second], draw.refilled = false) → first.index ≠ second.index

/-- Each of the draws, the latest first, avoids what was dealt since the last refill. -/
def Avoids : List Draw → Prop
  | [] => True
  | draw :: earlier =>
    (draw.refilled = false → draw.index ∉ spentSince earlier) ∧ Avoids earlier

theorem avoids_of_append {later earlier : List Draw} (avoids : Avoids (later ++ earlier)) :
    Avoids earlier := by
  induction later with
  | nil => exact avoids
  | cons draw rest ih => exact ih avoids.2

/-- A draw counts until the next refill. -/
theorem mem_spentSince {later earlier : List Draw} {draw : Draw}
    (goesOn : ∀ other ∈ later, other.refilled = false) :
    draw.index ∈ spentSince (later ++ draw :: earlier) := by
  induction later with
  | nil => exact List.mem_cons_self ..
  | cons other rest ih =>
    rw [List.cons_append, spentSince, goesOn other (List.mem_cons_self ..)]
    exact List.mem_cons_of_mem _ (ih fun draw member => goesOn draw (List.mem_cons_of_mem _ member))

theorem noRepeat_of_avoids {draws : List Draw} (avoids : Avoids draws) :
    NoRepeat draws.reverse := by
  intro front first middle second back split goesOn same
  have order : draws = back.reverse ++ second :: (middle.reverse ++ first :: front.reverse) := by
    rw [← List.reverse_reverse draws, split]
    simp
  rw [order] at avoids
  obtain ⟨avoided, -⟩ := avoids_of_append avoids
  refine avoided (goesOn second (by simp)) ?_
  rw [← same]
  exact mem_spentSince fun draw member => goesOn draw (by simp_all)

end Deck

end BranchText
