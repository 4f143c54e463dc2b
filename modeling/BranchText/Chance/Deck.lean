import BranchText.Chance.Weight

/-!
# Decks

A deck is the live state of a fork's weights. An ordinary fork draws from the same weights each
time. A set fork draws without replacement: a drawn place loses its weight, and once no weight is
left the deck is refilled from its initial weights.
-/

namespace BranchText

/-- The weights of a fork: those it was built with and those left to draw from. -/
structure Deck (W : Type) where
  /-- Whether drawn places are used up. -/
  isSet : Bool
  initial : List W
  live : List W
  deriving Repr

/-- The outcome of one draw. -/
structure Draw where
  index : Nat
  /-- Whether the deck was refilled before drawing. -/
  refilled : Bool
  deriving Repr, DecidableEq

namespace Deck

variable {W : Type} [WeightScale W]

/-- The full deck of a fork with these written weights. -/
def full (isSet : Bool) (written : List (Option W)) : Deck W :=
  ⟨isSet, Weight.normalize written, Weight.normalize written⟩

/-- Builds a full deck from written weights; fails with their sum when it is over the limit. -/
def ofWritten (isSet : Bool) (written : List (Option W)) : Except W (Deck W) :=
  let sum := Weight.total (written.filterMap id)
  if WeightScale.limit < sum then .error sum else .ok (full isSet written)

/-- Restores the initial weights. -/
def refill (deck : Deck W) : Deck W := { deck with live := deck.initial }

/-- The deck after the place has been drawn. -/
def spend (deck : Deck W) (index : Nat) : Deck W :=
  if deck.isSet then { deck with live := deck.live.set index 0 } else deck

/-- Draws once. A set deck with nothing left is refilled and drawn from again; it stays refilled
even if that draw fails too. -/
def draw {G : Type} (below : W → G → W × G) (deck : Deck W) (source : G) :
    Option Draw × Deck W × G :=
  match Weight.choose below deck.live source with
  | (some index, source) => (some ⟨index, false⟩, deck.spend index, source)
  | (none, source) =>
    if deck.isSet then
      match Weight.choose below deck.refill.live source with
      | (some index, source) => (some ⟨index, true⟩, deck.refill.spend index, source)
      | (none, source) => (none, deck.refill, source)
    else (none, deck, source)

end Deck

end BranchText
