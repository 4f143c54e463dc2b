import BranchText.Decimal.Nearest

/-!
# Weights

The branches of a fork share a mass of one hundred. A branch with a written weight has that much;
the others share what is left in equal parts. A draw walks the weights until their running total
reaches the drawn number.

Everything here is stated for any `WeightScale`, the kind of number weights are measured in.
Documents are rendered with doubles; exact scales obey the laws of arithmetic that doubles only
approximate.
-/

namespace BranchText

/-- The arithmetic and order that weights need. -/
class WeightScale (W : Type) extends Zero W, Add W, Sub W, Div W, NatCast W, LE W, LT W where
  decidableLE : DecidableLE W
  decidableLT : DecidableLT W
  /-- The weight that a written number stands for. -/
  ofDecimal : Decimal → W
  /-- The largest sum of written weights that a fork accepts. -/
  limit : W

instance WeightScale.instDecidableLE (W : Type) [WeightScale W] : DecidableLE W :=
  WeightScale.decidableLE

instance WeightScale.instDecidableLT (W : Type) [WeightScale W] : DecidableLT W :=
  WeightScale.decidableLT

/-- Doubles, with room for rounding in the limit. -/
instance : WeightScale Float where
  zero := 0.0
  natCast := Float.ofNat
  decidableLE := inferInstance
  decidableLT := inferInstance
  ofDecimal := Decimal.toFloat
  limit := 100.0 + Float.ofBits 0x3CB0000000000000 * 100.0

namespace Weight

variable {W : Type} [WeightScale W]

/-- Adds weights from left to right. -/
def total (weights : List W) : W := weights.foldl (· + ·) 0

/-- The mass of one fork. -/
def mass : W := ((100 : Nat) : W)

/-- What each branch without a written weight gets. -/
def share (written : List (Option W)) : W :=
  (mass - total (written.filterMap id)) / ((written.countP Option.isNone : Nat) : W)

/-- Gives every branch a weight: the written one, or an equal part of the mass left over. -/
def normalize (written : List (Option W)) : List W :=
  written.map fun weight => weight.getD (share written)

/-- The place that a draw falls on: the first positive weight at which the running total reaches
the draw. Weights that are not positive are passed over. Rounding can leave the last running total
below the draw; then the last positive weight is taken. -/
def pickAt (draw : W) (weights : List W) : Option Nat :=
  go weights 0 0 none
where
  go : List W → Nat → W → Option Nat → Option Nat
    | [], _, _, last => last
    | weight :: rest, index, running, last =>
      if weight ≤ 0 then go rest (index + 1) running last
      else if draw ≤ running + weight then some index
      else go rest (index + 1) (running + weight) (some index)

/-- Draws a place in proportion to the weights. Without a positive sum there is no choice, and
nothing is drawn. `below high` draws from zero up to, and not including, `high`. -/
def choose {G : Type} (below : W → G → W × G) (weights : List W) (source : G) :
    Option Nat × G :=
  let sum := total weights
  if sum ≤ 0 then (none, source)
  else
    let (draw, source) := below sum source
    (pickAt draw weights, source)

end Weight

end BranchText
