/-!
# The generator

Random numbers come from a stream cipher: twelve rounds of ChaCha over a block of sixteen words
made of four constants, a key of eight words and a block counter. The key is expanded from a
64-bit seed. A generator is its key and the number of 64-bit values drawn so far, so copying one
copies its future, and a draw is a function from a generator to a value and the next generator.
-/

namespace BranchText

/-- The eight words of a cipher key. -/
structure CipherKey where
  k0 : UInt32
  k1 : UInt32
  k2 : UInt32
  k3 : UInt32
  k4 : UInt32
  k5 : UInt32
  k6 : UInt32
  k7 : UInt32
  deriving Repr, DecidableEq, Inhabited

/-- The sixteen words of a cipher block, as a matrix of four rows. -/
structure CipherBlock where
  a0 : UInt32
  a1 : UInt32
  a2 : UInt32
  a3 : UInt32
  b0 : UInt32
  b1 : UInt32
  b2 : UInt32
  b3 : UInt32
  c0 : UInt32
  c1 : UInt32
  c2 : UInt32
  c3 : UInt32
  d0 : UInt32
  d1 : UInt32
  d2 : UInt32
  d3 : UInt32
  deriving Repr, DecidableEq

/-- Rotates a word to the left by a fixed number of bits below 32. -/
def rotateLeft (word : UInt32) (count : UInt32) : UInt32 :=
  (word <<< count) ||| (word >>> (32 - count))

namespace CipherBlock

/-- Mixes one column or diagonal of four words. -/
def mix (a b c d : UInt32) : UInt32 × UInt32 × UInt32 × UInt32 :=
  let a := a + b
  let d := rotateLeft (d ^^^ a) 16
  let c := c + d
  let b := rotateLeft (b ^^^ c) 12
  let a := a + b
  let d := rotateLeft (d ^^^ a) 8
  let c := c + d
  let b := rotateLeft (b ^^^ c) 7
  (a, b, c, d)

/-- Two rounds: the columns, then the diagonals. -/
def doubleRound (s : CipherBlock) : CipherBlock :=
  let (a0, b0, c0, d0) := mix s.a0 s.b0 s.c0 s.d0
  let (a1, b1, c1, d1) := mix s.a1 s.b1 s.c1 s.d1
  let (a2, b2, c2, d2) := mix s.a2 s.b2 s.c2 s.d2
  let (a3, b3, c3, d3) := mix s.a3 s.b3 s.c3 s.d3
  let (a0, b1, c2, d3) := mix a0 b1 c2 d3
  let (a1, b2, c3, d0) := mix a1 b2 c3 d0
  let (a2, b3, c0, d1) := mix a2 b3 c0 d1
  let (a3, b0, c1, d2) := mix a3 b0 c1 d2
  ⟨a0, a1, a2, a3, b0, b1, b2, b3, c0, c1, c2, c3, d0, d1, d2, d3⟩

/-- Applies `count` double rounds. -/
def rounds : Nat → CipherBlock → CipherBlock
  | 0, s => s
  | count + 1, s => rounds count s.doubleRound

/-- Adds two blocks word by word. -/
def add (s t : CipherBlock) : CipherBlock :=
  ⟨s.a0 + t.a0, s.a1 + t.a1, s.a2 + t.a2, s.a3 + t.a3,
    s.b0 + t.b0, s.b1 + t.b1, s.b2 + t.b2, s.b3 + t.b3,
    s.c0 + t.c0, s.c1 + t.c1, s.c2 + t.c2, s.c3 + t.c3,
    s.d0 + t.d0, s.d1 + t.d1, s.d2 + t.d2, s.d3 + t.d3⟩

/-- The block of a key and a counter before any round. -/
def initial (key : CipherKey) (counter : UInt64) : CipherBlock :=
  ⟨0x61707865, 0x3320646E, 0x79622D32, 0x6B206574,
    key.k0, key.k1, key.k2, key.k3, key.k4, key.k5, key.k6, key.k7,
    counter.toUInt32, (counter >>> 32).toUInt32, 0, 0⟩

/-- The output block of a key and a counter: six double rounds, added to where they started. -/
def output (key : CipherKey) (counter : UInt64) : CipherBlock :=
  let start := initial key counter
  (rounds 6 start).add start

/-- Two words as one 64-bit value, the first being the low half. -/
def pair (low high : UInt32) : UInt64 :=
  low.toUInt64 ||| (high.toUInt64 <<< 32)

/-- The 64-bit value at a place of the block, which holds eight of them. -/
def value (s : CipherBlock) (place : Nat) : UInt64 :=
  match place with
  | 0 => pair s.a0 s.a1
  | 1 => pair s.a2 s.a3
  | 2 => pair s.b0 s.b1
  | 3 => pair s.b2 s.b3
  | 4 => pair s.c0 s.c1
  | 5 => pair s.c2 s.c3
  | 6 => pair s.d0 s.d1
  | _ => pair s.d2 s.d3

end CipherBlock

/-- A generator: its key and how many 64-bit values have been drawn. -/
structure Generator where
  key : CipherKey
  drawn : Nat
  deriving Repr, DecidableEq, Inhabited

namespace Generator

/-- One step of the seed expansion: the next state, and the key word it gives. -/
def expand (state : UInt64) : UInt64 × UInt32 :=
  let state := state * 6364136223846793005 + 11634580027462260723
  let word := (((state >>> 18) ^^^ state) >>> 27).toUInt32
  let count := (state >>> 59).toUInt32
  (state, if count = 0 then word else rotateLeft word (32 - count))

/-- The generator of a seed, with nothing drawn. -/
def ofSeed (seed : UInt64) : Generator :=
  let (s, k0) := expand seed
  let (s, k1) := expand s
  let (s, k2) := expand s
  let (s, k3) := expand s
  let (s, k4) := expand s
  let (s, k5) := expand s
  let (s, k6) := expand s
  let (_, k7) := expand s
  ⟨⟨k0, k1, k2, k3, k4, k5, k6, k7⟩, 0⟩

/-- Draws a 64-bit value. -/
def next (generator : Generator) : UInt64 × Generator :=
  let block := CipherBlock.output generator.key (UInt64.ofNat (generator.drawn / 8))
  (block.value (generator.drawn % 8), { generator with drawn := generator.drawn + 1 })

/-- Draws a double from zero up to, and not including, one: 53 random bits after the point. -/
def unit (generator : Generator) : Float × Generator :=
  let (value, generator) := generator.next
  ((value >>> 11).toFloat * Float.ofBits 0x3CA0000000000000, generator)

/-- How often a draw is repeated before it is given up. A repetition is needed with probability
at most one half each time, so the limit is never met. -/
def attempts : Nat := 4096

/-- Draws a double from zero up to, and not including, `high`. The value is `high` times a double
with 52 random bits; rounding can lift the product to `high`, and then the draw is repeated. -/
def below (high : Float) (generator : Generator) : Float × Generator :=
  go attempts generator
where
  go : Nat → Generator → Float × Generator
    | 0, generator => (0.0, generator)
    | fuel + 1, generator =>
      let (value, generator) := generator.next
      let fraction := Float.ofBits (((1023 : UInt64) <<< 52) ||| (value >>> 12)) - 1.0
      let result := fraction * high
      if result < high then (result, generator) else go fuel generator

/-- Draws a whole number below `count`, which is positive and below `2 ^ 64`. The high half of
the product of the value and `count` is the number; products whose low half is beyond the last
full multiple are drawn again. -/
def natBelow (count : Nat) (generator : Generator) : Nat × Generator :=
  let leadingZeros := 63 - count.log2
  let zone := (count <<< leadingZeros) - 1
  go zone attempts generator
where
  go (zone : Nat) : Nat → Generator → Nat × Generator
    | 0, generator => (0, generator)
    | fuel + 1, generator =>
      let (value, generator) := generator.next
      let product := value.toNat * count
      if product % UInt64.size ≤ zone then (product / UInt64.size, generator)
      else go zone fuel generator

/-- Draws an integer from `low` up to, and not including, `high`. -/
def intFrom (low high : Int) (generator : Generator) : Int × Generator :=
  let (value, generator) := generator.natBelow (high - low).toNat
  (low + value, generator)

end Generator

end BranchText
