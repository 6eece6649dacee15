/-!
# Shuffled bytes

The gradients of simplex noise are spread over the lattice by a permutation of the numbers
below 256.  `Shuffle.ofSeed` draws it by a linear congruential generator on signed integers
of 64 bits.
-/

namespace AssetCanvas

/-- A permutation of the numbers below 256. -/
structure Shuffle where
  entries : Array Nat

namespace Shuffle

/-- The number of entries. -/
def size : Nat := 256

/-- The state of the generator after a state. -/
def advance (state : Int) : Int :=
  (state * 6364136223846793005 + 1442695040888963407).bmod 0x10000000000000000

/-- The entries before the index `n`, put in front of the ones drawn so far.  An entry that
is drawn leaves its place in the pool to the last entry of the pool. -/
def draw : Nat → Int → Array Nat → List Nat → List Nat
  | 0, _, _, drawn => drawn
  | n + 1, state, pool, drawn =>
    let state := advance state
    let chosen := ((state + 31) % (n + 1)).toNat
    draw n state (pool.setIfInBounds chosen (pool.getD n 0)) (pool.getD chosen 0 :: drawn)

/-- The permutation of a seed. -/
def ofSeed (seed : Int) : Shuffle :=
  let state := advance (advance (advance seed))
  ⟨(draw size state (Array.range size) []).toArray⟩

/-- The entry at an index, which counts modulo the size. -/
def entry (s : Shuffle) (i : Int) : Nat := s.entries.getD (i % size).toNat 0

/-- The entry of a lattice point of the plane. -/
def entry2 (s : Shuffle) (i j : Int) : Nat := s.entry (s.entry i + j)

/-- The entry of a lattice point of space. -/
def entry3 (s : Shuffle) (i j k : Int) : Nat := s.entry (s.entry2 i j + k)

end Shuffle

end AssetCanvas
