/-!
# The random generator

A `Generator` is a linear congruential generator of 128 bits whose output folds the two
halves of the state and rotates the result (PCG, variant XSL RR).  `Generator.ofSeeds`
spreads a few seeds of 32 bits over its state and its increment, and `Generator.next` draws
a float from the interval from zero to one.
-/

namespace AssetCanvas

/-! ### Spreading seeds -/

namespace SeedPool

/-- The remainder modulo 2 ^ 32. -/
def low32 (n : Nat) : Nat := n % 0x100000000

/-- A hashed value, and the hash constant for the next one. -/
def hash (constant value : Nat) : Nat × Nat :=
  let next := low32 (constant * 0x931E8875)
  let v := low32 ((value ^^^ constant) * next)
  (v ^^^ (v >>> 16), next)

/-- The mixture of two words. -/
def mix (x y : Nat) : Nat :=
  let r := low32 (x * 0xCA01F9DD + (0x100000000 - low32 (y * 0x4973F715)))
  r ^^^ (r >>> 16)

/-- The size of the pool. -/
def size : Nat := 4

/-- The pool of hashed seeds, a zero for every missing one, and the hash constant. -/
def fill (seeds : List Nat) : Array Nat × Nat :=
  (List.range size).foldl
    (fun (pool, constant) i =>
      let (v, next) := hash constant (seeds.getD i 0)
      (pool.push v, next))
    (#[], 0x43B0D7E5)

/-- The pool after mixing the word at `source` into the word at `target`. -/
def mixInto (state : Array Nat × Nat) (source target : Nat) : Array Nat × Nat :=
  if source = target then
    state
  else
    let (v, next) := hash state.2 (state.1.getD source 0)
    (state.1.set! target (mix (state.1.getD target 0) v), next)

/-- The pool in which every word depends on every seed. -/
def ofSeeds (seeds : List Nat) : Array Nat :=
  ((List.range size).foldl
    (fun state source => (List.range size).foldl (fun s target => mixInto s source target) state)
    (fill seeds)).1

/-- The output words of a pool from the one at `i` on. -/
def output (pool : Array Nat) : Nat → Nat → Nat → List Nat
  | 0, _, _ => []
  | n + 1, i, constant =>
    let next := low32 (constant * 0x58F38DED)
    let v := low32 ((pool.getD (i % size) 0 ^^^ constant) * next)
    (v ^^^ (v >>> 16)) :: output pool n (i + 1) next

/-- The number of words, the least significant one first. -/
def ofWords (words : List Nat) : Nat := words.foldr (fun w n => w + 0x100000000 * n) 0

end SeedPool

/-! ### The generator -/

/-- The state and the increment of a generator. -/
structure Generator where
  state : Nat
  increment : Nat

namespace Generator

/-- The number of states. -/
def period : Nat := 0x100000000000000000000000000000000

/-- The number of output words. -/
def outputs : Nat := 0x10000000000000000

/-- The factor of the generator. -/
def factor : Nat := 0x2360ED051FC65DA44385DF649FCCF645

/-- The generator after one step. -/
def step (g : Generator) : Generator :=
  { g with state := (g.state * factor + g.increment) % period }

/-- The generator of some seeds.  Of the words of the pool the first two pairs give the
state and the last two the increment, the more significant pair first. -/
def ofSeeds (seeds : List Nat) : Generator :=
  let words := SeedPool.output (SeedPool.ofSeeds seeds) 8 0 0x8B51F9DD
  let pair (i : Nat) := SeedPool.ofWords ((words.drop (2 * i)).take 2)
  let start := pair 0 * outputs + pair 1
  let stream := pair 2 * outputs + pair 3
  let g : Generator := step ⟨0, (2 * stream + 1) % period⟩
  step { g with state := (g.state + start) % period }

/-- The output word of a state. -/
def output (state : Nat) : Nat :=
  let v := (state / outputs) ^^^ (state % outputs)
  let turn := state >>> 122
  (v >>> turn) + (v <<< (64 - turn)) % outputs

/-- A float drawn from the interval from zero to one, and the generator after it. -/
def next (g : Generator) : Float × Generator :=
  let g := g.step
  (Float.ofNat (output g.state / 2048) * (1.0 / 9007199254740992.0), g)

end Generator

end AssetCanvas
