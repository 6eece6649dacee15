/-!
# The order of sums

Floats are added in a certain order, on which their sum depends.  A short row of numbers is added
from left to right.  From eight numbers on they are added in eight lanes, each of which takes every
eighth number, and a row of more than 128 numbers is cut in two first.  All of this is defined for
any numbers that can be added.
-/

namespace AssetCanvas.Summation

variable {α : Type} [Add α]

/-- The number of lanes. -/
def laneCount : Nat := 8

/-- The greatest length of a row that is not cut in two. -/
def blockLength : Nat := 128

/-- The sum of eight lanes and a rest of a row.  The lanes take what the rest has for all of them,
are added in pairs, and what is left over comes last. -/
def inLanes (a b c d e f g h : α) : List α → α
  | a' :: b' :: c' :: d' :: e' :: f' :: g' :: h' :: rest =>
    inLanes (a + a') (b + b') (c + c') (d + d') (e + e') (f + f') (g + g') (h + h') rest
  | rest => rest.foldl (· + ·) (((a + b) + (c + d)) + ((e + f) + (g + h)))

/-- The sum of a row in lanes, as far as it fills them. -/
def inBlock (zero : α) : List α → α
  | a :: b :: c :: d :: e :: f :: g :: h :: rest => inLanes a b c d e f g h rest
  | short => short.foldl (· + ·) zero

/-- The sum of a row that is cut in two until it is no longer than a block.  The first part fills
its lanes. -/
def inHalves (zero : α) (xs : List α) : α :=
  if xs.length ≤ blockLength then
    inBlock zero xs
  else
    let half := xs.length / 2 - xs.length / 2 % laneCount
    inHalves zero (xs.take half) + inHalves zero (xs.drop half)
termination_by xs.length
decreasing_by
  all_goals
    simp only [blockLength, laneCount, List.length_take, List.length_drop] at *
    omega

/-- The sum of a row of numbers, from zero on. -/
def row (zero : α) (xs : List α) : α :=
  if xs.length < laneCount then xs.foldl (· + ·) zero else zero + inHalves zero xs

end AssetCanvas.Summation
