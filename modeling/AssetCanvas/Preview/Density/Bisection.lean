/-!
# Halving

A sorted list of numbers is sorted and searched by halving it.  Where some of the numbers are
no numbers, every comparison with them fails and the outcome depends on the course of the
comparisons, which is therefore fixed here: `Bisection.order` extends the first run of a list
by one item after another, and `Bisection.locate` looks around the place of the search before.
Lists of 64 items and more are merged from several runs; for those among them that hold what is no
number, the order that is fixed here is one of many.
-/

namespace AssetCanvas.Bisection

/-- The index between `low` and `high` that is left when the interval is halved again and again,
and `left` tells whether to go on in the lower half. -/
def halve (left : Nat → Bool) (low high : Nat) : Nat :=
  if low < high then
    let middle := low + (high - low) / 2
    if left middle then halve left low middle else halve left (middle + 1) high
  else
    low
termination_by high - low

/-! ### Sorting -/

section Order

variable {α : Type}

/-- The items up to the first one that does not continue the run, and the others. -/
def splitRun (continues : α → α → Bool) : List α → List α × List α
  | a :: b :: rest =>
    if continues a b then
      let (run, others) := splitRun continues (b :: rest)
      (a :: run, others)
    else
      ([a], b :: rest)
  | items => (items, [])

/-- The first run in rising order, and the other items.  A falling run is reversed. -/
def firstRun (less : α → α → Bool) (items : List α) : List α × List α :=
  match items with
  | a :: b :: _ =>
    if less b a then
      let (run, others) := splitRun (fun a b => less b a) items
      (run.reverse, others)
    else
      splitRun (fun a b => !less b a) items
  | _ => (items, [])

/-- The items with one more, which comes after the items that it is not less than. -/
def insert (less : α → α → Bool) (items : List α) (a : α) : List α :=
  let left (i : Nat) : Bool := items[i]?.any (less a)
  let i := halve left 0 items.length
  items.take i ++ a :: items.drop i

/-- The items in rising order. -/
def order (less : α → α → Bool) (items : List α) : List α :=
  let (run, others) := firstRun less items
  others.foldl (insert less) run

end Order

/-! ### Searching -/

/-- The length up to which a list is searched from its front. -/
def shortLength : Nat := 4

/-- The number of neighbours that are tried before the whole list. -/
def reach : Nat := 8

/-- The interval of indices in which a number is searched, from a guess on; both ends agree if
the guess or one of its neighbours is the place. -/
def interval (reaches below : Nat → Bool) (length guess : Nat) : Nat × Nat :=
  if below guess then
    if below (guess - 1) then
      (if reach < guess && reaches (guess - reach) then guess - reach else 0, guess - 1)
    else
      (guess, guess)
  else if below (guess + 1) then
    (guess + 1, guess + 1)
  else if below (guess + 2) then
    (guess + 2, guess + 2)
  else
    let high := guess + reach
    (guess + 2, if high + 1 < length && below high then high else length)

/-- The number of leading numbers of a rising list that `x` reaches: none if it is below the
first one, all and one more if it is above the last one. -/
def locate (numbers : Array Float) (x : Float) (before : Nat) : Nat :=
  let length := numbers.size
  let reaches (i : Nat) : Bool := x ≥ numbers.getD i 0.0
  let below (i : Nat) : Bool := x < numbers.getD i 0.0
  if x > numbers.getD (length - 1) 0.0 then length + 1
  else if below 0 then 0
  else if length ≤ shortLength then
    1 + ((List.range (length - 1)).takeWhile fun i => reaches (i + 1)).length
  else
    let guess := max 1 (min (before - 1) (length - 3))
    let (low, high) := interval reaches below length guess
    halve (fun i => !reaches i) low high

end AssetCanvas.Bisection
