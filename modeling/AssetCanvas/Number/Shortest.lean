import AssetCanvas.Number.Binary64

/-!
# The shortest decimal of a float

`Shortest.decimal` gives the fewest significant digits whose decimal is read back as the
same float, and of those the decimal nearest to it.  The numbers read back as `m * 2 ^ q`
are those of the interval around it that reaches half way to its neighbours, ends included
for an even `m`.  A decimal with `n` digits in that interval exists only if one of the two
neighbours of the float on the grid of `n`-digit decimals lies in it, so `decimal` tries the
grids from the coarsest to the one with seventeen digits, which always has such a point.
`Shortest.text` writes the digits.
-/

namespace AssetCanvas.Shortest

/-- The most digits that a float ever needs. -/
def maxDigits : Nat := 17

/-- A positive float as `value / unit`, with the interval `low / unit` to `high / unit` of
the numbers read back as it. -/
structure Interval where
  value : Nat
  low : Nat
  high : Nat
  unit : Nat
  /-- Whether the ends belong to the interval. -/
  closed : Bool

/-- The interval of `m * 2 ^ q`.  The lower neighbour of a power of two is half as far. -/
def Interval.ofExact (m : Nat) (q : Int) : Interval :=
  let up := Nat.pow 2 (q - 2).toNat
  let lowGap := if m = 0x10000000000000 ∧ -1074 < q then 1 else 2
  { value := 4 * m * up
    low := (4 * m - lowGap) * up
    high := (4 * m + 2) * up
    unit := Nat.pow 2 (2 - q).toNat
    closed := m % 2 = 0 }

/-- Whether a multiple of the unit is read back as the value. -/
def Interval.holds (i : Interval) (a : Nat) : Bool :=
  if i.closed then i.low ≤ a && a ≤ i.high else i.low < a && a < i.high

/-- The interval with the unit of the grid of decimals `c * 10 ^ k`. -/
def Interval.onGrid (i : Interval) (k : Int) : Interval :=
  let up := Nat.pow 10 (-k).toNat
  { value := i.value * up
    low := i.low * up
    high := i.high * up
    unit := i.unit * Nat.pow 10 k.toNat
    closed := i.closed }

/-- Whether `10 ^ k` is at most the value. -/
def Interval.reaches (i : Interval) (k : Int) : Bool :=
  i.unit * Nat.pow 10 k.toNat ≤ i.value * Nat.pow 10 (-k).toNat

/-- The exponent of the first digit of the value, found from the number of its bits. -/
def Interval.exponent (i : Interval) : Int :=
  let guess := ((i.value.log2 : Int) - i.unit.log2 - 1) * 1233 / 4096
  if i.reaches (guess + 2) then guess + 2
  else if i.reaches (guess + 1) then guess + 1
  else if i.reaches guess then guess
  else guess - 1

/-- The multiple of `step` units that is read back as the value: of the two neighbours the
nearer one, of two equally near ones the even one. -/
def Interval.neighbour? (i : Interval) (step : Nat) : Option Nat :=
  let g := i.unit * step
  let c := i.value / g
  let below := i.value - c * g
  let above := (c + 1) * g - i.value
  match i.holds (c * g), i.holds ((c + 1) * g) with
  | true, true =>
    some (if below < above || (below == above && c % 2 == 0) then c else c + 1)
  | true, false => some c
  | false, true => some (c + 1)
  | false, false => none

/-- The neighbour on the first grid that has one, with the number of digits left out. -/
def Interval.search (i : Interval) : Nat → Nat × Nat
  | 0 => ((i.neighbour? 1).getD 0, 0)
  | omitted + 1 =>
    match i.neighbour? (Nat.pow 10 (omitted + 1)) with
    | some c => (c, omitted + 1)
    | none => i.search omitted

/-- The number `c` without its trailing zeros, and their number; `fuel` bounds the search. -/
def dropZeros : Nat → Nat → Nat × Nat
  | 0, c => (c, 0)
  | fuel + 1, c =>
    if c % 10 = 0 ∧ c ≠ 0 then
      let (c', zeros) := dropZeros fuel (c / 10)
      (c', zeros + 1)
    else
      (c, 0)

/-- The digits `d` and the exponent `k` of the shortest decimal `d * 10 ^ k` of
`m * 2 ^ q`. -/
def decimal (m : Nat) (q : Int) : Nat × Int :=
  if m = 0 then
    (0, 0)
  else
    let i := Interval.ofExact m q
    let k := i.exponent - (maxDigits - 1 : Nat)
    let (c, omitted) := (i.onGrid k).search (maxDigits - 1)
    let (d, zeros) := dropZeros (maxDigits + 1) c
    (d, k + omitted + zeros)

/-! ### Writing -/

/-- The exponents of a first digit for which a number is written without exponent. -/
def positional (exponent : Int) : Bool := -4 ≤ exponent && exponent ≤ 15

/-- The digits of an exponent, at least two. -/
def exponentText (exponent : Int) : String :=
  let digits := toString exponent.natAbs
  let sign := if exponent < 0 then "-" else "+"
  sign ++ (if digits.length < 2 then "0" ++ digits else digits)

/-- A text of `n` zeros. -/
def zeros (n : Nat) : String := String.ofList (List.replicate n '0')

/-- The number `d * 10 ^ k`: with a point in the middle or at the end of the digits where
its exponent is small, else with an exponent. -/
def decimalText (d : Nat) (k : Int) : String :=
  let digits := toString d
  let exponent := k + digits.length - 1
  if positional exponent then
    if exponent < 0 then
      "0." ++ zeros (-exponent - 1).toNat ++ digits
    else if 0 ≤ k then
      digits ++ zeros k.toNat ++ ".0"
    else
      let split := (exponent + 1).toNat
      String.ofList (digits.toList.take split) ++ "." ++ String.ofList (digits.toList.drop split)
  else
    let first := String.ofList (digits.toList.take 1)
    let rest := String.ofList (digits.toList.drop 1)
    let body := if rest.isEmpty then first else first ++ "." ++ rest
    body ++ "e" ++ exponentText exponent

/-- The shortest text of a finite float; `none` for the others. -/
def text? (x : Float) : Option String :=
  (Binary64.parts? x).map fun (m, q) =>
    let (d, k) := decimal m.natAbs q
    let sign := if x.toBits >>> 63 == 1 then "-" else ""
    sign ++ (if d = 0 then "0.0" else decimalText d k)

end AssetCanvas.Shortest
