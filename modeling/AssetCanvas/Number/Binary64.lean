/-!
# Exact values of floating-point numbers

Every finite float is `m * 2 ^ e` for integers `m` and `e`; `Binary64.parts?` computes
them.  Truncation to an integer, comparison with an integer and the remainder of a
division are done on these integers, so none of them rounds, and `Binary64.single` rounds
once.  `Binary64.rank` is a key by which floats are sorted and told apart.
-/

namespace AssetCanvas.Binary64

/-- The float that stands for no number. -/
def notANumber : Float := 0.0 / 0.0

/-- Positive infinity. -/
def infinity : Float := 1.0 / 0.0

/-- Whether a finite `x` is negative, and the numbers `m` and `e` with `|x| = m * 2 ^ e`. -/
def decode? (x : Float) : Option (Bool × Nat × Int) :=
  let bits := x.toBits
  let exponent : Nat := (bits >>> 52).toNat % 0x800
  let fraction : Nat := (bits &&& 0xFFFFFFFFFFFFF).toNat
  let negative := bits >>> 63 == 1
  if exponent = 2047 then none
  else if exponent = 0 then some (negative, fraction, -1074)
  else some (negative, fraction + 0x10000000000000, (exponent : Int) - 1075)

/-- The integers `(m, e)` with `x = m * 2 ^ e`, for a finite `x`. -/
def parts? (x : Float) : Option (Int × Int) :=
  (decode? x).map fun (negative, m, e) => (if negative then -(m : Int) else m, e)

/-- The float nearest to an integer, the even one of two; none beyond the finite range. -/
def ofInt? (n : Int) : Option Float :=
  let x := Float.ofInt n
  if x.isFinite then some x else none

/-- The integer part of `m * 2 ^ e`, rounding toward zero. -/
def shiftToInt (m e : Int) : Int :=
  if 0 ≤ e then m * Nat.pow 2 e.toNat else m.tdiv (Nat.pow 2 (-e).toNat)

/-- The integer part of a finite float, rounding toward zero. -/
def truncate? (x : Float) : Option Int :=
  (parts? x).map fun (m, e) => shiftToInt m e

/-- The greatest integer that is not above a finite float. -/
def floor? (x : Float) : Option Int :=
  (decode? x).map fun (negative, m, e) =>
    if 0 ≤ e then
      if negative then -(m * Nat.pow 2 e.toNat : Int) else m * Nat.pow 2 e.toNat
    else
      let whole := m >>> (-e).toNat
      if negative then
        if whole <<< (-e).toNat = m then -(whole : Int) else -(whole : Int) - 1
      else
        whole

/-- The greatest whole float that is not above a float; what is not finite stays. -/
def wholeBelow (x : Float) : Float :=
  match floor? x with
  | some n => Float.ofInt n
  | none => x

/-- The least integer of 64 bits, which also stands for what is out of their range. -/
def leastInt64 : Int := -0x8000000000000000

/-- The integer part of a float in 64 bits. -/
def toInt64 (x : Float) : Int :=
  match truncate? x with
  | some n => if leastInt64 ≤ n ∧ n < -leastInt64 then n else leastInt64
  | none => leastInt64

/-- A key whose order is the order of the floats: the two zeros have one key, and what is
no number comes last. -/
def rank (x : Float) : UInt64 :=
  let bits := x.toBits
  if x.isNaN then 0xFFFFFFFFFFFFFFFF
  else if bits <<< 1 = 0 then 0x8000000000000000
  else if bits >>> 63 = 1 then ~~~bits
  else bits ||| 0x8000000000000000

/-- The order of an integer and a float by their exact values; none for a NaN. -/
def compareInt (n : Int) (x : Float) : Option Ordering :=
  match parts? x with
  | some (m, e) =>
    some (if 0 ≤ e then compare n (m * Nat.pow 2 e.toNat)
      else compare (n * Nat.pow 2 (-e).toNat) m)
  | none => if x.isNaN then none else some (if x < 0 then .gt else .lt)

/-- The integer whose value a float has; none for the others. -/
def whole? (x : Float) : Option Int :=
  match truncate? x with
  | some n => if compareInt n x == some .eq then some n else none
  | none => none

/-- The remainder of `x` by `y` with the sign of `x`, exactly; not a number where the
quotient is none. -/
def remainder (x y : Float) : Float :=
  match parts? x, parts? y with
  | some (mx, ex), some (my, ey) =>
    if my = 0 then
      notANumber
    else
      let e := min ex ey
      let a := mx.natAbs * Nat.pow 2 (ex - e).toNat
      let b := my.natAbs * Nat.pow 2 (ey - e).toNat
      let r := (Float.ofNat (a % b)).scaleB e
      if x < 0 || 1.0 / x < 0 then -r else r
  | some _, none => if y.isNaN then notANumber else x
  | none, _ => notANumber

/-- The quotient of `m` by `2 ^ places`, rounded to the nearest integer, the even one of two. -/
def roundedShift (m places : Nat) : Nat :=
  let quotient := m >>> places
  let twice := 2 * (m % Nat.pow 2 places)
  if twice < Nat.pow 2 places then quotient
  else if twice = Nat.pow 2 places then quotient + quotient % 2
  else quotient + 1

/-- The power of two with an exponent of the normal range. -/
def powerOfTwo (e : Int) : Float := Float.ofBits ((e + 1023).toNat.toUInt64 <<< 52)

/-- The nearest float of single precision, the even one of two, widened again. -/
def single (x : Float) : Float :=
  match decode? x with
  | some (negative, m, e) =>
    -- the exponent of the last place: 24 binary digits are left of 53, and none below `-149`
    let last := max (e + 29) (-149)
    let y := Float.ofNat (roundedShift m (last - e).toNat) * powerOfTwo last
    let y := if y < powerOfTwo 128 then y else infinity
    if negative then -y else y
  | none => x

end AssetCanvas.Binary64
