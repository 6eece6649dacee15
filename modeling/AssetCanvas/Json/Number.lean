import AssetCanvas.Json
import AssetCanvas.Fault
import AssetCanvas.Number.Numeral

/-!
# Numbers in JSON values

A `Number` is an integer of any size or a float.  `Json.number?` reads a number, with the
truth values as one and zero; `Json.toFloat` and `Json.toInt` convert a value to a float or
an integer and also read numerals, and `Json.coerce?` is the number of a loosely typed
field, none where the default of the field applies.
-/

namespace AssetCanvas

/-- An integer or a float. -/
inductive Number where
  | int (n : Int)
  | float (x : Float)

namespace Number

/-- The nearest float; a fault for an integer beyond the finite floats. -/
def toFloat : Number → Except Fault Float
  | .int n =>
    match Binary64.ofInt? n with
    | some x => .ok x
    | none => .error .outOfRange
  | .float x => .ok x

/-- The greatest integer that is not above a float; a fault if the float is not finite. -/
def floor (x : Float) : Except Fault Int :=
  match Binary64.floor? x with
  | some n => .ok n
  | none => .error (if x.isNaN then .unusableValue else .outOfRange)

/-- The order of two numbers by their exact values; none if one of them is a NaN. -/
def compare : Number → Number → Option Ordering
  | .int a, .int b => some (Ord.compare a b)
  | .int a, .float y => Binary64.compareInt a y
  | .float x, .int b => (Binary64.compareInt b x).map Ordering.swap
  | .float x, .float y =>
    if x < y then some .lt else if x == y then some .eq else if y < x then some .gt else none

/-- Whether `a < b`. -/
def lt (a b : Number) : Bool := compare a b == some .lt

/-- Whether `a ≤ b`. -/
def le (a b : Number) : Bool := compare a b == some .lt || compare a b == some .eq

/-- Whether two numbers have the same value. -/
def same (a b : Number) : Bool := compare a b == some .eq

/-- The product of two numbers, an integer if both are. -/
def mul : Number → Number → Except Fault Number
  | .int a, .int b => .ok (.int (a * b))
  | a, b => do return .float ((← a.toFloat) * (← b.toFloat))

/-- The float `x + a`. -/
def addTo (x : Float) (a : Number) : Except Fault Float := do return x + (← a.toFloat)

/-- The float `x - a`. -/
def subFrom (x : Float) (a : Number) : Except Fault Float := do return x - (← a.toFloat)

/-- The difference of two numbers, an integer if both are. -/
def sub : Number → Number → Except Fault Number
  | .int a, .int b => .ok (.int (a - b))
  | a, b => do return .float ((← a.toFloat) - (← b.toFloat))

/-- The float nearest to `m * 2 ^ e`. -/
def scaled (m : Nat) (e : Int) : Float :=
  if 0 ≤ e then Float.ofNat (m * Nat.pow 2 e.toNat)
  else Float.ofScientific (m * Nat.pow 5 (-e).toNat) true (-e).toNat

/-- The float nearest to the quotient of two integers, the even one of two.  Of the exact
quotient 55 bits are kept and one bit that tells whether something is left, which decides
every rounding to 53 bits as the exact quotient does. -/
def quotient (a b : Int) : Except Fault Float :=
  let shift : Int := (a.natAbs.log2 : Int) - b.natAbs.log2 - 55
  let n := a.natAbs * Nat.pow 2 (-shift).toNat
  let d := b.natAbs * Nat.pow 2 shift.toNat
  let x := scaled (2 * (n / d) + (if n % d = 0 then 0 else 1)) (shift - 1)
  if x.isFinite then .ok (if (a < 0) != (b < 0) then -x else x) else .error .outOfRange

/-- The quotient of two numbers as a float. -/
def div : Number → Number → Except Fault Float
  | _, .int 0 => .error .divisionByZero
  | .int a, .int b => quotient a b
  | a, b => do
    let x ← a.toFloat
    let y ← b.toFloat
    if y == 0.0 then .error .divisionByZero else .ok (x / y)

end Number

namespace Json

/-- The number of a numeric value; a truth value counts as one or zero. -/
def number? : Json → Option Number
  | .bool b => some (.int (if b then 1 else 0))
  | .int n => some (.int n)
  | .float x => some (.float x)
  | _ => none

/-- The number of a numeric value, a fault for the others. -/
def number (v : Json) : Except Fault Number :=
  match v.number? with
  | some a => .ok a
  | none => .error .wrongKind

/-- The integer of a value that counts something: an integer or a truth value. -/
def index (v : Json) : Except Fault Int := do
  match ← v.number with
  | .int n => return n
  | .float _ => throw .wrongKind

/-- A value as a float; a text is read as a numeral. -/
def toFloat : Json → Except Fault Float
  | .str s =>
    match Numeral.toFloat? s with
    | some x => .ok x
    | none => .error .unusableValue
  | v => do (← v.number).toFloat

/-- A value as an integer, rounding toward zero; a text is read as a numeral. -/
def toInt : Json → Except Fault Int
  | .str s =>
    match Numeral.toInt? s with
    | some n => .ok n
    | none => .error .unusableValue
  | .float x =>
    match Binary64.truncate? x with
    | some n => .ok n
    | none => .error (if x.isNaN then .unusableValue else .outOfRange)
  | .int n => .ok n
  | .bool b => .ok (if b then 1 else 0)
  | _ => .error .wrongKind

/-- The float of a loosely typed field; none for a missing value, a truth value and a value
that is no number, for which the default of the field is used.  An integer beyond the
finite floats is a fault. -/
def coerce? : Json → Except Fault (Option Float)
  | .int n =>
    match Binary64.ofInt? n with
    | some x => .ok (some x)
    | none => .error .outOfRange
  | .float x => .ok (some x)
  | .str s => .ok (Numeral.toFloat? s)
  | _ => .ok none

/-- The float of a loosely typed field with the default `d`. -/
def coerce (v : Json) (d : Float) : Except Fault Float := do return (← v.coerce?).getD d

/-- The float components of a vector-shaped field; missing ones are zero. -/
def coerceXYZ : Json → Except Fault (Float × Float × Float)
  | .obj fields => do
    let x ← (field fields "x").coerce 0.0
    let y ← (field fields "y").coerce 0.0
    let z ← (field fields "z").coerce 0.0
    return (x, y, z)
  | _ => .ok (0.0, 0.0, 0.0)

end Json

end AssetCanvas
