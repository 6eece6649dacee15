import AssetCanvas.Number.Binary64
import AssetCanvas.Text.Blank
import AssetCanvas.Text.Digit

/-!
# Numerals

A numeral is a text that stands for a number: an optional sign, decimal digits of any
script with a point and an exponent, or one of the words for infinity and for no number,
with white space around it.  A low line may stand between two digits.  `Numeral.toFloat?`
reads a numeral as a float, `Numeral.toInt?` one without point and exponent as an integer.
Integers of more digits than `Numeral.maxIntDigits` are neither read nor written.
-/

namespace AssetCanvas.Numeral

/-- The float nearest to `d * 10 ^ k`.  Exponents that are far out of range are decided by
the number of digits. -/
def decimal (d : Nat) (k : Int) : Float :=
  if d = 0 then
    0.0
  else
    let exponent := k + (toString d).length
    if 400 < exponent then Binary64.infinity
    else if exponent < -400 then 0.0
    else Float.ofScientific d (k < 0) k.natAbs

/-- A sign and the rest of a text. -/
def splitSign : List Char → Bool × List Char
  | '-' :: rest => (true, rest)
  | '+' :: rest => (false, rest)
  | rest => (false, rest)

/-- Digits of any script as the digits of ASCII. -/
def plainDigit (c : Char) : Char :=
  match Digit.value? c with
  | some d => Char.ofNat (0x30 + d)
  | none => c

/-- The text without the low lines between two digits; `none` if there is another one. -/
def dropLowLines (afterDigit : Bool) : List Char → Option (List Char)
  | [] => some []
  | '_' :: c :: rest =>
    if afterDigit && c.isDigit then (dropLowLines true rest).map (c :: ·) else none
  | c :: rest =>
    if c = '_' then none else (dropLowLines c.isDigit rest).map (c :: ·)

/-- The exponent of a numeral, from its mark on. -/
def exponent? : List Char → Option Int
  | [] => some 0
  | c :: rest =>
    if c = 'e' || c = 'E' then
      let (negative, digits) := splitSign rest
      (Digit.number? digits).map fun n => if negative then -(n : Int) else n
    else
      none

/-- An unsigned decimal numeral. -/
def unsigned? (cs : List Char) : Option Float :=
  let whole := cs.takeWhile Char.isDigit
  let (fraction, rest) :=
    match cs.dropWhile Char.isDigit with
    | '.' :: more => (more.takeWhile Char.isDigit, more.dropWhile Char.isDigit)
    | more => ([], more)
  if whole.isEmpty && fraction.isEmpty then
    none
  else
    (exponent? rest).map fun k => decimal (Digit.toNat (whole ++ fraction)) (k - fraction.length)

/-- The words for infinity and for no number. -/
def word? (cs : List Char) : Option Float :=
  let word := String.ofList (cs.map Char.toLower)
  if word = "inf" || word = "infinity" then some Binary64.infinity
  else if word = "nan" then some Binary64.notANumber
  else none

/-- The float a numeral stands for. -/
def toFloat? (text : String) : Option Float := do
  let cs ← dropLowLines false (Blank.trim (text.toList.map plainDigit))
  let (negative, body) := splitSign cs
  let x ← (word? body).or (unsigned? body)
  return if negative then -x else x

/-- The most digits of an integer numeral, whether it is read or written. -/
def maxIntDigits : Nat := 4300

/-- Whether an integer can be written as a numeral: it has no more than the most digits. -/
def isWritable (n : Int) : Bool := n.natAbs < Nat.pow 10 maxIntDigits

/-- The number that digits stand for; none beyond the most digits. -/
def natural? (digits : List Char) : Option Nat :=
  if digits.length ≤ maxIntDigits then Digit.number? digits else none

/-- The integer a numeral without point and exponent stands for. -/
def toInt? (text : String) : Option Int := do
  let cs ← dropLowLines false (Blank.trim (text.toList.map plainDigit))
  let (negative, body) := splitSign cs
  let n ← natural? body
  return if negative then -(n : Int) else n

end AssetCanvas.Numeral
