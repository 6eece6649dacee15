import AssetCanvas.Fault
import AssetCanvas.Json.Spelling
import AssetCanvas.Number.Numeral

/-!
# Ports

A port is the name of an input of a node: the name of a field, or a field with an index in
brackets for an item of an array.  `Port.slot` writes an indexed port and `Port.parse`
reads one.
-/

namespace AssetCanvas.Port

/-- The port of every output. -/
def output : String := "output"

/-- The port of an edge that names none. -/
def default : String := "Input"

/-- The port of the item at `index` of the array field `field`. -/
def slot (field : String) (index : Nat) : String := s!"{field}[{index}]"

/-- The port of an item of an array field, for a field and an index of any kind. -/
def slotOf (field index : Json) : String :=
  let field := field.spelling
  let index := index.spelling
  s!"{field}[{index}]"

/-- The parts of a text that ends with digits in brackets: what is before them in reverse,
and the digits.  The text is given in reverse. -/
def splitReversed : List Char → Option (List Char × List Char)
  | ']' :: rest =>
    match rest.dropWhile Digit.isDigit with
    | '[' :: field => some (field, (rest.takeWhile Digit.isDigit).reverse)
    | _ => none
  | _ => none

/-- The field and the digits of an indexed port: a field name without line feeds, and digits of
any script.  One line feed may follow the port. -/
def split? (port : String) : Option (String × List Char) := do
  let reversed := port.toList.reverse
  let body := if reversed.head? = some '\n' then reversed.drop 1 else reversed
  let (field, digits) ← splitReversed body
  if field.isEmpty || field.contains '\n' || digits.isEmpty then none
  else some (String.ofList field.reverse, digits)

/-- The field and the index of a port; no index for a port that is not indexed.  An index with
too many digits is a fault. -/
def parse (port : String) : Except Fault (String × Option Nat) :=
  match split? port with
  | none => .ok (port, none)
  | some (field, digits) =>
    match Numeral.natural? digits with
    | some index => .ok (field, some index)
    | none => .error .unusableValue

end AssetCanvas.Port
