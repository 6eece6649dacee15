import AssetCanvas.Fault
import AssetCanvas.Json
import AssetCanvas.Number.Numeral
import AssetCanvas.Number.Shortest
import AssetCanvas.Text.Printable

/-!
# The spelling of a value in running text

`Json.spelling` is the text by which a value enters a node id, a seed or a message: a string
stands for itself, and inside an array or an object a string is quoted.  A quoted text uses
single quotes unless it holds a single quote and no double quote; the quote, the backslash
and the characters that are not printable are escaped.  A value with an integer of too many
digits has no spelling: `Json.spelled` is the spelling with a fault for such a value.
-/

namespace AssetCanvas

namespace Json

/-- A float in running text. -/
def floatSpelling (x : Float) : String :=
  match Shortest.text? x with
  | some s => s
  | none => if x.isNaN then "nan" else if x < 0 then "-inf" else "inf"

/-- The hexadecimal digits of a number, padded with zeros to a width. -/
def hex (width n : Nat) : String :=
  let digits := Nat.toDigits 16 n
  String.ofList (List.replicate (width - digits.length) '0' ++ digits)

/-- A character of a text in the given quotes. -/
def quotedChar (quote c : Char) : String :=
  if c = quote || c = '\\' then String.ofList ['\\', c]
  else if c = '\n' then "\\n"
  else if c = '\r' then "\\r"
  else if c = '\t' then "\\t"
  else if Printable.isPrintable c then c.toString
  else if c.toNat < 0x100 then "\\x" ++ hex 2 c.toNat
  else if c.toNat < 0x10000 then "\\u" ++ hex 4 c.toNat
  else "\\U" ++ hex 8 c.toNat

/-- A text in quotes. -/
def quoted (s : String) : String :=
  let cs := s.toList
  let quote := if cs.contains '\'' && !cs.contains '"' then '"' else '\''
  quote.toString ++ String.join (cs.map (quotedChar quote)) ++ quote.toString

/-- A truth value in running text. -/
def boolSpelling (b : Bool) : String := if b then "True" else "False"

/-- The spelling of a key inside an object. -/
def innerKey : Key → String
  | .text s => quoted s
  | .null => "None"
  | .bool b => boolSpelling b
  | .int n => toString n
  | .float x => floatSpelling x

mutual

/-- The spelling of a value inside an array or an object. -/
def inner : Json → String
  | .null => "None"
  | .bool b => boolSpelling b
  | .int n => toString n
  | .float x => floatSpelling x
  | .str s => quoted s
  | .arr items => "[" ++ ", ".intercalate (innerItems items) ++ "]"
  | .obj fields => "\x7b" ++ ", ".intercalate (innerFields fields) ++ "\x7d"

/-- The spellings of the items of an array. -/
def innerItems : List Json → List String
  | [] => []
  | v :: rest => inner v :: innerItems rest

/-- The spellings of the fields of an object. -/
def innerFields : List (Key × Json) → List String
  | [] => []
  | (k, v) :: rest => (innerKey k ++ ": " ++ inner v) :: innerFields rest

end

/-- The spelling of a value. -/
def spelling : Json → String
  | .str s => s
  | v => inner v

end Json

/-- The spelling of a key. -/
def Key.spelling (k : Key) : String := k.toJson.spelling

/-- Whether a key can be spelled. -/
def Key.isSpellable : Key → Bool
  | .int n => Numeral.isWritable n
  | _ => true

namespace Json

mutual

/-- Whether a value can be spelled: every integer in it can be written. -/
def isSpellable : Json → Bool
  | .int n => Numeral.isWritable n
  | .arr items => areSpellable items
  | .obj fields => haveSpelling fields
  | _ => true

/-- Whether the items of an array can be spelled. -/
def areSpellable : List Json → Bool
  | [] => true
  | v :: rest => isSpellable v && areSpellable rest

/-- Whether the fields of an object can be spelled. -/
def haveSpelling : List (Key × Json) → Bool
  | [] => true
  | (k, v) :: rest => k.isSpellable && isSpellable v && haveSpelling rest

end

/-- The spelling of a value, where it has one. -/
def spelled (v : Json) : Except Fault String :=
  if v.isSpellable then .ok v.spelling else .error .unusableValue

end Json

end AssetCanvas
