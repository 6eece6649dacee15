import AssetCanvas.Entries
import AssetCanvas.Number.Binary64

/-!
# JSON values

`Json` is a JSON value as assets and graphs carry it: integers of any size are kept apart
from floating-point numbers, and an object is a list of fields in the order in which they
were written.  The keys of JSON text are texts; where fields are given as pairs, any value
without parts can be a `Key`.  Keys are equal if they stand for the same value, so the keys
one and true are one key, which keeps its first spelling.  The readers of this project
build objects with distinct keys.
-/

namespace AssetCanvas

/-- The key of a field. -/
inductive Key where
  | text (s : String)
  | null
  | bool (b : Bool)
  | int (n : Int)
  | float (x : Float)
  deriving Inhabited

instance : Coe String Key := ⟨.text⟩

namespace Key

/-- What a key stands for: a text, nothing, an integer, or the bits of another float. -/
inductive Value where
  | text (s : String)
  | null
  | whole (n : Int)
  | other (bits : UInt64)
  deriving DecidableEq

/-- The value that a key stands for; truth values count as one and zero. -/
def value : Key → Value
  | .text s => .text s
  | .null => .null
  | .bool b => .whole (if b then 1 else 0)
  | .int n => .whole n
  | .float x =>
    match Binary64.whole? x with
    | some n => .whole n
    | none => .other x.toBits

instance : BEq Key := ⟨fun a b => a.value = b.value⟩

theorem beq_iff (a b : Key) : (a == b) = true ↔ a.value = b.value := decide_eq_true_iff

instance : EquivBEq Key where
  rfl := by simp [beq_iff]
  symm h := by
    rw [beq_iff] at *
    exact h.symm
  trans h h' := by
    rw [beq_iff] at *
    exact h.trans h'

@[simp] theorem text_beq_text (s t : String) : (Key.text s == Key.text t) = decide (s = t)
  := by
  rw [Bool.eq_iff_iff, beq_iff]
  simp [value]

/-- The text of a key that is a text. -/
def text? : Key → Option String
  | .text s => some s
  | _ => none

end Key

/-- A JSON value. -/
inductive Json where
  | null
  | bool (b : Bool)
  | int (n : Int)
  | float (x : Float)
  | str (s : String)
  | arr (items : List Json)
  | obj (fields : List (Key × Json))
  deriving Inhabited

/-- The fields of an object, in order. -/
abbrev Fields := List (Key × Json)

/-- A key as a value. -/
def Key.toJson : Key → Json
  | .text s => .str s
  | .null => .null
  | .bool b => .bool b
  | .int n => .int n
  | .float x => .float x

namespace Json

/-- The name of the kind of a value, as error messages spell it. -/
def kindName : Json → String
  | .null => "NoneType"
  | .bool _ => "bool"
  | .int _ => "int"
  | .float _ => "float"
  | .str _ => "str"
  | .arr _ => "list"
  | .obj _ => "dict"

/-- Whether a value is neither null, false, zero, nor empty. -/
def truthy : Json → Bool
  | .null => false
  | .bool b => b
  | .int n => n != 0
  | .float x => x != 0
  | .str s => s != ""
  | .arr items => !items.isEmpty
  | .obj fields => !fields.isEmpty

/-- The key that a value without parts stands for. -/
def key? : Json → Option Key
  | .null => some .null
  | .bool b => some (.bool b)
  | .int n => some (.int n)
  | .float x => some (.float x)
  | .str s => some (.text s)
  | .arr _ => none
  | .obj _ => none

/-- Whether a value is null. -/
def isNull : Json → Bool
  | .null => true
  | _ => false

/-- The field of an object under `key`; null for a missing field. -/
def field (fields : Fields) (key : String) : Json := (Entries.find? fields key).getD .null

/-- A text, or null where there is none. -/
def ofOption : Option String → Json
  | none => .null
  | some s => .str s

/-- The text of a string value. -/
def text? : Json → Option String
  | .str s => some s
  | _ => none

end Json

end AssetCanvas
