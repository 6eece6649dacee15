import AssetCanvas.Json.Number

/-!
# Equality of JSON values

Two values are the same if they are equal up to the order of object keys and up to the
spelling of numbers: truth values count as one and zero, and numbers are compared exactly.
Objects agree if they have as many fields, and every field of one has a counterpart in the
other.  A NaN differs from every value, except that a NaN inside an array or an object
agrees with a NaN at the same place (`nested`).  `Json.equal` compares two values after the keys
of their objects have been sorted.
-/

namespace AssetCanvas.Json

/-- Whether two values without parts are the same. -/
def sameAtom (nested : Bool) : Json → Json → Bool
  | .null, .null => true
  | .str s, .str t => s = t
  | .float x, .float y => x == y || (nested && x.isNaN && y.isNaN)
  | v, w =>
    match v.number?, w.number? with
    | some a, some b => a.same b
    | _, _ => false

mutual

/-- Whether two values agree part by part. -/
def agrees (nested : Bool) : Json → Json → Bool
  | .arr items, .arr items' => itemsAgree items items'
  | .obj fields, .obj fields' => fields.length == fields'.length && fieldsAgree fields fields'
  | v, w => sameAtom nested v w

/-- Whether two lists of values agree item by item. -/
def itemsAgree : List Json → List Json → Bool
  | [], [] => true
  | v :: rest, w :: rest' => agrees true v w && itemsAgree rest rest'
  | _, _ => false

/-- Whether all fields of a list agree with fields of another one. -/
def fieldsAgree : List (Key × Json) → List (Key × Json) → Bool
  | [], _ => true
  | (k, v) :: rest, others =>
    (match Entries.find? others k with
      | some w => agrees true v w
      | none => false) && fieldsAgree rest others

end

/-- Whether two values are equal up to key order and the spelling of numbers. -/
def same (v w : Json) : Bool := agrees false v w

/-! ### Sorted keys -/

/-- Whether the key of a field comes before that of another one, or is the same text. -/
def keyLe (f g : Key × Json) : Bool := f.1.text?.getD "" ≤ g.1.text?.getD ""

mutual

/-- A value with the keys of its objects in order, at any depth. -/
def sorted : Json → Json
  | .arr items => .arr (sortedItems items)
  | .obj fields => .obj ((sortedFields fields).mergeSort keyLe)
  | v => v

/-- Items with sorted keys. -/
def sortedItems : List Json → List Json
  | [] => []
  | v :: rest => v.sorted :: sortedItems rest

/-- Fields whose values have sorted keys. -/
def sortedFields : List (Key × Json) → List (Key × Json)
  | [] => []
  | (k, v) :: rest => (k, v.sorted) :: sortedFields rest

end

/-- Whether two values are the same when their keys are sorted. -/
def equal (v w : Json) : Bool := v.sorted.same w.sorted

end AssetCanvas.Json
