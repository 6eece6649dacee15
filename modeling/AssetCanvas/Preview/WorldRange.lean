import AssetCanvas.Policy
import AssetCanvas.Json.Number

/-!
# World ranges

A `WorldRange` is a rectangle of the horizontal plane over which a preview is made.
-/

namespace AssetCanvas

/-- A rectangle of the horizontal plane. -/
structure WorldRange where
  minX : Float := 0.0
  maxX : Float := 128.0
  minZ : Float := 0.0
  maxZ : Float := 128.0

namespace WorldRange

/-- The older names of the fields. -/
def aliases : Fields :=
  [("minX", .str "min_x"), ("maxX", .str "max_x"), ("minZ", .str "min_z"),
    ("maxZ", .str "max_z")]

/-- The range with one field set; other fields are left out. -/
def setField (r : WorldRange) (key : Key) (v : Json) : Except Fault WorldRange :=
  if key == "min_x" then do return { r with minX := ← v.toFloat }
  else if key == "max_x" then do return { r with maxX := ← v.toFloat }
  else if key == "min_z" then do return { r with minZ := ← v.toFloat }
  else if key == "max_z" then do return { r with maxZ := ← v.toFloat }
  else .ok r

/-- The range of a value; missing fields keep their defaults. -/
def ofJson (v : Json) : Except Fault WorldRange := do
  (← aliasFields v aliases).foldlM (fun r f => r.setField f.1 f.2) {}

/-- Whether a point lies in the range or on its border. -/
def contains (r : WorldRange) (x z : Float) : Bool :=
  r.minX ≤ x && x ≤ r.maxX && r.minZ ≤ z && z ≤ r.maxZ

/-- Whether a number lies between two floats, by its exact value. -/
def between (low high : Float) (v : Json) : Except Fault Bool := do
  let a ← v.number
  return Number.le (.float low) a && a.le (.float high)

/-- Whether a pair of numbers is a point of the range or of its border.  The second number is
looked at only if the first one lies in the range. -/
def containsPair (r : WorldRange) (point : Json) : Except Fault Bool := do
  let (x, z) ← point.pair
  if ← between r.minX r.maxX x then between r.minZ r.maxZ z else return false

end WorldRange

end AssetCanvas
