import AssetCanvas.Preview.Density.Scope

/-!
# Densities of the place

The node types that compute a density from the coordinates of a point.
-/

namespace AssetCanvas.Density

/-- A function of the point. -/
def placed (f : Point → Float) : Handler := fun _ points => .ok (points.map f)

/-- The length of a vector. -/
def length (x y z : Float) : Float := (x * x + y * y + z * z).sqrt

/-- The distance to the origin. -/
def originDistance (p : Point) : Float := length p.x p.y p.z

/-- The distance to an axis with a name; any other name stands for the vertical one. -/
def distanceTo (axis : String) (p : Point) : Float :=
  if axis = "X" then (p.y * p.y + p.z * p.z).sqrt
  else if axis = "Z" then (p.x * p.x + p.y * p.y).sqrt
  else (p.x * p.x + p.z * p.z).sqrt

/-- The distance to an axis: the vertical one, or the one that a field spells. -/
def axisDistance : Handler := fun s points => do
  let axis ← (← s.field "Axis").spelled
  return points.map (distanceTo axis)

/-- A function of the point and of the point in a field. -/
def fromPoint (f : Point → Point → Float) : Handler := fun s points => do
  let (x, y, z) ← (← s.field "Point").coerceXYZ
  return points.map (f ⟨x, y, z⟩)

/-- The distance of two points. -/
def distance (center p : Point) : Float := length (p.x - center.x) (p.y - center.y) (p.z - center.z)

/-- The horizontal direction from one point to another, as an angle. -/
def direction (center p : Point) : Float := Float.atan2 (p.z - center.z) (p.x - center.x)

/-- The distance to the origin, mapped along the curve of a port. -/
def curvedDistance : Handler := fun s points => s.alongCurve "Curve" (points.map originDistance)

/-- The types of this module. -/
def coordinates : List (String × Handler) :=
  [("CoordinateX", placed Point.x), ("CoordinateY", placed Point.y),
    ("CoordinateZ", placed Point.z), ("DistanceFromOrigin", placed originDistance),
    ("DistanceFromAxis", axisDistance), ("DistanceFromPoint", fromPoint distance),
    ("AngleFromOrigin", fromPoint fun _ p => Float.atan2 p.z p.x),
    ("AngleFromPoint", fromPoint direction), ("Distance", curvedDistance)]

end AssetCanvas.Density
