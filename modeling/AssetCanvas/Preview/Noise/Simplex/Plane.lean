import AssetCanvas.Json.Number
import AssetCanvas.Preview.Noise.Simplex.Shuffle

/-!
# Simplex noise in the plane

`Simplex.plane` is the noise at a point of the plane.  The plane is stretched so that its
triangles become halves of the cells of the integer lattice.  Every vertex has a gradient,
and the noise is the sum of what four vertices contribute: those of the triangle around the
point and one more that is near.
-/

namespace AssetCanvas.Simplex

/-- The factor that takes a point of the plane to the lattice. -/
def stretch2 : Float := -0.211324865405187

/-- The factor that takes a lattice point back to the plane. -/
def squish2 : Float := 0.366025403784439

/-- The divisor that brings the sum of the contributions to about one. -/
def norm2 : Float := 47.0

/-- The gradients: about the directions to the corners of an octagon. -/
def gradients2 : Array (Float × Float) :=
  #[(5, 2), (2, 5), (-5, 2), (-2, 5), (5, -2), (2, -5), (-5, -2), (-2, -5)]

/-- A cell of the lattice, and the way from its origin to a point. -/
structure Cell2 where
  i : Int
  j : Int
  dx : Float
  dy : Float

/-- A vertex, relative to the origin of a cell. -/
abbrev Vertex2 := Int × Int

/-- The gradient of a lattice point along a displacement. -/
def slope2 (s : Shuffle) (i j : Int) (dx dy : Float) : Float :=
  let (gx, gy) := gradients2.getD (s.entry2 i j / 2 % 8) (0, 0)
  gx * dx + gy * dy

/-- A sum with the contribution of a vertex, which fades out with the distance. -/
def addVertex2 (s : Shuffle) (cell : Cell2) (total : Float) (v : Vertex2) : Float :=
  let shift := Float.ofInt (v.1 + v.2) * squish2
  let dx := cell.dx - Float.ofInt v.1 - shift
  let dy := cell.dy - Float.ofInt v.2 - shift
  let near := 2.0 - dx * dx - dy * dy
  if near > 0.0 then
    let near := near * near
    total + near * near * slope2 s (cell.i + v.1) (cell.j + v.2) dx dy
  else
    total

/-- The vertices that contribute to a point at `(u, v)` of its cell. -/
def vertices2 (u v : Float) : List Vertex2 :=
  let sum := u + v
  if sum ≤ 1.0 then
    let rest := 1.0 - sum
    let extra :=
      if rest > u || rest > v then (if u > v then (1, -1) else (-1, 1)) else (1, 1)
    [(1, 0), (0, 1), (0, 0), extra]
  else
    let rest := 2.0 - sum
    let extra :=
      if rest < u || rest < v then (if u > v then (2, 0) else (0, 2)) else (0, 0)
    [(1, 0), (0, 1), (1, 1), extra]

/-- The noise at a point of the plane; a fault where a coordinate is not finite. -/
def plane (s : Shuffle) (x y : Float) : Except Fault Float := do
  let stretch := (x + y) * stretch2
  let i ← Number.floor (x + stretch)
  let j ← Number.floor (y + stretch)
  let squish := Float.ofInt (i + j) * squish2
  let cell : Cell2 := ⟨i, j, x - (Float.ofInt i + squish), y - (Float.ofInt j + squish)⟩
  let vertices := vertices2 (x + stretch - Float.ofInt i) (y + stretch - Float.ofInt j)
  return vertices.foldl (addVertex2 s cell) 0.0 / norm2

end AssetCanvas.Simplex
