import AssetCanvas.Json.Number
import AssetCanvas.Preview.Noise.Simplex.Shuffle

/-!
# Simplex noise in space

`Simplex.space` is the noise at a point of space.  Space is stretched so that the cells of
the integer lattice consist of a tetrahedron at the origin, one at the opposite corner, and
an octahedron between them.  `Simplex.vertices3` lists the vertices that contribute to a
point: those of its tetrahedron or octahedron, and two more that are near.
-/

namespace AssetCanvas.Simplex

/-- The factor that takes a point of space to the lattice. -/
def stretch3 : Float := -1.0 / 6.0

/-- The factor that takes a lattice point back to space. -/
def squish3 : Float := 1.0 / 3.0

/-- The divisor that brings the sum of the contributions to about one. -/
def norm3 : Float := 103.0

/-- The gradients: about the directions to the corners of a rhombicuboctahedron. -/
def gradients3 : Array (Float × Float × Float) :=
  #[(-11, 4, 4), (-4, 11, 4), (-4, 4, 11), (11, 4, 4), (4, 11, 4), (4, 4, 11),
    (-11, -4, 4), (-4, -11, 4), (-4, -4, 11), (11, -4, 4), (4, -11, 4), (4, -4, 11),
    (-11, 4, -4), (-4, 11, -4), (-4, 4, -11), (11, 4, -4), (4, 11, -4), (4, 4, -11),
    (-11, -4, -4), (-4, -11, -4), (-4, -4, -11), (11, -4, -4), (4, -11, -4), (4, -4, -11)]

/-! ### Vertices -/

/-- A step between lattice points. -/
structure Step where
  x : Int
  y : Int
  z : Int

/-- The sum of the components. -/
def Step.sum (s : Step) : Int := s.x + s.y + s.z

/-- The step of no length. -/
def Step.zero : Step := ⟨0, 0, 0⟩

/-- A vertex, relative to the origin of a cell, as two steps.  The displacement of a point
is taken by the first step before the point is moved back to space and by the second one
after, which decides how it is rounded. -/
structure Vertex3 where
  early : Step
  late : Step := .zero

/-- An axis of space. -/
inductive Axis where
  | x
  | y
  | z

/-- The axis that is neither of two different ones. -/
def Axis.third : Axis → Axis → Axis
  | .x, .y => .z
  | .y, .x => .z
  | .x, _ => .y
  | .z, .x => .y
  | _, _ => .x

/-- The step with one component along an axis and another one along the others. -/
def Axis.step (a : Axis) (along other : Int) : Step :=
  match a with
  | .x => ⟨along, other, other⟩
  | .y => ⟨other, along, other⟩
  | .z => ⟨other, other, along⟩

/-- The axes other than a given one, in order. -/
def Axis.others : Axis → Axis × Axis
  | .x => (.y, .z)
  | .y => (.x, .z)
  | .z => (.x, .y)

/-- The sum of two steps. -/
def Step.add (s t : Step) : Step := ⟨s.x + t.x, s.y + t.y, s.z + t.z⟩

/-- The vertices of the tetrahedron at the origin. -/
def lowTetrahedron : List Vertex3 :=
  [⟨⟨0, 0, 0⟩, .zero⟩, ⟨⟨1, 0, 0⟩, .zero⟩, ⟨⟨0, 1, 0⟩, .zero⟩, ⟨⟨0, 0, 1⟩, .zero⟩]

/-- The vertices of the tetrahedron at the corner opposite to the origin. -/
def highTetrahedron : List Vertex3 :=
  [⟨⟨1, 1, 0⟩, .zero⟩, ⟨⟨1, 0, 1⟩, .zero⟩, ⟨⟨0, 1, 1⟩, .zero⟩, ⟨⟨1, 1, 1⟩, .zero⟩]

/-- The vertices of the octahedron. -/
def octahedron : List Vertex3 :=
  [⟨⟨1, 0, 0⟩, .zero⟩, ⟨⟨0, 1, 0⟩, .zero⟩, ⟨⟨0, 0, 1⟩, .zero⟩, ⟨⟨1, 1, 0⟩, .zero⟩,
    ⟨⟨1, 0, 1⟩, .zero⟩, ⟨⟨0, 1, 1⟩, .zero⟩]

/-! ### The tetrahedron at the origin -/

/-- The two further vertices near a point beside the origin and the vertex on an axis: one
step back along each of the other axes. -/
def lowPair (a : Axis) : List Vertex3 :=
  let base := a.step 1 0
  [⟨base.add (a.others.1.step (-1) 0), .zero⟩, ⟨base.add (a.others.2.step (-1) 0), .zero⟩]

/-- The further vertices near a point of the tetrahedron at the origin. -/
def lowExtra (u v w : Float) : List Vertex3 :=
  let (a, scoreA, b, scoreB) : Axis × Float × Axis × Float :=
    if u ≥ v && w > v then (.x, u, .z, w)
    else if u < v && w > u then (.z, w, .y, v)
    else (.x, u, .y, v)
  let origin := 1.0 - (u + v + w)
  if origin > scoreA || origin > scoreB then
    lowPair (if scoreB > scoreA then b else a)
  else
    let missing := a.third b
    [⟨missing.step 0 1, .zero⟩, ⟨missing.step (-1) 1, .zero⟩]

/-! ### The opposite tetrahedron -/

/-- The vertex one step along an axis from another one. -/
def raised (base : Step) : Axis → Vertex3
  | .y => ⟨base, Axis.y.step 1 0⟩
  | a => ⟨base.add (a.step 1 0), .zero⟩

/-- The two further vertices near a point beside the opposite corner and the vertex of the
face without an axis: one step along each of the other axes. -/
def highPair (missing : Axis) : List Vertex3 :=
  let base := missing.step 0 1
  [raised base missing.others.1, raised base missing.others.2]

/-- The further vertices near a point of the opposite tetrahedron. -/
def highExtra (u v w : Float) : List Vertex3 :=
  let (a, scoreA, b, scoreB) : Axis × Float × Axis × Float :=
    if u ≤ v && w < v then (.x, u, .z, w)
    else if u > v && w < u then (.z, w, .y, v)
    else (.x, u, .y, v)
  let corner := 3.0 - (u + v + w)
  if corner < scoreA || corner < scoreB then
    highPair (if scoreB < scoreA then b else a)
  else
    let shared := a.third b
    [⟨shared.step 1 0, .zero⟩, ⟨shared.step 2 0, .zero⟩]

/-! ### The octahedron -/

/-- A vertex of the octahedron: the one on an axis, or the far one of the face without it. -/
structure Candidate where
  far : Bool
  axis : Axis
  score : Float

/-- The nearer of the two vertices of an axis, given the sum of the other coordinates. -/
def Candidate.ofSum (axis : Axis) (sum : Float) : Candidate :=
  if sum > 1.0 then ⟨true, axis, sum - 1.0⟩ else ⟨false, axis, 1.0 - sum⟩

/-- The two nearest of three candidates; a third one only replaces the farther one. -/
def nearestPair (a b c : Candidate) : Candidate × Candidate :=
  if a.score ≤ b.score && a.score < c.score then (c, b)
  else if a.score > b.score && b.score < c.score then (a, c)
  else (a, b)

/-- The further vertices near a point of the octahedron. -/
def middleExtra (u v w : Float) : List Vertex3 :=
  let (a, b) := nearestPair (.ofSum .z (u + v)) (.ofSum .y (u + w)) (.ofSum .x (v + w))
  match a.far, b.far with
  | true, true => [⟨⟨1, 1, 1⟩, .zero⟩, ⟨(a.axis.third b.axis).step 2 0, .zero⟩]
  | false, false => [⟨.zero, .zero⟩, ⟨(a.axis.third b.axis).step (-1) 1, .zero⟩]
  | true, false => [⟨a.axis.step (-1) 1, .zero⟩, ⟨.zero, b.axis.step 2 0⟩]
  | false, true => [⟨b.axis.step (-1) 1, .zero⟩, ⟨.zero, a.axis.step 2 0⟩]

/-! ### The noise -/

/-- The vertices that contribute to a point at `(u, v, w)` of its cell. -/
def vertices3 (u v w : Float) : List Vertex3 :=
  let sum := u + v + w
  if sum ≤ 1.0 then lowTetrahedron ++ lowExtra u v w
  else if sum ≥ 2.0 then highTetrahedron ++ highExtra u v w
  else octahedron ++ middleExtra u v w

/-- A cell of the lattice, and the way from its origin to a point. -/
structure Cell3 where
  i : Int
  j : Int
  k : Int
  dx : Float
  dy : Float
  dz : Float

/-- The gradient of a lattice point along a displacement. -/
def slope3 (s : Shuffle) (i j k : Int) (dx dy dz : Float) : Float :=
  let (gx, gy, gz) := gradients3.getD (s.entry3 i j k % 24) (0, 0, 0)
  gx * dx + gy * dy + gz * dz

/-- A sum with the contribution of a vertex, which fades out with the distance. -/
def addVertex3 (s : Shuffle) (cell : Cell3) (total : Float) (v : Vertex3) : Float :=
  let (p, q) := (v.early, v.late)
  let shift := Float.ofInt (p.sum + q.sum) * squish3
  let dx := cell.dx - Float.ofInt p.x - shift - Float.ofInt q.x
  let dy := cell.dy - Float.ofInt p.y - shift - Float.ofInt q.y
  let dz := cell.dz - Float.ofInt p.z - shift - Float.ofInt q.z
  let near := 2.0 - dx * dx - dy * dy - dz * dz
  if near > 0.0 then
    let near := near * near
    let slope :=
      slope3 s (cell.i + p.x + q.x) (cell.j + p.y + q.y) (cell.k + p.z + q.z) dx dy dz
    total + near * near * slope
  else
    total

/-- The noise at a point of space; a fault where a coordinate is not finite. -/
def space (s : Shuffle) (x y z : Float) : Except Fault Float := do
  let stretch := (x + y + z) * stretch3
  let i ← Number.floor (x + stretch)
  let j ← Number.floor (y + stretch)
  let k ← Number.floor (z + stretch)
  let squish := Float.ofInt (i + j + k) * squish3
  let cell : Cell3 := ⟨i, j, k, x - (Float.ofInt i + squish), y - (Float.ofInt j + squish),
    z - (Float.ofInt k + squish)⟩
  let vertices := vertices3 (x + stretch - Float.ofInt i) (y + stretch - Float.ofInt j)
    (z + stretch - Float.ofInt k)
  return vertices.foldl (addVertex3 s cell) 0.0 / norm3

end AssetCanvas.Simplex
