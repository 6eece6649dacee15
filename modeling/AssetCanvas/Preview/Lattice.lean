import AssetCanvas.Preview.WorldRange
import AssetCanvas.Random.Generator

/-!
# Jittered lattices

`Lattice.positions` lists the points of a lattice over a range, row by row along `x` and
within a row along `z`.  A row starts at the least coordinate, goes on by the spacing, and
stops before the greatest.  With a jitter every point is moved on both axes by draws of a
generator; without one nothing is drawn.

A limit ends the walk where enough points are listed.  Rows without points never reach it, and
they do not end where a step along `x` is too small to move the coordinate: `Lattice.positions?`
has no value there.
-/

namespace AssetCanvas

/-- A position of the horizontal plane. -/
structure Position where
  x : Float
  z : Float
  weight : Float := 1.0

namespace Lattice

/-- A rectangle with the spacing of its lattice and the reach of the jitter. -/
structure Shape where
  range : WorldRange
  spacing : Float
  reach : Float

/-- A displacement drawn from a generator: at most the reach to both sides. -/
def displacement (reach : Float) (g : Generator) : Float × Generator :=
  if reach > 0.0 then
    let (u, g) := g.next
    ((u * 2.0 - 1.0) * reach, g)
  else
    (0.0, g)

/-- The point at `(x, z)` with its displacement. -/
def jittered (shape : Shape) (x z : Float) (g : Generator) : Position × Generator :=
  let (dx, g) := displacement shape.reach g
  let (dz, g) := displacement shape.reach g
  (⟨x + dx, z + dz, 1.0⟩, g)

/-- The points of the row at `x` from `z` on, at most as many as are missing. -/
def row (shape : Shape) (x : Float) : Nat → Float → Generator → List Position × Generator
  | 0, _, g => ([], g)
  | missing + 1, z, g =>
    if z < shape.range.maxZ then
      let (p, g) := jittered shape x z g
      let (rest, g) := row shape x missing (z + shape.spacing) g
      (p :: rest, g)
    else
      ([], g)

/-- The listed points and those of the rows from `x` on, at most as many of them as are missing;
none where the rows do not end. -/
def Shape.rows (shape : Shape) (listed : Array Position) (missing : Nat) (x : Float)
    (g : Generator) : Option (List Position × Generator) :=
  if x < shape.range.maxX then
    let (ps, g) := row shape x missing shape.range.minZ g
    let listed := listed ++ ps
    if missing ≤ ps.length then
      some (listed.toList, g)
    else
      shape |>.rows listed (missing - ps.length) (x + shape.spacing) g
  else
    some (listed.toList, g)
partial_fixpoint

/-- A count that no lattice reaches. -/
def unlimited : Nat := 0x4000000000000000

/-- The number of points at which a lattice ends: the least positive count that is not below
the limit. -/
def capOf : Number → Nat
  | .int n => max 1 n.toNat
  | .float x =>
    match Binary64.parts? x with
    | some (m, e) =>
      let whole := Binary64.shiftToInt m e
      max 1 (if Number.lt (.int whole) (.float x) then whole + 1 else whole).toNat
    | none => if x < 0 then 1 else unlimited

/-- The greater of a spacing and one. -/
def atLeastOne (spacing : Number) : Number :=
  if spacing.lt (.float 1.0) then .float 1.0 else spacing

/-- The reach of a jitter, which is a fraction of the spacing. -/
def reach (jitter spacing : Number) : Except Fault Float := do
  return (← (← jitter.mul spacing).toFloat) * 0.5

/-- The points of a range that is not empty along `x`.  The spacing is needed as a float only
where there is a step to take, and the limit only where there is a point. -/
def points? (range : WorldRange) (spacing : Number) (reach : Float) (limit : Json)
    (g : Generator) : Except Fault (Option (List Position × Generator)) := do
  if range.minZ < range.maxZ then
    let cap := capOf (← limit.number)
    let spacing ← if cap ≤ 1 then pure 0.0 else spacing.toFloat
    return Shape.rows ⟨range, spacing, reach⟩ #[] cap range.minX g
  else
    -- the rows have no points, whatever the limit
    return Shape.rows ⟨range, ← spacing.toFloat, reach⟩ #[] 1 range.minX g

/-- The points of a lattice with a spacing and a jitter; none where its rows do not end.  A
spacing that is not positive gives no points; a lesser spacing than one counts as one. -/
def positions? (range : WorldRange) (spacing jitter limit : Json) (g : Generator) :
    Except Fault (Option (List Position × Generator)) := do
  let spacing ← spacing.number
  if spacing.le (.int 0) then
    return some ([], g)
  else
    let spacing := atLeastOne spacing
    let reach ← reach (← jitter.number) spacing
    if range.minX < range.maxX then points? range spacing reach limit g else return some ([], g)

/-- The points of a lattice, which are none where its rows do not end: such rows are empty. -/
def positions (range : WorldRange) (spacing jitter limit : Json) (g : Generator) :
    Except Fault (List Position × Generator) := do
  return (← positions? range spacing jitter limit g).getD ([], g)

end Lattice

end AssetCanvas
