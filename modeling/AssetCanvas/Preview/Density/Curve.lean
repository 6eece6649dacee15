import AssetCanvas.Json.Number
import AssetCanvas.Preview.Density.Bisection

/-!
# Curves

A `Curve` is drawn by hand through points.  `Curve.value` goes along straight lines from
point to point and keeps the value of the end points outside of them.  Where the place of a
point is no number, the points have no order, and `Curve.searched` looks for every value from
the place of the value before.
-/

namespace AssetCanvas

/-- A point of a curve: a value and what it is mapped to. -/
abbrev CurvePoint := Float × Float

/-- A curve through points in the order of their values, at least two. -/
structure Curve where
  first : CurvePoint
  second : CurvePoint
  others : List CurvePoint

namespace Curve

/-- The points of a list of values: objects with `x` and `y`, and arrays that begin with the
two.  Other values are left out. -/
def pointsOf : List Json → Except Fault (List CurvePoint)
  | [] => .ok []
  | .obj fields :: rest => do
    let x ← (Json.field fields "x").coerce 0.0
    let y ← (Json.field fields "y").coerce 0.0
    return (x, y) :: (← pointsOf rest)
  | .arr (a :: b :: _) :: rest => do
    let x ← a.coerce 0.0
    let y ← b.coerce 0.0
    return (x, y) :: (← pointsOf rest)
  | _ :: rest => pointsOf rest

/-- Whether the places of all points are numbers. -/
def isOrdered (points : List CurvePoint) : Bool := points.all fun p => !p.1.isNaN

/-- The points in the order of their places. -/
def order (points : List CurvePoint) : List CurvePoint :=
  if isOrdered points then points.mergeSort fun p q => p.1 ≤ q.1
  else Bisection.order (fun p q => p.1 < q.1) points

/-- The curve through some points; none if there are less than two. -/
def ofPoints? (points : List CurvePoint) : Option Curve :=
  match order points with
  | first :: second :: others => some ⟨first, second, others⟩
  | _ => none

/-- The curve of a value. -/
def ofJson? : Json → Except Fault (Option Curve)
  | .arr items => do return ofPoints? (← pointsOf items)
  | _ => .ok none

/-- The value at `v` on the line from `p` to `q`.  Where the line is too steep to be computed
from `p`, it is computed from `q`. -/
def between (p q : CurvePoint) (v : Float) : Float :=
  if p.1 == v then
    p.2
  else
    let slope := (q.2 - p.2) / (q.1 - p.1)
    let y := slope * (v - p.1) + p.2
    if y.isNaN then
      let y := slope * (v - q.1) + q.2
      if y.isNaN && p.2 == q.2 then p.2 else y
    else
      y

/-- The value at `v` on the lines from `p` through some points. -/
def along (p : CurvePoint) (v : Float) : List CurvePoint → Float
  | [] => p.2
  | q :: rest => if q.1 ≤ v then along q v rest else between p q v

/-- The last point. -/
def last (c : Curve) : CurvePoint := c.others.getLastD c.second

/-- The value of a curve whose points are in order. -/
def value (c : Curve) (v : Float) : Float :=
  if v.isNaN then v
  else if v > c.last.1 then c.last.2
  else if v < c.first.1 then c.first.2
  else along c.first v (c.second :: c.others)

/-! ### Curves without an order -/

/-- The points of a curve. -/
def points (c : Curve) : List CurvePoint := c.first :: c.second :: c.others

/-- The value at `v`, given the number of points that `v` reaches. -/
def valueFrom (points : Array CurvePoint) (v : Float) (reached : Nat) : Float :=
  let point (i : Nat) : CurvePoint := points.getD i (0.0, 0.0)
  if reached = 0 then (point 0).2
  else if points.size ≤ reached then (point (points.size - 1)).2
  else between (point (reached - 1)) (point reached) v

/-- The values and the number of points that the last one reached, with one more value. -/
def searchNext (points : Array CurvePoint) (places : Array Float) (state : Array Float × Nat)
    (v : Float) : Array Float × Nat :=
  if v.isNaN then
    (state.1.push v, state.2)
  else
    let reached := Bisection.locate places v state.2
    (state.1.push (valueFrom points v reached), reached)

/-- The values of a curve at some places, each searched from the one before. -/
def searched (c : Curve) (vs : List Float) : List Float :=
  let points := c.points.toArray
  (vs.foldl (searchNext points (points.map Prod.fst)) (#[], 0)).1.toList

/-- The values of a curve at some places. -/
def values (c : Curve) (vs : List Float) : List Float :=
  if isOrdered c.points then vs.map c.value else c.searched vs

end Curve

end AssetCanvas
