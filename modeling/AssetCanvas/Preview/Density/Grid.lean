import AssetCanvas.Policy
import AssetCanvas.Preview.Density

/-!
# Grids and volumes of densities

`DensityGrid.ofGraph` samples the density of a graph on a horizontal square, row by row along
`z`, and `DensityVolume.ofGraph` on a stack of such squares.  The points of a volume are, level
by level, the points of a grid.
-/

namespace AssetCanvas

namespace Resolution

/-- The number of samples along a side: at least one, and the limit of the policy, as it was
written, if that is less.  A number that is cut down to the limit is reported with it. -/
def ofJson (v : Json) (policy : EvaluationPolicy) : Except Fault Json := do
  let n := max 1 (← v.toInt)
  let limit ← policy.maxGridResolution.number
  if Number.lt limit (.int n) then
    let _ ← (Json.int n).spelled
    let _ ← policy.maxGridResolution.spelled
    return policy.maxGridResolution
  else
    return .int n

/-- The number of whole steps that begin below a number. -/
def count : Number → Except Fault Nat
  | .int n => .ok n.toNat
  | .float x =>
    match Binary64.floor? (-x) with
    | some n => .ok (-n).toNat
    | none => .error .unusableValue

/-- The size of an array without values, which has to be an integer. -/
def size : Json → Except Fault Int
  | .int n => .ok n
  | _ => .error .wrongKind

/-- The shape of an array without values. -/
def emptyShape (sides : List Json) : Except Fault (List Nat) := do
  let sizes ← sides.mapM size
  if sizes.any (· < 0) then throw .unusableValue
  return sizes.map Int.toNat

/-- The coordinates of the samples along a side: evenly spaced from the low end on, and below
the high end. -/
def axis (n low high : Json) : Except Fault (List Float) := do
  let n ← n.number
  let low ← low.number
  let step ← Number.div (← Number.sub (← high.number) low) n
  let count ← count n
  let start ← low.toFloat
  return (List.range count).map fun i => start + Float.ofNat i * step

end Resolution

/-- Sampled densities. -/
structure DensitySamples where
  /-- The number of samples along every axis, the slowest one first. -/
  shape : List Nat
  /-- The densities in single precision. -/
  values : List Float
  /-- The least finite density. -/
  least : Float := 0.0
  /-- The greatest finite density. -/
  greatest : Float := 0.0
  /-- The node that was sampled. -/
  rootId : Option String := none

namespace DensitySamples

/-- The samples of a graph without a root. -/
def zeros (shape : List Nat) : DensitySamples :=
  { shape, values := List.replicate (shape.foldl (· * ·) 1) 0.0 }

/-- The least and the greatest finite number of a list; zeros if there is none. -/
def finiteRange (values : List Float) : Float × Float :=
  match values.filter Float.isFinite with
  | [] => (0.0, 0.0)
  | v :: rest =>
    rest.foldl (fun r x => (if x < r.1 then x else r.1, if r.2 < x then x else r.2)) (v, v)

/-- The samples with some densities. -/
def ofValues (shape : List Nat) (rootId : String) (values : List Float) : DensitySamples :=
  let (least, greatest) := finiteRange values
  { shape, values := values.map Binary64.single, least, greatest, rootId := some rootId }

/-- Whether the densities are above a threshold. -/
def solid (d : DensitySamples) (threshold : Number) : Except Fault (List Bool) := do
  let threshold := Binary64.single (← threshold.toFloat)
  return d.values.map fun v => threshold < v

end DensitySamples

namespace DensityGrid

/-- The points of a horizontal square: rows along `z`, and in a row along `x`. -/
def points (axis : List Float) (y : Float) : List Point :=
  axis.flatMap fun z => axis.map fun x => ⟨x, y, z⟩

/-- The densities of a graph on a horizontal square at a height. -/
def ofGraph (g : Graph) (resolution low high height : Json) (rootId : Json)
    (policy : EvaluationPolicy) (seed : Json) : Except Fault DensitySamples := do
  let n ← Resolution.ofJson resolution policy
  match ← Density.root g rootId with
  | none => return .zeros (← Resolution.emptyShape [n, n])
  | some root =>
    let axis ← Resolution.axis n low high
    let y ← height.toFloat
    let values ← Density.ofGraph g root.id seed (points axis y)
    return .ofValues [axis.length, axis.length] root.id values

end DensityGrid

/-- Sampled densities of a volume. -/
structure DensityVolume where
  /-- The heights of the levels. -/
  levels : List Float
  samples : DensitySamples

namespace DensityVolume

/-- The points of a volume, level by level. -/
def points (levels axis : List Float) : List Point :=
  levels.flatMap fun y => DensityGrid.points axis y

/-- The extent of a volume. -/
structure Extent where
  resolution : Json
  low : Json
  high : Json
  verticalResolution : Json
  bottom : Json
  top : Json

/-- The densities of a graph in a volume. -/
def ofGraph (g : Graph) (extent : Extent) (rootId : Json) (policy : EvaluationPolicy)
    (seed : Json) : Except Fault DensityVolume := do
  let n ← Resolution.ofJson extent.resolution policy
  let m ← Resolution.ofJson extent.verticalResolution policy
  let levels ← Resolution.axis m extent.bottom extent.top
  match ← Density.root g rootId with
  | none => return ⟨levels, .zeros (← Resolution.emptyShape [m, n, n])⟩
  | some root =>
    let axis ← Resolution.axis n extent.low extent.high
    let values ← Density.ofGraph g root.id seed (points levels axis)
    return ⟨levels, .ofValues [levels.length, axis.length, axis.length] root.id values⟩

end DensityVolume

end AssetCanvas
