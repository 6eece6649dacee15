import AssetCanvas.Number.Summation
import AssetCanvas.Preview.Blend
import AssetCanvas.Preview.Density.Scope

/-!
# Arithmetic on densities

The node types that compute a density from constants and from the densities of their sources
at the same point.
-/

namespace AssetCanvas.Density

/-! ### Constants -/

/-- The density of a field. -/
def constantOf (key : String) : Handler := fun s points => do
  return constant (← s.number key 0.0) points

/-- A density that is no field. -/
def always (density : Float) : Handler := fun _ points => .ok (constant density points)

/-- The density of the source. -/
def forward : Handler := fun s points => s.input "Input" points

/-- The density of the source if there is one, else that of a field. -/
def imported : Handler := fun s points =>
  if s.has "Input" then forward s points else constantOf "Value" s points

/-! ### Functions of one density -/

/-- A function of the density of the source. -/
def unary (f : Float → Float) : Handler := fun s points => do
  return (← s.input "Input" points).map f

/-- The inverse of a number; zero for zero. -/
def inverse (v : Float) : Float := if v != 0.0 then 1.0 / v else 0.0

/-- The sign of a number: -1, 0 or 1, and no number for what is none. -/
def sign (v : Float) : Float :=
  if v > 0.0 then 1.0 else if v < 0.0 then -1.0 else if v == 0.0 then 0.0 else v

/-- The power of a number that is not negative. -/
def power (base exponent : Float) : Float :=
  if exponent == 2.0 then base * base
  else if exponent == -1.0 then 1.0 / base
  else if exponent == 0.5 then base.sqrt
  else base ^ exponent

/-- The power of the magnitude, with the sign of the density. -/
def signedPower : Handler := fun s points => do
  let values ← s.input "Input" points
  let exponent ← s.number "Exponent" 2.0
  return values.map fun v => power v.abs exponent * sign v

/-- The sum of a number of copies of a density, at least one. -/
def repeated : Handler := fun s points => do
  let values ← s.input "Input" points
  let count ← s.number "Count" 2.0
  let count := if count > 1.0 then count else 1.0
  return values.map (· * count)

/-- The remainder by a divisor; zero for the divisor zero. -/
def modulo : Handler := fun s points => do
  let divisor ← s.number "Divisor" 1.0
  if divisor != 0.0 then
    return (← s.input "Input" points).map (Binary64.remainder · divisor)
  else
    return constant 0.0 points

/-- The multiple of a density by a field. -/
def scaled : Handler := fun s points => do
  let values ← s.input "Input" points
  let factor ← s.number "Value" 1.0
  return values.map (· * factor)

/-- The multiple of a density, and an offset. -/
def linear : Handler := fun s points => do
  let values ← s.input "Input" points
  let scale ← s.number "Scale" 1.0
  let offset ← s.number "Offset" 0.0
  return values.map fun v => v * scale + offset

/-- A function of the density, moved into the interval of two fields. -/
def clamped (low high : Float) (f : Float → Float) : Handler := fun s points => do
  let low ← s.number "Min" low
  let high ← s.number "Max" high
  return (← s.input "Input" points).map fun v => Blend.clamp low high (f v)

/-- The ends of the interval in a field. -/
def interval (v : Json) (low high : Float) : Except Fault (Float × Float) := do
  let fields := match v with
    | .obj fields => fields
    | _ => []
  let low ← (Json.field fields "Min").coerce low
  let high ← (Json.field fields "Max").coerce high
  return (low, high)

/-- The density taken from one interval to another; the low end of the other one if the first
has no length. -/
def normalized : Handler := fun s points => do
  let values ← s.input "Input" points
  let (low, high) ← interval (← s.field "SourceRange") (-1.0) 1.0
  let (low', high') ← interval (← s.field "TargetRange") 0.0 1.0
  let span := high - low
  return values.map fun v =>
    if span == 0.0 then low' else low' + (v - low) / span * (high' - low')

/-- The density mapped along the curve of a port. -/
def curved : Handler := fun s points => do
  s.alongCurve "Curve" (← s.input "Input" points)

/-- The density mapped along the curve of a field. -/
def splined : Handler := fun s points => do
  match ← Curve.ofJson? (← s.field "Points") with
  | some c => return c.values (← s.input "Input" points)
  | none => s.input "Input" points

/-! ### Functions of several densities -/

/-- The combination of the densities of two ports. -/
def binary (f : Float → Float → Float) (port port' : String) : Handler := fun s points => do
  let values ← s.input port points
  let others ← s.input port' points
  return values.zipWith f others

/-- The values that are a part of the way from the first ones to the second ones. -/
def mixed (starts ends parts : List Float) : List Float :=
  (starts.zip ends).zipWith (fun p part => p.1 + (p.2 - p.1) * part) parts

/-- The mixture of two densities by a third one. -/
def interpolated : Handler := fun s points => do
  let starts ← s.input "InputA" points
  let ends ← s.input "InputB" points
  return mixed starts ends (← s.input "Factor" points)

/-- The mixture of two densities by a third one; their mean without one. -/
def blended : Handler := fun s points => do
  let starts ← s.input "InputA" points
  let ends ← s.input "InputB" points
  let parts ← if s.has "Factor" then s.input "Factor" points else .ok (constant 0.5 points)
  return mixed starts ends parts

/-- The density of one port where a condition reaches a threshold, else that of another. -/
def chosen (default : Float) : Handler := fun s points => do
  let condition ← s.input "Condition" points
  let threshold ← s.number "Threshold" default
  let yes ← s.input "TrueInput" points
  let no ← s.input "FalseInput" points
  return condition.zipWith (fun c p => if c ≥ threshold then p.1 else p.2) (yes.zip no)

/-- The density of the indexed port that a field selects. -/
def selected : Handler := fun s points => do
  let index ← Number.floor (← s.number "Selector" 0.0)
  s.input (Port.slot "Inputs" index.toNat) points

/-- The combination of the densities of all indexed ports from a starting value on. -/
def folded (f : Float → Float → Float) (start : Float) : Handler := fun s points => do
  return (← s.indexedInputs points).foldl (List.zipWith f) (constant start points)

/-- The combination of some lists of densities; zeros if there are none. -/
def combined (f : Float → Float → Float) (points : List Point) :
    List (List Float) → List Float
  | [] => constant 0.0 points
  | values :: rest => rest.foldl (List.zipWith f) values

/-- The combination of the densities of all indexed ports; zeros without any. -/
def reduced (f : Float → Float → Float) : Handler := fun s points => do
  return combined f points (← s.indexedInputs points)

/-- The sums of some lists of densities.  At a single point their values are a row of numbers, at
several points the lists are added one after the other. -/
def totals : List Point → List (List Float) → List Float
  | [_], inputs => [Summation.row 0.0 inputs.flatten]
  | points, inputs => inputs.foldl (List.zipWith (· + ·)) (constant 0.0 points)

/-- The mean of the densities of all indexed ports; zeros without any. -/
def averaged : Handler := fun s points => do
  let inputs ← s.indexedInputs points
  if inputs.isEmpty then
    return constant 0.0 points
  else
    return (totals points inputs).map (· / Float.ofNat inputs.length)

/-- The weight of an index: one beyond the list. -/
def weightAt (weights : List Json) (i : Nat) : Except Fault Float :=
  match weights[i]? with
  | some w => w.coerce 1.0
  | none => .ok 1.0

/-- The densities of an indexed port, times its weight. -/
def weighted (s : Scope) (weights : List Json) (points : List Point) (port : String × Nat) :
    Except Fault (List Float) := do
  let values ← s.input port.1 points
  let w ← weightAt weights port.2
  return values.map (· * w)

/-- The weighted sum of the densities of all indexed ports. -/
def weightedSum : Handler := fun s points => do
  let weights := match ← s.field "Weights" with
    | .arr items => items
    | _ => []
  let terms ← s.indexedPorts.zipIdx.mapM (weighted s weights points)
  return terms.foldl (List.zipWith (· + ·)) (constant 0.0 points)

/-! ### Smooth functions -/

/-- The smooth combination of the densities of all indexed ports. -/
def smoothReduced (f : Float → Float → Float → Float) : Handler := fun s points => do
  let width ← s.number "Smoothness" 0.1
  return combined (fun a b => f a b width) points (← s.indexedInputs points)

/-- The density, moved smoothly into the interval of two fields. -/
def smoothClamped : Handler := fun s points => do
  let width ← s.number "Smoothness" 0.1
  let values ← s.input "Input" points
  let low ← s.number "Min" 0.0
  let high ← s.number "Max" 1.0
  return values.map fun v => Blend.smoothMax (Blend.smoothMin v high width) low width

/-- The smooth combination of the density with the threshold of a field. -/
def smoothBounded (f : Float → Float → Float → Float) (default : Float) : Handler :=
  fun s points => do
    let width ← s.number "Smoothness" 0.1
    let values ← s.input "Input" points
    let threshold ← s.number "Threshold" default
    return values.map fun v => f v threshold width

/-- The types of this module. -/
def arithmetic : List (String × Handler) :=
  [("Negate", unary fun v => -v), ("Abs", unary Float.abs),
    ("SquareRoot", unary fun v => v.abs.sqrt), ("CubeRoot", unary Float.cbrt),
    ("Square", unary fun v => v * v), ("CubeMath", unary fun v => v * v * v),
    ("Inverse", unary inverse), ("Floor", unary Float.floor), ("Ceiling", unary Float.ceil),
    ("CacheOnce", forward), ("FlatCache", forward), ("Cache2D", forward), ("Wrap", forward),
    ("Passthrough", forward), ("Debug", forward), ("Exported", forward),
    ("SmoothClamp", smoothClamped), ("SmoothFloor", smoothBounded Blend.smoothMax 0.0),
    ("SmoothCeiling", smoothBounded Blend.smoothMin 1.0),
    ("SmoothMin", smoothReduced Blend.smoothMin), ("SmoothMax", smoothReduced Blend.smoothMax),
    ("Constant", constantOf "Value"), ("Zero", always 0.0), ("One", always 1.0),
    ("ImportedValue", imported), ("Sum", folded (· + ·) 0.0), ("SumSelf", repeated),
    ("WeightedSum", weightedSum), ("Product", folded (· * ·) 1.0), ("Modulo", modulo),
    ("AmplitudeConstant", scaled), ("Pow", signedPower),
    ("Amplitude", binary (· * ·) "Input" "Amplitude"),
    ("Offset", binary (· + ·) "Input" "Offset"), ("Clamp", clamped 0.0 1.0 id),
    ("ClampToIndex", clamped 0.0 255.0 Float.floor), ("Normalizer", normalized),
    ("LinearTransform", linear), ("RangeChoice", chosen 0.5), ("Interpolate", interpolated),
    ("Conditional", chosen 0.0), ("MinFunction", reduced Blend.least),
    ("MaxFunction", reduced Blend.greatest), ("AverageFunction", averaged), ("Blend", blended),
    ("Switch", selected), ("CurveFunction", curved), ("SplineFunction", splined)]

end AssetCanvas.Density
