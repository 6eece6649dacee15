import AssetCanvas.Preview.Density.Scope
import AssetCanvas.Preview.Noise.Cellular
import AssetCanvas.Preview.Noise.Fractal
import AssetCanvas.Preview.Noise.Seed
import AssetCanvas.Preview.Noise.Simplex

/-!
# Noise as a density

The node types that compute a density from noise, in the horizontal plane or in space.
-/

namespace AssetCanvas.Density

/-- Where a noise is sampled. -/
inductive Domain where
  | plane
  | space

namespace Domain

/-- The number of coordinates. -/
def dimension : Domain → Nat
  | .plane => 2
  | .space => 3

/-- The place of a point. -/
def place : Domain → Point → Place
  | .plane, p => [p.x, p.z]
  | .space, p => [p.x, p.y, p.z]

end Domain

/-- The number of octaves in a field. -/
def octavesOf (s : Scope) (default : Float) : Except Fault Nat := do
  return Fractal.octavesOf (← (Json.float (← s.number "Octaves" default)).toInt)

/-- The octaves of a node. -/
def fractalOf (s : Scope) (octaves : Float) : Except Fault Fractal := do
  let frequency ← s.number "Frequency" 0.01
  let octaves ← octavesOf s octaves
  let lacunarity ← s.number "Lacunarity" 2.0
  let gain ← s.number "Gain" 0.5
  return { octaves, frequency := .float frequency, lacunarity := .float lacunarity,
           gain := .float gain }

/-- The seed of the noise of a node. -/
def noiseSeed (s : Scope) : Except Fault Int := do
  NoiseSeed.ofField (← s.field "Seed") s.seed

/-- The simplex noise of a node. -/
def simplex (s : Scope) (domain : Domain) : Except Fault Sampler := do
  return Simplex.sampler (← noiseSeed s) domain.dimension

/-- Values times the amplitude in a field. -/
def amplified (s : Scope) (values : List Float) : Except Fault (List Float) := do
  let amplitude ← s.number "Amplitude" 1.0
  return values.map (· * amplitude)

/-- Simplex noise. -/
def simplexNoise (domain : Domain) : Handler := fun s points => do
  let f ← fractalOf s 1.0
  amplified s (← f.sum (← simplex s domain) (points.map domain.place))

/-- Simplex noise with ridges. -/
def ridgeNoise (domain : Domain) : Handler := fun s points => do
  let f ← fractalOf s 1.0
  let f : Fractal := { octaves := f.octaves, frequency := f.frequency }
  amplified s (← f.ridged (← simplex s domain) (points.map domain.place))

/-- Several octaves of simplex noise. -/
def fractalNoise (domain : Domain) : Handler := fun s points => do
  let f ← fractalOf s 4.0
  f.sum (← simplex s domain) (points.map domain.place)

/-- What is measured by a cellular noise: a name that a field spells. -/
def measureOf (s : Scope) : Except Fault Cellular.Measure := do
  let name ← s.field "CellType"
  return .ofName (← (if name.truthy then name else .str "Euclidean").spelled)

/-- Cellular noise, as it is, mapped along a curve, or as a factor of another density. -/
def cellularNoise (domain : Domain) : Handler := fun s points => do
  let f ← fractalOf s 1.0
  let noise := Cellular.sampler (← noiseSeed s) (← measureOf s) (← s.number "Jitter" 1.0)
  let values ← f.sum noise (points.map domain.place)
  match ← s.field "ReturnType" with
  | .str "Curve" => s.alongCurve "ReturnCurve" values
  | .str "Density" => return (← s.input "ReturnDensity" points).zipWith (· * ·) values
  | _ => return values

/-- The types of this module. -/
def noises : List (String × Handler) :=
  [("SimplexNoise2D", simplexNoise .plane), ("SimplexNoise3D", simplexNoise .space),
    ("SimplexRidgeNoise2D", ridgeNoise .plane), ("SimplexRidgeNoise3D", ridgeNoise .space),
    ("FractalNoise2D", fractalNoise .plane), ("FractalNoise3D", fractalNoise .space),
    ("VoronoiNoise2D", cellularNoise .plane), ("VoronoiNoise3D", cellularNoise .space)]

end AssetCanvas.Density
