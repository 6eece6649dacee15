import AssetCanvas.Preview.Density.Arithmetic
import AssetCanvas.Preview.Density.Noise

/-!
# Warped densities

The node types that evaluate their source at other points than their own.
-/

namespace AssetCanvas.Density

/-- The density of the source at the images of the points. -/
def atImages (move : Point → Point) : Handler := fun s points => s.input "Input" (points.map move)

/-- Points, each moved by the value at its place in a list. -/
def movedBy {α : Type} (move : Point → α → Point) (points : List Point) (values : List α) :
    List Point :=
  points.zipWith move values

/-! ### Fixed coordinates -/

/-- The density of the source where the coordinate `x` is replaced. -/
def xOverride : Handler := fun s points => do
  let x ← s.number "OverrideX" 0.0
  atImages (fun p => { p with x }) s points

/-- The density of the source where the coordinate `y` is replaced. -/
def yOverride : Handler := fun s points => do
  let y ← s.numberOf "OverrideY" "Y" 0.0
  atImages (fun p => { p with y }) s points

/-- The density of the source where the coordinate `z` is replaced. -/
def zOverride : Handler := fun s points => do
  let z ← s.number "OverrideZ" 0.0
  atImages (fun p => { p with z }) s points

/-- The nearest height on a grid of heights, the greater of two. -/
def sampledHeight (distance offset y : Float) : Float :=
  if distance > 0.0 then ((y - offset) / distance + 0.5).floor * distance + offset else y

/-- The density of the source at the heights that a port provides, or on a grid of heights. -/
def ySampled : Handler := fun s points => do
  if s.has "YProvider" then
    let heights ← s.input "YProvider" points
    s.input "Input" (movedBy (fun p y => { p with y }) points heights)
  else
    let distance ← s.number "SampleDistance" 4.0
    let offset ← s.number "SampleOffset" 0.0
    atImages (fun p => { p with y := sampledHeight distance offset p.y }) s points

/-! ### Gradients -/

/-- The slope of the warp source between two images of every point. -/
def slope (s : Scope) (points : List Point) (ahead behind : Point → Point) (factor : Float) :
    Except Fault (List Float) := do
  let a ← s.input "WarpSource" (points.map ahead)
  let b ← s.input "WarpSource" (points.map behind)
  return a.zipWith (fun a b => (a - b) * factor) b

/-- The density of the source at points that are moved along the gradient of the warp source,
in all directions or, for a gradient taken at a fixed height, in the plane. -/
def gradientWarp : Handler := fun s points => do
  let factor ← s.numberOf "WarpFactor" "WarpScale" 1.0
  let reach ← s.number "SampleRange" 1.0
  let reach := if reach == 0.0 then 1.0 else reach
  let flat := match ← s.field "Is2D" with
    | .bool b => b
    | _ => false
  let height ← if flat then s.number "YFor2D" 0.0 else .ok 0.0
  let level (p : Point) : Float := if flat then height else p.y
  let inverse := 1.0 / (2.0 * reach)
  let alongX ← slope s points (fun p => ⟨p.x + reach, level p, p.z⟩)
    (fun p => ⟨p.x - reach, level p, p.z⟩) inverse
  let alongZ ← slope s points (fun p => ⟨p.x, level p, p.z + reach⟩)
    (fun p => ⟨p.x, level p, p.z - reach⟩) inverse
  let shifted := movedBy (fun p g => ⟨p.x + factor * g.1, p.y, p.z + factor * g.2⟩) points
    (alongX.zip alongZ)
  if flat then
    s.input "Input" shifted
  else
    let alongY ← slope s points (fun p => ⟨p.x, p.y + reach, p.z⟩)
      (fun p => ⟨p.x, p.y - reach, p.z⟩) inverse
    s.input "Input" (movedBy (fun p g => { p with y := p.y + factor * g }) shifted alongY)

/-! ### Noise -/

/-- The displacements along one coordinate by the noise of a seed. -/
def displacements (domain : Domain) (seed : Int) (amplitude : Float) (places : List Place) :
    Except Fault (List Float) := do
  return (← Simplex.sampler seed domain.dimension places).map (· * amplitude)

/-- The places of some points at a frequency. -/
def placesAt (domain : Domain) (frequency : Float) (points : List Point) : List Place :=
  points.map fun p => domain.place ⟨p.x * frequency, p.y * frequency, p.z * frequency⟩

/-- The density of the source at points that noise moves in the plane. -/
def planeWarp : Handler := fun s points => do
  let amplitude ← s.number "Amplitude" 1.0
  let frequency ← s.number "Frequency" 0.01
  let seed ← noiseSeed s
  let places := placesAt .plane frequency points
  let wx ← displacements .plane seed amplitude places
  let wz ← displacements .plane (NoiseSeed.shifted seed 1) amplitude places
  s.input "Input" (movedBy (fun p w => ⟨p.x + w.1, p.y, p.z + w.2⟩) points (wx.zip wz))

/-- The density of the source at points that noise moves in space. -/
def spaceWarp : Handler := fun s points => do
  let amplitude ← s.number "Amplitude" 1.0
  let frequency ← s.number "Frequency" 0.01
  let seed ← noiseSeed s
  let places := placesAt .space frequency points
  let wx ← displacements .space seed amplitude places
  let wy ← displacements .space (NoiseSeed.shifted seed 1) amplitude places
  let wz ← displacements .space (NoiseSeed.shifted seed 2) amplitude places
  s.input "Input" (movedBy (fun p w => ⟨p.x + w.1, p.y + w.2.1, p.z + w.2.2⟩) points
    (wx.zip (wy.zip wz)))

/-! ### Motions of the plane -/

/-- One degree as an angle. -/
def degree : Float := 3.141592653589793 / 180.0

/-- A point turned around the vertical axis by an angle for every unit of height. -/
def twisted (angle : Float) (p : Point) : Point :=
  let turn := angle * degree * p.y
  let (c, s) := (turn.cos, turn.sin)
  ⟨p.x * c - p.z * s, p.y, p.x * s + p.z * c⟩

/-- The density of the source around which the plane is turned with the height. -/
def twist : Handler := fun s points => do
  let angle ← s.number "Angle" 0.0
  atImages (twisted angle) s points

/-- A point whose distance to the vertical axis is raised to a power. -/
def pinched (strength : Float) (p : Point) : Point :=
  let distance := (p.x * p.x + p.z * p.z).sqrt
  let factor := if distance > 0.0 then power distance strength / distance else 1.0
  ⟨p.x * factor, p.y, p.z * factor⟩

/-- The density of the source in a plane that is drawn together or apart. -/
def pinch : Handler := fun s points => do
  let strength ← s.number "Strength" 1.0
  atImages (pinched strength) s points

/-- The types of this module. -/
def warps : List (String × Handler) :=
  [("XOverride", xOverride), ("YOverride", yOverride), ("ZOverride", zOverride),
    ("YSampled", ySampled), ("GradientWarp", gradientWarp), ("DomainWarp2D", planeWarp),
    ("DomainWarp3D", spaceWarp), ("PositionsTwist", twist), ("PositionsPinch", pinch)]

end AssetCanvas.Density
