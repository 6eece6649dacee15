import AssetCanvas.Preview.Density
import AssetCanvas.Proofs.Coercion
import AssetCanvas.Proofs.NoiseFaults
import AssetCanvas.Proofs.Roots

/-!
# Flaws of density nodes

A density node has a flaw if its fields make its own computation fail, whatever its sources are.
`Density.flawOf` tells for every type of node what its flaws are: an integer beyond the finite
floats where the type reads a number, a number that is not finite where an integer is needed, a
value without a spelling where a name or a seed is spelled, and simplex noise at an unbounded place.
A handler fails exactly if it asks for a source that fails, or the node has a flaw of the type:
`Density.failsIf_handlerOf`.
-/

namespace AssetCanvas

/-- Whether a curve has a point with a coordinate that is an integer beyond the finite floats. -/
def Curve.Huge (v : Json) : Prop :=
  ∃ points, v = .arr points ∧ ∃ point ∈ points, match point with
    | .obj fields => (Json.obj fields).HasHuge ["x", "y"]
    | .arr (a :: b :: _) => a.Huge ∨ b.Huge
    | _ => False

namespace Density

/-! ### Readings -/

namespace Scope

/-- The number that a field gives, or a default. -/
def given (s : Scope) (key : String) (default : Float) : Float :=
  (s.fields.entry key).float?.getD default

/-- The number of octaves. -/
def octaves (s : Scope) (default : Float) : Nat :=
  Fractal.octavesOf ((Binary64.truncate? (s.given "Octaves" default)).getD 0)

/-- The field that is read as a number: the current one, or an older one if that is missing. -/
def current (s : Scope) (key older : String) : String :=
  match s.fields with
  | .obj fields => if Entries.contains fields key then key else older
  | _ => older

/-- Whether the curve of a port has a point with a coordinate that is an integer beyond the finite
floats. -/
def HasHugeCurve (s : Scope) (port : String) : Prop :=
  ∃ n, s.source? port = some n ∧ n.typeName "Curve" = .ok "Manual"
    ∧ Curve.Huge (n.fields.entry "Points")

end Scope

/-! ### Flaws -/

/-- A flaw of a node that is evaluated at some points. -/
abbrev Flaw := Scope → List Point → Prop

namespace Flaw

/-- No flaw. -/
def never : Flaw := fun _ _ => False

/-- An integer beyond the finite floats in one of some fields. -/
def huge (keys : List String) : Flaw := fun s _ => s.fields.HasHuge keys

/-- An integer beyond the finite floats in a part of one of some fields. -/
def hugeParts (keys parts : List String) : Flaw :=
  fun s _ => ∃ key ∈ keys, (s.fields.entry key).HasHuge parts

/-- An integer beyond the finite floats in a field or, if it is missing, in an older one. -/
def hugeCurrent (key older : String) : Flaw := fun s _ => s.fields.HasHuge [s.current key older]

/-- An integer beyond the finite floats among the weights of the indexed ports. -/
def hugeWeight : Flaw := fun s _ =>
  ∃ weights, s.fields.entry "Weights" = .arr weights
    ∧ ∃ i < s.indexedPorts.length, ∃ w, weights[i]? = some w ∧ w.Huge

/-- An integer beyond the finite floats in the curve of a field. -/
def hugeSpline : Flaw := fun s _ => Curve.Huge (s.fields.entry "Points")

/-- An integer beyond the finite floats in the curve of a port. -/
def hugeCurve (port : String) : Flaw := fun s _ => s.HasHugeCurve port

/-- A number that is not finite in a field. -/
def infinite (key : String) (default : Float) : Flaw := fun s _ =>
  (s.given key default).isFinite = false

/-- A field without a spelling. -/
def unspelled (key : String) : Flaw := fun s _ => (s.fields.entry key).isSpellable = false

/-- A seed that cannot be read: a value with parts and without a spelling. -/
def unseeded : Flaw := fun s _ =>
  (s.fields.entry "Seed").key? = none ∧ (s.fields.entry "Seed").isSpellable = false

/-- One of two flaws. -/
def or (flaw flaw' : Flaw) : Flaw := fun s points => flaw s points ∨ flaw' s points

/-- A flaw that is one only where a port has no source. -/
def without (port : String) (flaw : Flaw) : Flaw :=
  fun s points => s.has port = false ∧ flaw s points

/-- A flaw that is one only where a field has a value. -/
def whereField (key : String) (v : Json) (flaw : Flaw) : Flaw :=
  fun s points => s.fields.entry key = v ∧ flaw s points

/-- The flaws of octaves. -/
def octaves (default : Float) : Flaw :=
  or (huge ["Frequency", "Octaves", "Lacunarity", "Gain"]) (infinite "Octaves" default)

/-- Octaves of simplex noise at an unbounded place. -/
def overflow (domain : Domain) (default : Float) : Flaw := fun s points =>
  Fractal.Overflows (s.octaves default) (s.given "Frequency" 0.01) (s.given "Lacunarity" 2.0)
    domain.dimension (points.map domain.place)

/-- Octaves of simplex noise with ridges at an unbounded place. -/
def ridgeOverflow (domain : Domain) : Flaw := fun s points =>
  Fractal.Overflows (s.octaves 1.0) (s.given "Frequency" 0.01) 2.0 domain.dimension
    (points.map domain.place)

/-- Simplex noise at an unbounded place, as a warp samples it. -/
def warpOverflow (domain : Domain) : Flaw := fun s points =>
  Simplex.Overflows domain.dimension (placesAt domain (s.given "Frequency" 0.01) points)

end Flaw

/-- The flaws of the types that compute with densities. -/
def arithmeticFlaws : List (String × Flaw) :=
  [("Negate", .never), ("Abs", .never), ("SquareRoot", .never), ("CubeRoot", .never),
    ("Square", .never), ("CubeMath", .never), ("Inverse", .never), ("Floor", .never),
    ("Ceiling", .never), ("CacheOnce", .never), ("FlatCache", .never), ("Cache2D", .never),
    ("Wrap", .never), ("Passthrough", .never), ("Debug", .never), ("Exported", .never),
    ("SmoothClamp", .huge ["Smoothness", "Min", "Max"]),
    ("SmoothFloor", .huge ["Smoothness", "Threshold"]),
    ("SmoothCeiling", .huge ["Smoothness", "Threshold"]), ("SmoothMin", .huge ["Smoothness"]),
    ("SmoothMax", .huge ["Smoothness"]), ("Constant", .huge ["Value"]), ("Zero", .never),
    ("One", .never), ("ImportedValue", .without "Input" (.huge ["Value"])), ("Sum", .never),
    ("SumSelf", .huge ["Count"]), ("WeightedSum", .hugeWeight), ("Product", .never),
    ("Modulo", .huge ["Divisor"]), ("AmplitudeConstant", .huge ["Value"]),
    ("Pow", .huge ["Exponent"]), ("Amplitude", .never), ("Offset", .never),
    ("Clamp", .huge ["Min", "Max"]), ("ClampToIndex", .huge ["Min", "Max"]),
    ("Normalizer", .hugeParts ["SourceRange", "TargetRange"] ["Min", "Max"]),
    ("LinearTransform", .huge ["Scale", "Offset"]), ("RangeChoice", .huge ["Threshold"]),
    ("Interpolate", .never), ("Conditional", .huge ["Threshold"]), ("MinFunction", .never),
    ("MaxFunction", .never), ("AverageFunction", .never), ("Blend", .never),
    ("Switch", .or (.huge ["Selector"]) (.infinite "Selector" 0.0)),
    ("CurveFunction", .hugeCurve "Curve"), ("SplineFunction", .hugeSpline)]

/-- The flaws of the types that compute with coordinates. -/
def coordinateFlaws : List (String × Flaw) :=
  [("CoordinateX", .never), ("CoordinateY", .never), ("CoordinateZ", .never),
    ("DistanceFromOrigin", .never), ("DistanceFromAxis", .unspelled "Axis"),
    ("DistanceFromPoint", .hugeParts ["Point"] ["x", "y", "z"]),
    ("AngleFromOrigin", .hugeParts ["Point"] ["x", "y", "z"]),
    ("AngleFromPoint", .hugeParts ["Point"] ["x", "y", "z"]), ("Distance", .hugeCurve "Curve")]

/-- The flaws of simplex noise, whose octaves are scaled by an amplitude. -/
def Flaw.simplex (domain : Domain) : Flaw :=
  .or (.octaves 1.0) (.or .unseeded (.or (.overflow domain 1.0) (.huge ["Amplitude"])))

/-- The flaws of simplex noise with ridges. -/
def Flaw.ridge (domain : Domain) : Flaw :=
  .or (.octaves 1.0) (.or .unseeded (.or (.ridgeOverflow domain) (.huge ["Amplitude"])))

/-- The flaws of several octaves of simplex noise. -/
def Flaw.fractal (domain : Domain) : Flaw :=
  .or (.octaves 4.0) (.or .unseeded (.overflow domain 4.0))

/-- The flaws of cellular noise. -/
def Flaw.cellular : Flaw :=
  .or (.octaves 1.0) (.or .unseeded (.or (.unspelled "CellType") (.or (.huge ["Jitter"])
    (.whereField "ReturnType" (.str "Curve") (.hugeCurve "ReturnCurve")))))

/-- The flaws of the types of noise. -/
def noiseFlaws : List (String × Flaw) :=
  [("SimplexNoise2D", .simplex .plane), ("SimplexNoise3D", .simplex .space),
    ("SimplexRidgeNoise2D", .ridge .plane), ("SimplexRidgeNoise3D", .ridge .space),
    ("FractalNoise2D", .fractal .plane), ("FractalNoise3D", .fractal .space),
    ("VoronoiNoise2D", .cellular), ("VoronoiNoise3D", .cellular)]

/-- The flaws of a warp by noise. -/
def Flaw.warp (domain : Domain) : Flaw :=
  .or (.huge ["Amplitude", "Frequency"]) (.or .unseeded (.warpOverflow domain))

/-- The flaws of the types that move points. -/
def warpFlaws : List (String × Flaw) :=
  [("XOverride", .huge ["OverrideX"]), ("YOverride", .hugeCurrent "OverrideY" "Y"),
    ("ZOverride", .huge ["OverrideZ"]),
    ("YSampled", .without "YProvider" (.huge ["SampleDistance", "SampleOffset"])),
    ("GradientWarp", .or (.hugeCurrent "WarpFactor" "WarpScale")
      (.or (.huge ["SampleRange"]) (.whereField "Is2D" (.bool true) (.huge ["YFor2D"])))),
    ("DomainWarp2D", .warp .plane), ("DomainWarp3D", .warp .space),
    ("PositionsTwist", .huge ["Angle"]), ("PositionsPinch", .huge ["Strength"])]

/-- The flaws of all types. -/
def flaws : List (String × Flaw) :=
  arithmeticFlaws ++ coordinateFlaws ++ noiseFlaws ++ warpFlaws
    ++ worldTypes.map fun type => (type, .never)

/-- The flaws of a type; an unknown one has none. -/
def flawOf (type : String) : Flaw := (Entries.find? flaws type).getD .never

end Density

end AssetCanvas
