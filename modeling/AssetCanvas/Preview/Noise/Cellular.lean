import AssetCanvas.Preview.Blend
import AssetCanvas.Preview.Noise.Sampling

/-!
# Cellular noise

Every unit cell holds one feature point, which a hash of the cell moves away from its corner.
`Cellular.sampler` measures, for places of two or three coordinates, the distances to the two
nearest feature points of the surrounding cells, which `Cellular.nearestTwo` finds.
-/

namespace AssetCanvas.Cellular

/-! ### Distances -/

/-- What is measured of the two least distances. -/
inductive Measure where
  /-- The least distance. -/
  | nearest
  /-- The quotient of the two. -/
  | quotient
  /-- The difference of the two. -/
  | difference
  deriving DecidableEq, Repr

/-- The measure of a name; an unknown name stands for the least distance. -/
def Measure.ofName (name : String) : Measure :=
  if name = "Distance2Div" then .quotient
  else if name = "Distance2Sub" then .difference
  else .nearest

section Distances

variable {α : Type}

/-- The two least distances after one more. -/
def closer [LT α] [DecidableLT α] [LE α] [DecidableLE α] [Add α] (best : α × α) (distance : α) :
    α × α :=
  if distance < best.1 then (distance, best.1) else (best.1, Blend.least best.2 distance)

/-- The two least of some distances, where `far` stands for the ones that are missing. -/
def nearestTwo [LT α] [DecidableLT α] [LE α] [DecidableLE α] [Add α] (far : α)
    (distances : List α) : α × α :=
  distances.foldl closer (far, far)

/-- The value of a measure, given the two least distances. -/
def Measure.value [LT α] [DecidableLT α] [Sub α] [Mul α] [Div α] [OfNat α 0] [OfNat α 1]
    [OfNat α 2] (m : Measure) (best : α × α) : α :=
  match m with
  | .nearest => best.1 * 2 - 1
  | .quotient => if 0 < best.2 then best.1 / best.2 * 2 - 1 else 0
  | .difference => (best.2 - best.1) * 2 - 1

end Distances

/-! ### Feature points -/

/-- The odd constant that separates the hashes of the coordinates. -/
def golden : UInt64 := 0x9E3779B97F4A7C15

/-- The factors of the coordinates of a cell. -/
def primes : List UInt64 := [374761393, 668265263, 1103515245]

/-- The final mixture of a hash. -/
def finalize (h : UInt64) : UInt64 :=
  let h := (h ^^^ (h >>> 30)) * 0xBF58476D1CE4E5B9
  let h := (h ^^^ (h >>> 27)) * 0x94D049BB133111EB
  h ^^^ (h >>> 31)

/-- The hash of a cell for a seed and a coordinate, as a float below one. -/
def unit (cell : List Int) (seed : UInt64) (coordinate : Nat) : Float :=
  let start := seed + UInt64.ofNat (coordinate + 1) * golden
  let h := (cell.zip primes).foldl (fun h c => h ^^^ (UInt64.ofInt c.1 * c.2)) start
  (finalize h >>> 11).toFloat / 9007199254740992.0

/-- The steps to the cells next to a cell along a coordinate. -/
def steps : List Int := [-1, 0, 1]

/-- The cell that is a step away from the one of a coordinate.  The step is added as a float. -/
def cellAt (x : Float) (step : Int) : Int :=
  Binary64.toInt64 (Binary64.wholeBelow x + Float.ofInt step)

/-- The cells around a place. -/
def neighbours : Place → List (List Int)
  | [] => [[]]
  | x :: rest => steps.flatMap fun step => (neighbours rest).map (cellAt x step :: ·)

/-- The distance from a place to the feature point of a cell. -/
def distance (seed : UInt64) (jitter : Float) (p : Place) (cell : List Int) : Float :=
  let squares := (p.zip cell).zipIdx.map fun ((x, c), coordinate) =>
    let d := x - (Float.ofInt c + unit cell seed coordinate * jitter)
    d * d
  (squares.foldl (· + ·) 0.0).sqrt

/-- The noise at a place. -/
def atPlace (seed : UInt64) (measure : Measure) (jitter : Float) (p : Place) : Float :=
  measure.value (nearestTwo Binary64.infinity
    ((neighbours p).map (distance seed jitter p)))

/-- The noise of a seed, which counts modulo 2 ^ 64. -/
def sampler (seed : Int) (measure : Measure) (jitter : Float) : Sampler :=
  let seed := UInt64.ofInt seed
  fun places => .ok (places.map (atPlace seed measure jitter))

end AssetCanvas.Cellular
