import AssetCanvas.Json.Number
import AssetCanvas.Preview.Noise.Sampling

/-!
# Fractal noise

`Fractal.sum` adds octaves of a noise, each finer and fainter than the one before, and
`Fractal.ridged` adds octaves of its folded form, whose creases are ridges.  A frequency and a
lacunarity that are integers are multiplied exactly.
-/

namespace AssetCanvas

/-- The octaves of a fractal noise. -/
structure Fractal where
  /-- The number of octaves. -/
  octaves : Nat
  /-- The scale of the places in the first octave. -/
  frequency : Number
  /-- The factor of the scale from an octave to the next. -/
  lacunarity : Number := .float 2.0
  /-- The factor of the weight from an octave to the next. -/
  gain : Number := .float 0.5

namespace Fractal

/-- A place with its coordinates multiplied by a factor. -/
def scale (factor : Float) (p : Place) : Place := p.map (· * factor)

/-- The sum of `n` more octaves of a noise whose values are reshaped, from a frequency and
an amplitude on. -/
def accumulate (f : Fractal) (noise : Sampler) (reshape : Float → Float) (places : List Place) :
    Nat → Number → Float → List Float → Except Fault (List Float)
  | 0, _, _, total => .ok total
  | n + 1, frequency, amplitude, total => do
    let values ← noise (places.map (scale (← frequency.toFloat)))
    let total := total.zipWith (fun t v => t + reshape v * amplitude) values
    let frequency ← frequency.mul f.lacunarity
    accumulate f noise reshape places n frequency (amplitude * (← f.gain.toFloat)) total

/-- The sum of the octaves. -/
def sum (f : Fractal) (noise : Sampler) : Sampler := fun places =>
  f.accumulate noise id places f.octaves f.frequency 1.0 (places.map fun _ => 0.0)

/-- A value folded at zero, so that its zeros become ridges. -/
def fold (v : Float) : Float :=
  let ridge := 1.0 - v.abs
  ridge * ridge

/-- The sum of the folded octaves, brought to about the interval from -1 to 1. -/
def ridged (f : Fractal) (noise : Sampler) : Sampler := fun places => do
  let total ← f.accumulate noise fold places f.octaves f.frequency 1.0 (places.map fun _ => 0.0)
  return total.map fun t => t * 2.0 - 1.0

/-- The number of octaves of an integer: at least one. -/
def octavesOf (n : Int) : Nat := max 1 n.toNat

end Fractal

end AssetCanvas
