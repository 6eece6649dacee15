import AssetCanvas.Preview.Noise.Fractal
import AssetCanvas.Preview.Noise.Simplex
import AssetCanvas.Proofs.Floats
import AssetCanvas.Proofs.Requests
import Mathlib.Data.List.Iterate

/-!
# Failing noise

Simplex noise looks for the cell of a place on a stretched lattice.  There is none if a coordinate
is not finite after the stretching, `Simplex.Unbounded`.  The noise is sampled at places or, where
that is cheaper, on the lattice of their coordinates, `Sampling.sampled`; it fails exactly if one
of these is unbounded.  A fractal noise fails exactly if one of its octaves does.
-/

namespace AssetCanvas

open Fault

theorem Number.failsIf_floor (x : Float) : FailsIf (Number.floor x) (x.isFinite = false)
  := by
  rw [Number.floor]
  cases hfloor : Binary64.floor? x with
  | none =>
    apply FailsIf.error (Binary64.floor?_eq_none_iff.mp hfloor)
    split
    · exact .inr rfl
    · exact .inl rfl
  | some n =>
    apply FailsIf.ok
    rw [← Binary64.floor?_eq_none_iff, hfloor]
    simp

theorem Json.failsIf_toInt (x : Float) : FailsIf (Json.float x).toInt (x.isFinite = false)
  := by
  rw [Json.toInt]
  cases htruncate : Binary64.truncate? x with
  | none =>
    apply FailsIf.error (Binary64.truncate?_eq_none_iff.mp htruncate)
    split
    · exact .inr rfl
    · exact .inl rfl
  | some n =>
    apply FailsIf.ok
    rw [← Binary64.truncate?_eq_none_iff, htruncate]
    simp

/-! ### Simplex noise at a place -/

namespace Simplex

/-- The coordinates of a place after the stretching. -/
def stretched : Place → List Float
  | [x, y] => [x, y].map (· + (x + y) * stretch2)
  | [x, y, z] => [x, y, z].map (· + (x + y + z) * stretch3)
  | _ => []

/-- Whether a coordinate of a place is not finite after the stretching. -/
def Unbounded (p : Place) : Prop := ∃ c ∈ stretched p, c.isFinite = false

theorem failsIf_atPlace (s : Shuffle) (p : Place) : FailsIf (atPlace s p) (Unbounded p)
  := by
  match p with
  | [x, y] =>
    apply FailsIf.congr
    · apply (Number.failsIf_floor _).bind
      intro i _
      apply (Number.failsIf_floor _).map
    · simp [Unbounded, stretched]
  | [x, y, z] =>
    apply FailsIf.congr
    · apply (Number.failsIf_floor _).bind
      intro i _
      apply (Number.failsIf_floor _).bind
      intro j _
      apply (Number.failsIf_floor _).map
    · simp [Unbounded, stretched]
  | [] | [_] | _ :: _ :: _ :: _ :: _ =>
    exact (FailsIf.of_ok rfl).congr (by simp [Unbounded, stretched])

end Simplex

/-! ### Sampling -/

namespace Sampling

/-- The places at which a function is evaluated to give its values at some places: the lattice of
their coordinates, or the places themselves. -/
def sampled (dimension : Nat) (places : List Place) : List Place :=
  let seen := (columns dimension places).map occurring
  if cells seen ≤ latticeFactor * places.length then
    lattice ((seen.map Axis.ofOccurring).map Axis.values)
  else
    places

theorem failsIf_sample {point : Place → Except Fault Float} {P : Place → Prop}
    (h : ∀ p, FailsIf (point p) (P p)) (dimension : Nat) (places : List Place) :
  FailsIf (sample (tabulate point) point dimension places) (∃ p ∈ sampled dimension places, P p)
  := by
  simp only [sample, sampled, tabulate]
  split
  · apply (FailsIf.mapM fun p _ => h p).map
  · apply FailsIf.mapM fun p _ => h p

end Sampling

/-- Whether simplex noise is sampled at an unbounded place to give its values at some places. -/
def Simplex.Overflows (dimension : Nat) (places : List Place) : Prop :=
  ∃ p ∈ Sampling.sampled dimension places, Unbounded p

theorem Simplex.failsIf_sampler (seed : Int) (dimension : Nat) (places : List Place) :
  FailsIf (sampler seed dimension places) (Overflows dimension places)
  := Sampling.failsIf_sample (failsIf_atPlace _) dimension places

/-! ### Octaves -/

namespace Fractal

variable {noise : Sampler} {R : List Place → Prop}

/-- Every octave samples the noise at the places, scaled by the frequency of the octave. -/
theorem failsIf_accumulate (f : Fractal) {lacunarity gain : Float}
    (hlacunarity : f.lacunarity = .float lacunarity) (hgain : f.gain = .float gain)
    (hnoise : ∀ places, FailsIf (noise places) (R places)) (reshape : Float → Float)
    (places : List Place) (n : Nat) (frequency amplitude : Float) (total : List Float) :
  FailsIf (f.accumulate noise reshape places n (.float frequency) amplitude total)
    (∃ factor ∈ List.iterate (· * lacunarity) frequency n, R (places.map (scale factor)))
  := by
  induction n generalizing frequency amplitude total with
  | zero => exact (FailsIf.of_ok rfl).congr (by simp)
  | succ n ih =>
    simp only [accumulate, hlacunarity, hgain, Number.toFloat, Number.mul, Fault.ok_bind,
      Fault.pure_eq_ok]
    apply FailsIf.congr
    · apply (hnoise _).bind
      intro values _
      apply ih
    · simp

/-- Whether a fractal noise with a frequency and a lacunarity samples simplex noise at an unbounded
place. -/
def Overflows (octaves : Nat) (frequency lacunarity : Float) (dimension : Nat)
    (places : List Place) : Prop :=
  ∃ factor ∈ List.iterate (· * lacunarity) frequency octaves,
    Simplex.Overflows dimension (places.map (scale factor))

theorem failsIf_sum (octaves : Nat) (frequency lacunarity gain : Float)
    (hnoise : ∀ places, FailsIf (noise places) (R places)) (places : List Place) :
  FailsIf (sum ⟨octaves, .float frequency, .float lacunarity, .float gain⟩ noise places)
    (∃ factor ∈ List.iterate (· * lacunarity) frequency octaves, R (places.map (scale factor)))
  := failsIf_accumulate _ rfl rfl hnoise _ _ _ _ _ _

theorem failsIf_ridged (octaves : Nat) (frequency : Float)
    (hnoise : ∀ places, FailsIf (noise places) (R places)) (places : List Place) :
  FailsIf (ridged { octaves, frequency := .float frequency } noise places)
    (∃ factor ∈ List.iterate (· * 2.0) frequency octaves, R (places.map (scale factor)))
  := (failsIf_accumulate _ rfl rfl hnoise _ _ _ _ _ _).map _

end Fractal

end AssetCanvas
