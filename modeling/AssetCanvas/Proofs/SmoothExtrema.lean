import AssetCanvas.Preview.Blend
import Mathlib.Algebra.Order.Field.Basic
import Mathlib.Algebra.Order.Group.MinMax
import Mathlib.Algebra.Order.Ring.Rat
import Mathlib.Tactic.FieldSimp
import Mathlib.Tactic.GCongr
import Mathlib.Tactic.Linarith
import Mathlib.Tactic.Positivity
import Mathlib.Tactic.Ring

/-!
# Smooth extrema in exact arithmetic

In an ordered field the smooth minimum of two values is the least of their mixtures: a mixture with
a share of the first value lies below the straight mean, by an amount that vanishes at both ends
and is largest in the middle.  Mixtures are monotone in the values and symmetric, so the same holds
of their least one, `Blend.smoothMin_le_mixture`, and bounds for mixtures are bounds for it.
`Blend.roundsOff_smooth` says how far the smooth extrema are from the sharp ones.
-/

namespace AssetCanvas.Blend

/-! ### Sharp extrema -/

section Sharp

variable {α : Type} [LinearOrder α] [Add α]

theorem least_eq_min (a b : α) : least a b = min a b
  := by
  rw [least, min_def]
  split
  · rfl
  · rename_i h
    rw [if_pos (le_of_not_ge h)]

theorem greatest_eq_max (a b : α) : greatest a b = max a b
  := by
  rw [greatest, max_comm, max_def]
  split
  · rfl
  · rename_i h
    rw [if_pos (le_of_not_ge h)]

end Sharp

/-! ### Mixtures -/

section Mixtures

variable {K : Type} [Field K]

/-- The mean of two values with a share of the first one, less an amount that is largest for equal
shares. -/
def mixture (a b width share : K) : K :=
  a * share + b * (1 - share) - width * share * (1 - share)

/-- The share for which a mixture is least. -/
def balance (a b width : K) : K := 1 / 2 + (b - a) / 2 / width

theorem mixture_swap (a b width share : K) :
  mixture b a width (1 - share) = mixture a b width share
  := by
  unfold mixture
  ring

theorem smoothMin_eq_mixture [LinearOrder K] {width : K} (hw : 0 < width) (a b : K) :
  smoothMin a b width = mixture a b width (clamp 0 1 (balance a b width))
  := by
  rw [smoothMin, if_neg (not_le_of_gt hw), mixture, balance]
  ring

end Mixtures

variable {K : Type} [Field K] [LinearOrder K] [IsStrictOrderedRing K] {a a' b b' width share : K}

/-- A value moved into the unit interval is there, and no value there is nearer. -/
theorem clamp_unit (t : K) :
  0 ≤ clamp 0 1 t ∧ clamp 0 1 t ≤ 1
    ∧ ∀ share, 0 ≤ share → share ≤ 1 → (clamp 0 1 t - t) ^ 2 ≤ (share - t) ^ 2
  := by
  rw [clamp, greatest_eq_max, least_eq_min]
  rcases le_total t 0 with h | h
  · rw [min_eq_right (h.trans zero_le_one), max_eq_left h]
    refine ⟨le_rfl, zero_le_one, ?_⟩
    intro share h0 h1
    apply pow_le_pow_left₀ <;> linarith
  · rcases le_total t 1 with h' | h'
    · rw [min_eq_right h', max_eq_right h]
      refine ⟨h, h', ?_⟩
      intro share _ _
      rw [sub_self, zero_pow two_ne_zero]
      apply sq_nonneg
    · rw [min_eq_left h', max_eq_right zero_le_one]
      refine ⟨zero_le_one, le_rfl, ?_⟩
      intro share h0 h1
      rw [← neg_sub t, ← neg_sub t, neg_sq, neg_sq]
      apply pow_le_pow_left₀ <;> linarith

/-- A mixture is a parabola in the share, with its vertex at the balance. -/
theorem mixture_eq (hw : 0 < width) (a b share : K) :
  mixture a b width share
    = b - width * balance a b width ^ 2 + width * (share - balance a b width) ^ 2
  := by
  unfold mixture balance
  field_simp
  ring

theorem mixture_mono (ha : a ≤ a') (hb : b ≤ b') (h0 : 0 ≤ share) (h1 : share ≤ 1) :
  mixture a b width share ≤ mixture a' b' width share
  := by
  have hrest : 0 ≤ 1 - share := sub_nonneg.mpr h1
  unfold mixture
  gcongr

/-! ### The smooth minimum -/

/-- The smooth minimum is at most any mixture. -/
theorem smoothMin_le_mixture (hw : 0 < width) (a b : K) (h0 : 0 ≤ share) (h1 : share ≤ 1) :
  smoothMin a b width ≤ mixture a b width share
  := by
  obtain ⟨-, -, hnearest⟩ := clamp_unit (balance a b width)
  have hsquare := hnearest share h0 h1
  rw [smoothMin_eq_mixture hw, mixture_eq hw, mixture_eq hw a b share]
  gcongr

/-- The smooth minimum is one of the mixtures. -/
theorem exists_mixture (hw : 0 < width) (a b : K) :
  ∃ share, 0 ≤ share ∧ share ≤ 1 ∧ smoothMin a b width = mixture a b width share
  := by
  obtain ⟨h0, h1, -⟩ := clamp_unit (balance a b width)
  exact ⟨_, h0, h1, smoothMin_eq_mixture hw a b⟩

theorem smoothMin_mono (hw : 0 < width) (ha : a ≤ a') (hb : b ≤ b') :
  smoothMin a b width ≤ smoothMin a' b' width
  := by
  obtain ⟨share, h0, h1, hshare⟩ := exists_mixture hw a' b'
  calc smoothMin a b width
      ≤ mixture a b width share := smoothMin_le_mixture hw a b h0 h1
    _ ≤ mixture a' b' width share := mixture_mono ha hb h0 h1
    _ = smoothMin a' b' width := hshare.symm

theorem smoothMin_comm (hw : 0 < width) (a b : K) : smoothMin a b width = smoothMin b a width
  := by
  have hle : ∀ a b : K, smoothMin b a width ≤ smoothMin a b width := by
    intro a b
    obtain ⟨share, h0, h1, hshare⟩ := exists_mixture hw a b
    rw [hshare, ← mixture_swap]
    apply smoothMin_le_mixture hw
    · linarith
    · linarith
  apply le_antisymm (hle b a) (hle a b)

theorem smoothMin_le_min (hw : 0 < width) (a b : K) : smoothMin a b width ≤ min a b
  := by
  apply le_min
  · have hfirst := smoothMin_le_mixture hw a b zero_le_one le_rfl
    simpa [mixture] using hfirst
  · have hsecond := smoothMin_le_mixture hw a b le_rfl zero_le_one
    simpa [mixture] using hsecond

/-- No mixture is more than a quarter of the width below both values. -/
theorem min_sub_le_smoothMin (hw : 0 < width) (a b : K) :
  min a b - width / 4 ≤ smoothMin a b width
  := by
  obtain ⟨share, h0, h1, hshare⟩ := exists_mixture hw a b
  have hdrop : width * share * (1 - share) ≤ width / 4 := by
    nlinarith [mul_nonneg hw.le (sq_nonneg (2 * share - 1))]
  calc min a b - width / 4
      ≤ min a b - width * share * (1 - share) := sub_le_sub_left hdrop _
    _ = mixture (min a b) (min a b) width share := by
        unfold mixture
        ring
    _ ≤ mixture a b width share := mixture_mono (min_le_left a b) (min_le_right a b) h0 h1
    _ = smoothMin a b width := hshare.symm

/-- Equal values are a quarter of the width above their smooth minimum. -/
theorem smoothMin_self (hw : 0 < width) (a : K) : smoothMin a a width = a - width / 4
  := by
  apply le_antisymm
  · have hmiddle := smoothMin_le_mixture hw a a (one_half_pos (α := K)).le one_half_lt_one.le
    apply hmiddle.trans_eq
    unfold mixture
    ring
  · have hlower := min_sub_le_smoothMin hw a a
    rwa [min_self] at hlower

/-- Of values that differ by the width or more the smooth minimum is the lesser one. -/
theorem smoothMin_of_le (hw : 0 < width) (h : width ≤ b - a) : smoothMin a b width = a
  := by
  apply le_antisymm ((smoothMin_le_min hw a b).trans (min_le_left a b))
  obtain ⟨share, h0, h1, hshare⟩ := exists_mixture hw a b
  have hpart : width * share ≤ b - a := (mul_le_of_le_one_right hw.le h1).trans h
  have hgain : 0 ≤ (1 - share) * (b - a - width * share) :=
    mul_nonneg (sub_nonneg.mpr h1) (sub_nonneg.mpr hpart)
  calc a ≤ a + (1 - share) * (b - a - width * share) := le_add_of_nonneg_right hgain
    _ = mixture a b width share := by
        unfold mixture
        ring
    _ = smoothMin a b width := hshare.symm

/-- The smooth minimum is below both values if these differ by less than the width. -/
theorem smoothMin_lt_min (hw : 0 < width) (h : |a - b| < width) : smoothMin a b width < min a b
  := by
  obtain ⟨hlow, hhigh⟩ := abs_lt.mp h
  have hpos : 0 < balance a b width := by
    unfold balance
    field_simp
    linarith
  have hlt : balance a b width < 1 := by
    unfold balance
    field_simp
    linarith
  have hvertex := smoothMin_le_mixture hw a b hpos.le hlt.le
  have hfirst := mixture_eq hw a b 1
  rw [mixture_eq hw, sub_self, zero_pow two_ne_zero, mul_zero, add_zero] at hvertex
  rw [mixture, mul_one, sub_self, mul_zero, mul_zero, add_zero, sub_zero] at hfirst
  have hleft : 0 < width * (1 - balance a b width) ^ 2 := by
    have := sub_pos.mpr hlt
    positivity
  have hright : 0 < width * balance a b width ^ 2 := by positivity
  apply lt_min
  · linarith
  · linarith

theorem smoothMin_eq_min_iff (hw : 0 < width) (a b : K) :
  smoothMin a b width = min a b ↔ width ≤ |a - b|
  := by
  constructor
  · intro h
    by_contra hnear
    exact (smoothMin_lt_min hw (not_le.mp hnear)).ne h
  · intro h
    rcases le_total a b with hab | hab
    · rw [abs_of_nonpos (sub_nonpos.mpr hab), neg_sub] at h
      rw [smoothMin_of_le hw h, min_eq_left hab]
    · rw [abs_of_nonneg (sub_nonneg.mpr hab)] at h
      rw [smoothMin_comm hw, smoothMin_of_le hw h, min_eq_right hab]

/-! ### Both extrema -/

/-- A blend of two values that rounds an extremum off: it does not depend on their order, is
monotone in both, stays within some bounds about the extremum, and is the extremum exactly where
the values differ by the width or more. -/
structure RoundsOff (extremum : K → K → K) (width below above : K) (blend : K → K → K) :
    Prop where
  comm : ∀ a b, blend a b = blend b a
  lower : ∀ a b, extremum a b - below ≤ blend a b
  upper : ∀ a b, blend a b ≤ extremum a b + above
  eq_iff : ∀ a b, blend a b = extremum a b ↔ width ≤ |a - b|
  mono : ∀ a a' b b', a ≤ a' → b ≤ b' → blend a b ≤ blend a' b'

theorem roundsOff_smoothMin (hw : 0 < width) :
  RoundsOff min width (width / 4) 0 fun a b => smoothMin a b width
  where
  comm := smoothMin_comm hw
  lower := min_sub_le_smoothMin hw
  upper a b := by
    rw [add_zero]
    apply smoothMin_le_min hw
  eq_iff := smoothMin_eq_min_iff hw
  mono _ _ _ _ := smoothMin_mono hw

/-- Turned upside down, a blend rounds the opposite extremum off. -/
theorem RoundsOff.neg {extremum blend : K → K → K} {below above : K}
    (h : RoundsOff extremum width below above blend) :
  RoundsOff (fun a b => -extremum (-a) (-b)) width above below fun a b => -blend (-a) (-b)
  where
  comm a b := by rw [h.comm]
  lower a b := by linarith [h.upper (-a) (-b)]
  upper a b := by linarith [h.lower (-a) (-b)]
  eq_iff a b := by rw [neg_inj, h.eq_iff, ← neg_sub', abs_neg]
  mono a a' b b' ha hb := neg_le_neg (h.mono _ _ _ _ (neg_le_neg ha) (neg_le_neg hb))

/-- The smooth extrema round the extrema off, the minimum downwards and the maximum upwards, by a
quarter of the width at most. -/
theorem roundsOff_smooth (hw : 0 < width) :
  RoundsOff min width (width / 4) 0 (fun a b => smoothMin a b width)
    ∧ RoundsOff max width 0 (width / 4) (fun a b => smoothMax a b width)
  := by
  have hmax : (max : K → K → K) = fun a b => -min (-a) (-b) := by
    funext a b
    rw [min_neg_neg, neg_neg]
  use roundsOff_smoothMin hw
  rw [hmax]
  apply (roundsOff_smoothMin hw).neg

/-- Values that differ by half the width are rounded off, by a quarter of the width at most; values
that differ by the width are not. -/
theorem roundsOff_smooth_unit :
  (0 : ℚ) < 1 ∧ 7 / 4 ≤ smoothMin (2 : ℚ) (5 / 2) 1 ∧ smoothMin (2 : ℚ) (5 / 2) 1 < 2
    ∧ smoothMax (2 : ℚ) 3 1 = 3
  := by
  have hunit : (0 : ℚ) < 1 := zero_lt_one
  obtain ⟨hmin, hmax⟩ := roundsOff_smooth hunit
  have hlower := hmin.lower 2 (5 / 2)
  have hupper := hmin.upper 2 (5 / 2)
  have hnear := hmin.eq_iff 2 (5 / 2)
  have hfar := hmax.eq_iff 2 3
  norm_num at hlower hupper hnear hfar
  exact ⟨hunit, hlower, lt_of_le_of_ne hupper hnear, hfar⟩

end AssetCanvas.Blend
