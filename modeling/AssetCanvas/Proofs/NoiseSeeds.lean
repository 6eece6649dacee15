import AssetCanvas.Preview.Density.Noise
import AssetCanvas.Proofs.Fault
import Mathlib.Data.Int.ModEq
import Mathlib.RingTheory.Coprime.Lemmas

/-!
# Derived seeds

The seed of a noise is a residue modulo the number of seeds, a power of two.  The factor of the
evaluation seed is odd and so has an inverse: of one field two evaluation seeds derive the same
seed only if they are congruent, `NoiseSeed.derive_eq_iff_modEq`.  So a preview with another seed
has other noise at every noise node, `Density.noiseSeed_reseeded_iff`.
-/

namespace AssetCanvas

namespace NoiseSeed

theorem range_eq : range = 2 ^ 31 := rfl

/-- Derived seeds fit into 31 bits. -/
theorem derive_bounds (field : Json) (base : Int) :
  0 ≤ derive field base ∧ derive field base < 2 ^ 31
  := by
  rw [← range_eq]
  constructor
  · apply Int.emod_nonneg
    decide
  · apply Int.emod_lt_of_pos
    decide

theorem isCoprime_range_factor : IsCoprime range factor
  := by
  rw [Int.isCoprime_iff_gcd_eq_one]
  decide

/-- The factor can be cancelled. -/
theorem mul_factor_modEq_iff (base base' : Int) :
  base * factor ≡ base' * factor [ZMOD range] ↔ base ≡ base' [ZMOD range]
  := by
  constructor
  · intro h
    rw [Int.modEq_iff_dvd, ← Int.sub_mul] at h
    rw [Int.modEq_iff_dvd]
    apply isCoprime_range_factor.dvd_of_dvd_mul_right h
  · apply Int.ModEq.mul_right

/-- For one evaluation seed, fields derive the same seed exactly if the integers that they stand for
are congruent. -/
theorem derive_eq_iff_raw (field field' : Json) (base : Int) :
  derive field base = derive field' base ↔ raw field ≡ raw field' [ZMOD range]
  := Int.emod_add_cancel_right (base * factor)

/-- For one field, evaluation seeds derive the same seed exactly if they are congruent. -/
theorem derive_eq_iff_base (field : Json) (base base' : Int) :
  derive field base = derive field base' ↔ base ≡ base' [ZMOD range]
  := by
  rw [← mul_factor_modEq_iff]
  apply Int.emod_add_cancel_left

/-- Two evaluation seeds of one field, and two integers under one evaluation seed, derive the same
seed exactly if they are congruent modulo the number of seeds. -/
theorem derive_eq_iff_modEq :
  (∀ (field : Json) (base base' : Int),
      derive field base = derive field base' ↔ base ≡ base' [ZMOD 2 ^ 31])
    ∧ ∀ n n' base : Int,
      derive (.int n) base = derive (.int n') base ↔ n ≡ n' [ZMOD 2 ^ 31]
  := by
  rw [← range_eq]
  constructor
  · apply derive_eq_iff_base
  · intro n n' base
    apply derive_eq_iff_raw

end NoiseSeed

namespace Density

/-- A noise node whose seed can be read derives the same one under another evaluation seed exactly if
the evaluation seeds are congruent. -/
theorem noiseSeed_reseeded_iff {s : Scope} {n : Int} (h : noiseSeed s = .ok n) (seed : Int) :
  noiseSeed { s with seed := seed } = .ok n ↔ seed ≡ s.seed [ZMOD NoiseSeed.range]
  := by
  obtain ⟨field, hfield, hseed⟩ := Fault.bind_eq_ok_iff.mp h
  replace hfield : Scope.field { s with seed := seed } "Seed" = .ok field := hfield
  have hother : NoiseSeed.ofField field seed = .ok (NoiseSeed.derive field seed)
      ∧ n = NoiseSeed.derive field s.seed := by
    rw [NoiseSeed.ofField] at hseed ⊢
    split at hseed
    · exact ⟨rfl, (Except.ok.inj hseed).symm⟩
    · obtain ⟨text, htext, hderive⟩ := Fault.bind_eq_ok_iff.mp hseed
      rw [htext]
      exact ⟨rfl, (Except.ok.inj hderive).symm⟩
  obtain ⟨hother, rfl⟩ := hother
  rw [noiseSeed, hfield, Fault.ok_bind, hother, Except.ok.injEq, NoiseSeed.derive_eq_iff_base]

end Density

end AssetCanvas
