import AssetCanvas.Proofs.ExactValues

/-!
# Magnitudes

A float is a magnitude if it is a number without a sign, `Binary64.Magnitude`; infinity is the
greatest one.  Magnitudes are ordered by `≤` in the strict sense: there is no negative zero, so two
that are equal as numbers are the same, `Binary64.Magnitude.eq_of_le_of_le`.  The square root of a
sum that begins with zero is a magnitude, if it is a number: `Binary64.magnitude_sqrt`.
-/

namespace AssetCanvas.Binary64

open Float.Model Float.Model.UnpackedFloat

/-! ### Floats without a sign -/

/-- The unpacked floats without a sign. -/
inductive Unsigned : UnpackedFloat → Prop where
  | notANumber : Unsigned .notANumber
  | infinity : Unsigned (.infinity .positive)
  | zero : Unsigned (.zero .positive)
  | finite {m : Nat} {e : Int} {hm : 0 < m} : Unsigned (.finite .positive m e hm)

/-- The sign of a float is its sign bit. -/
theorem unsigned_unpack_packComponents (exponent : BitVec 11) (mantissa : BitVec 52) :
  Unsigned (UnpackedFloat.unpack .binary64
    (packComponents .binary64 .positive exponent mantissa))
  := by
  simp only [UnpackedFloat.unpack, unpackSign_packComponents, Sign.ofBitVec_toBitVec]
  split
  · split
    · apply Unsigned.infinity
    · apply Unsigned.notANumber
  · split
    · split
      · apply Unsigned.zero
      · apply Unsigned.finite
    · apply Unsigned.finite

theorem Unsigned.unpack_pack {u : UnpackedFloat} (h : Unsigned u) :
  Unsigned (UnpackedFloat.unpack .binary64 (UnpackedFloat.pack .binary64 u))
  := by
  cases h with
  | finite =>
    simp only [UnpackedFloat.pack]
    split
    · apply unsigned_unpack_packComponents
    · split <;> apply unsigned_unpack_packComponents
  | _ => apply unsigned_unpack_packComponents

/-- Only the negative zero has a square root with a sign. -/
theorem unsigned_sqrt {x : Float} (h : Plain x) : Unsigned x.sqrt.toModel.unpack
  := by
  change Unsigned (UnpackedFloat.unpack .binary64 (UnpackedFloat.pack .binary64
    (UnpackedFloat.sqrt .binary64 x.toModel.unpack)))
  apply Unsigned.unpack_pack
  rw [Plain] at h
  cases hx : x.toModel.unpack with
  | notANumber => apply Unsigned.notANumber
  | infinity s =>
    cases s with
    | positive => apply Unsigned.infinity
    | negative => apply Unsigned.notANumber
  | zero s =>
    cases s with
    | positive => apply Unsigned.zero
    | negative => exact absurd hx h
  | finite s m e hm =>
    cases s with
    | negative => apply Unsigned.notANumber
    | positive =>
      simp only [UnpackedFloat.sqrt, roundWithAccuracy]
      split
      · apply Unsigned.zero
      · apply Unsigned.finite

theorem plain_foldl_add {x : Float} (h : Plain x) (ys : List Float) : Plain (ys.foldl (· + ·) x)
  := by
  induction ys generalizing x with
  | nil => exact h
  | cons y rest ih => exact ih (h.add y)

/-! ### Magnitudes -/

/-- A number without a sign. -/
structure Magnitude (x : Float) : Prop where
  unsigned : Unsigned x.toModel.unpack
  number : x.isNaN = false

/-- The square root of a sum that begins with zero. -/
theorem magnitude_sqrt {ys : List Float} (h : (ys.foldl (· + ·) 0.0).sqrt.isNaN = false) :
  Magnitude (ys.foldl (· + ·) 0.0).sqrt
  := ⟨unsigned_sqrt (plain_foldl_add plain_zero ys), h⟩

theorem unpack_infinity : infinity.toModel.unpack = .infinity .positive
  := by
  have hbits : infinity.toBits = 0x7FF0000000000000 := by decide +kernel
  change UnpackedFloat.unpack .binary64 infinity.toBits.toBitVec = _
  rw [hbits]
  rfl

theorem magnitude_infinity : Magnitude infinity
  := by
  constructor
  · rw [unpack_infinity]
    apply Unsigned.infinity
  · rw [← Bool.not_eq_true, isNaN_iff, unpack_infinity]
    rintro ⟨⟩

theorem units_infinity : units infinity = some (ceiling : Int)
  := by
  rw [units, unpack_infinity]
  rfl

theorem le_of_le_of_le {x y z : Float} (h : x ≤ y) (h' : y ≤ z) : x ≤ z
  := by
  obtain ⟨a, b, ha, hb, hab⟩ := le_iff.mp h
  obtain ⟨b', c, hb', hc, hbc⟩ := le_iff.mp h'
  obtain rfl := Option.some.inj (hb.symm.trans hb')
  exact le_iff.mpr ⟨a, c, ha, hc, hab.trans hbc⟩

namespace Magnitude

variable {x y z : Float}

/-- The value of a magnitude is between zero and infinity. -/
theorem exists_units (h : Magnitude x) : ∃ a, units x = some a ∧ 0 ≤ a ∧ a ≤ ceiling
  := by
  obtain ⟨hunsigned, hnumber⟩ := h
  have hcanonical := canonical_unpack x
  rw [← Bool.not_eq_true, isNaN_iff] at hnumber
  rw [units]
  generalize x.toModel.unpack = u at *
  cases hunsigned with
  | notANumber => exact absurd rfl hnumber
  | infinity => exact ⟨ceiling, rfl, Int.natCast_nonneg _, le_rfl⟩
  | zero => exact ⟨0, rfl, le_rfl, Int.natCast_nonneg _⟩
  | @finite m e hm =>
    cases hcanonical with
    | finite hrounded he =>
      refine ⟨size m e, rfl, Int.natCast_nonneg _, ?_⟩
      exact_mod_cast (hrounded.size_lt_ceiling he).le

theorem le_infinity (h : Magnitude x) : x ≤ infinity
  := by
  obtain ⟨a, ha, -, hle⟩ := h.exists_units
  exact le_iff.mpr ⟨a, ceiling, ha, units_infinity, hle⟩

theorem le_or_le (hx : Magnitude x) (hy : Magnitude y) : x ≤ y ∨ y ≤ x
  := by
  obtain ⟨a, ha, -⟩ := hx.exists_units
  obtain ⟨b, hb, -⟩ := hy.exists_units
  rcases le_total a b with hab | hba
  · exact .inl (le_iff.mpr ⟨a, b, ha, hb, hab⟩)
  · exact .inr (le_iff.mpr ⟨b, a, hb, ha, hba⟩)

theorem lt_iff_not_le (hx : Magnitude x) (hy : Magnitude y) : x < y ↔ ¬ y ≤ x
  := by
  obtain ⟨a, ha, -⟩ := hx.exists_units
  obtain ⟨b, hb, -⟩ := hy.exists_units
  rw [lt_iff, le_iff]
  simp [ha, hb]

/-- Magnitudes that are equal as numbers are the same. -/
theorem eq_of_beq (hx : Magnitude x) (hy : Magnitude y) (h : (x == y) = true) : x = y
  := by
  have hne : ∀ {z : Float}, Magnitude z → z ≠ -0 := by
    rintro _ hz rfl
    have hunpack : (-0 : Float).toModel.unpack = .zero .negative := rfl
    have hunsigned := hz.unsigned
    rw [hunpack] at hunsigned
    cases hunsigned
  obtain ⟨-, -, heq | ⟨-, hzero⟩ | ⟨hzero, -⟩⟩ := Float.beq_iff_ne_nan_and_eq.mp h
  · exact heq
  · exact absurd hzero (hne hy)
  · exact absurd hzero (hne hx)

theorem eq_of_le_of_le (hx : Magnitude x) (hy : Magnitude y) (h : x ≤ y) (h' : y ≤ x) : x = y
  := by
  obtain ⟨a, b, ha, hb, hab⟩ := le_iff.mp h
  obtain ⟨b', a', hb', ha', hba⟩ := le_iff.mp h'
  obtain rfl := Option.some.inj (ha.symm.trans ha')
  obtain rfl := Option.some.inj (hb.symm.trans hb')
  obtain rfl := le_antisymm hab hba
  exact hx.eq_of_beq hy (beq_iff_units.mpr ⟨a, ha, hb⟩)

end Magnitude

/-! ### Exact values -/

theorem exists_units_of_value? {x : Float} {q : ℚ}
    (h : (Number.float x).value? = some (.finite q)) :
  ∃ a, units x = some a ∧ q = a * 2 ^ (-1074 : Int)
  := by
  rw [Number.value?_float] at h
  obtain ⟨a, ha, hq⟩ := Option.map_eq_some_iff.mp h
  use a, ha
  rw [Number.ofUnits] at hq
  split at hq
  · cases hq
  · split at hq
    · cases hq
    · exact (Exact.finite.inj hq).symm

/-- Floats have their exact values in order. -/
theorem value?_mono {x y : Float} (h : x ≤ y) {q r : ℚ}
    (hx : (Number.float x).value? = some (.finite q))
    (hy : (Number.float y).value? = some (.finite r)) :
  q ≤ r
  := by
  obtain ⟨a, ha, rfl⟩ := exists_units_of_value? hx
  obtain ⟨b, hb, rfl⟩ := exists_units_of_value? hy
  obtain ⟨a', b', ha', hb', hab⟩ := le_iff.mp h
  obtain rfl := Option.some.inj (ha.symm.trans ha')
  obtain rfl := Option.some.inj (hb.symm.trans hb')
  have hle : (a : ℚ) ≤ b := by exact_mod_cast hab
  gcongr

theorem Magnitude.value?_nonneg {x : Float} (h : Magnitude x) {q : ℚ}
    (hx : (Number.float x).value? = some (.finite q)) :
  0 ≤ q
  := by
  obtain ⟨a, ha, rfl⟩ := exists_units_of_value? hx
  obtain ⟨a', ha', hpos, -⟩ := h.exists_units
  obtain rfl := Option.some.inj (ha.symm.trans ha')
  have hnonneg : (0 : ℚ) ≤ a := by exact_mod_cast hpos
  positivity

end AssetCanvas.Binary64
