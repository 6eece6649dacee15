import AssetCanvas.Json.Number
import AssetCanvas.Proofs.Floats
import Mathlib

/-!
# The order of floats

A float that is a number has a value in units of the least positive float, `Binary64.units`,
where an infinity counts as more units than any finite float has.  The values order the floats,
`Binary64.lt_iff`, and a value other than zero belongs to one float only,
`Binary64.eq_of_units`.  Rounding does not pass a float, `Binary64.Rounds`, so adding a positive
float to another one gives no lesser float, and a greater one if any other:
`Binary64.exists_units_add`.
-/

namespace AssetCanvas

namespace Binary64

open Float.Model Float.Model.UnpackedFloat

/-! ### Mantissas and exponents -/

/-- The value of `m * 2 ^ e` in units of the least positive float. -/
def size (m : Nat) (e : Int) : Nat := m * 2 ^ (e + 1074).toNat

/-- The number of units that stands for infinity: those of the least power of two that no finite
float reaches. -/
@[irreducible] def ceiling : Nat := size (2 ^ 52) 972

/-- A mantissa and an exponent as a float has them, of any size: the mantissa has no more than 53
bits, and no less unless the exponent is the least one. -/
structure Rounded (m : Nat) (e : Int) : Prop where
  short : m < 2 ^ 53
  least : -1074 ≤ e
  full : 2 ^ 52 ≤ m ∨ e = -1074

theorem size_add (m : Nat) {e : Int} (h : -1074 ≤ e) (d : Nat) :
  size m (e + d) = m * 2 ^ d * 2 ^ (e + 1074).toNat
  := by
  have hexponent : (e + d + 1074).toNat = d + (e + 1074).toNat := by omega
  rw [size, hexponent, Nat.pow_add, Nat.mul_assoc]

theorem size_pos {m : Nat} (h : 0 < m) (e : Int) : 0 < size m e
  := Nat.mul_pos h (Nat.two_pow_pos _)

namespace Rounded

variable {m m' : Nat} {e e' : Int}

theorem size_lt_size (h : Rounded m e) (h' : Rounded m' e') (hlt : e < e') :
  size m e < size m' e'
  := by
  obtain ⟨d, rfl⟩ : ∃ d : Nat, e' = e + (d + 1 : Nat) := ⟨(e' - e - 1).toNat, by omega⟩
  have hfull : 2 ^ 52 ≤ m' := by
    have := h.least
    obtain hfull | hleast := h'.full
    · exact hfull
    · omega
  rw [size_add m' h.least]
  apply Nat.mul_lt_mul_of_pos_right _ (Nat.two_pow_pos _)
  calc m
    _ < 2 ^ 53 := h.short
    _ ≤ 2 ^ 52 * 2 ^ (d + 1) := by
      rw [← Nat.pow_add]
      exact Nat.pow_le_pow_right (by decide) (by omega)
    _ ≤ m' * 2 ^ (d + 1) := Nat.mul_le_mul_right _ hfull

theorem size_lt_ceiling (h : Rounded m e) (he : e ≤ 971) : size m e < ceiling
  := by
  have hceiling : Rounded (2 ^ 52) 972 := ⟨by decide, by decide, .inl le_rfl⟩
  unfold ceiling
  apply h.size_lt_size hceiling
  omega

theorem ceiling_le_size (h : Rounded m e) (he : 971 < e) : ceiling ≤ size m e
  := by
  have hceiling : Rounded (2 ^ 52) 972 := ⟨by decide, by decide, .inl le_rfl⟩
  unfold ceiling
  obtain rfl | hlt : e = 972 ∨ 972 < e := by omega
  · obtain hfull | hleast := h.full
    · apply Nat.mul_le_mul_right _ hfull
    · omega
  · exact Nat.le_of_lt (hceiling.size_lt_size h hlt)

/-- A float is a multiple of a power of two, or less than any mantissa of full length times it. -/
theorem multiple_or_lt (h : Rounded m e) (t : Nat) :
  (∃ c, size m e = c * 2 ^ t) ∨ size m e < 2 ^ 52 * 2 ^ t
  := by
  obtain hlt | hle := Nat.lt_or_ge (e + 1074).toNat t
  · right
    calc size m e
      _ < 2 ^ 53 * 2 ^ (e + 1074).toNat := Nat.mul_lt_mul_of_pos_right h.short (Nat.two_pow_pos _)
      _ ≤ 2 ^ 52 * 2 ^ t := by
        rw [← Nat.pow_add, ← Nat.pow_add]
        exact Nat.pow_le_pow_right (by decide) (by omega)
  · left
    use m * 2 ^ ((e + 1074).toNat - t)
    rw [size, Nat.mul_assoc, ← Nat.pow_add, Nat.sub_add_cancel hle]

/-- The exponents are compared first, and then the mantissas. -/
theorem compare_size (h : Rounded m e) (h' : Rounded m' e') :
  (compare e e').then (compare m m') = compare (size m e : Int) (size m' e')
  := by
  obtain hlt | rfl | hgt := lt_trichotomy e e'
  · have hsize := h.size_lt_size h' hlt
    rw [compare_lt_iff_lt.mpr hlt, compare_lt_iff_lt.mpr (Int.ofNat_lt.mpr hsize)]
    rfl
  · have hpow := Nat.two_pow_pos (e + 1074).toNat
    have hcompare : compare (size m e : Int) (size m' e) = compare m m' := by
      obtain hlt | rfl | hgt := lt_trichotomy m m'
      · have hsize : size m e < size m' e := Nat.mul_lt_mul_of_pos_right hlt hpow
        rw [compare_lt_iff_lt.mpr hlt, compare_lt_iff_lt.mpr (Int.ofNat_lt.mpr hsize)]
      · rw [compare_eq_iff_eq.mpr rfl, compare_eq_iff_eq.mpr rfl]
      · have hsize : size m' e < size m e := Nat.mul_lt_mul_of_pos_right hgt hpow
        rw [compare_gt_iff_gt.mpr hgt, compare_gt_iff_gt.mpr (Int.ofNat_lt.mpr hsize)]
    rw [compare_eq_iff_eq.mpr rfl, hcompare]
    rfl
  · have hsize := h'.size_lt_size h hgt
    rw [compare_gt_iff_gt.mpr hgt, compare_gt_iff_gt.mpr (Int.ofNat_lt.mpr hsize)]
    rfl

end Rounded

/-! ### Unpacked floats -/

/-- The unpacked forms of floats. -/
inductive Canonical : UnpackedFloat → Prop where
  | notANumber : Canonical .notANumber
  | infinity (s : Sign) : Canonical (.infinity s)
  | zero (s : Sign) : Canonical (.zero s)
  | finite {s : Sign} {m : Nat} {e : Int} {hm : 0 < m} (h : Rounded m e) (he : e ≤ 971) :
    Canonical (.finite s m e hm)

theorem toNat_append_one (bits : BitVec 52) : (1#1 ++ bits).toNat = 2 ^ 52 + bits.toNat
  := by
  rw [BitVec.toNat_append, ← Nat.shiftLeft_add_eq_or_of_lt bits.isLt]
  rfl

theorem canonical_unpack (x : Float) : Canonical x.toModel.unpack
  := by
  have hbias : ((Format.binary64.exponentBias : Nat) : Int) = 1023 := rfl
  have hbits : ((Format.binary64.mantissaBitsWithoutImplicit : Nat) : Int) = 52 := rfl
  change Canonical (UnpackedFloat.unpack .binary64 x.toBits.toBitVec)
  generalize x.toBits.toBitVec = b
  simp only [UnpackedFloat.unpack]
  have hlong : (@UnpackedFloat.unpackMantissa .binary64 b).toNat < 2 ^ 52 := BitVec.isLt _
  have hmost : (@UnpackedFloat.unpackExponent .binary64 b).toNat < 2 ^ 11 := BitVec.isLt _
  split
  · split
    · apply Canonical.infinity
    · apply Canonical.notANumber
  next hones =>
    have hne : (@UnpackedFloat.unpackExponent .binary64 b).toNat ≠ 2 ^ 11 - 1 :=
      fun h => hones (BitVec.eq_of_toNat_eq h)
    split
    next hzero =>
      have hleast : (@UnpackedFloat.unpackExponent .binary64 b).toNat = 0 := by
        rw [hzero]
        rfl
      split
      · apply Canonical.zero
      · apply Canonical.finite
        · constructor <;> omega
        · omega
    next hzero =>
      have hpos : (@UnpackedFloat.unpackExponent .binary64 b).toNat ≠ 0 :=
        fun h => hzero (BitVec.eq_of_toNat_eq h)
      have happend := toNat_append_one (@UnpackedFloat.unpackMantissa .binary64 b)
      apply Canonical.finite
      · constructor
        · exact happend ▸ (by omega)
        · omega
        · exact .inl (happend ▸ (by omega))
      · omega

/-- The value of an unpacked float in units of the least positive float. -/
@[simp] def unitsOf : UnpackedFloat → Option Int
  | .notANumber => none
  | .infinity s => some (s.apply ceiling)
  | .zero _ => some 0
  | .finite s m e _ => some (s.apply (size m e))

@[simp] theorem apply_positive (n : Int) : Sign.positive.apply n = n := rfl

@[simp] theorem apply_negative (n : Int) : Sign.negative.apply n = -n := rfl

theorem compare_neg_neg (a b : Int) : compare (-a) (-b) = (compare a b).swap
  := by
  obtain hlt | rfl | hgt := lt_trichotomy a b
  · rw [compare_lt_iff_lt.mpr hlt, compare_gt_iff_gt.mpr (Int.neg_lt_neg hlt)]
    rfl
  · rw [compare_eq_iff_eq.mpr rfl, compare_eq_iff_eq.mpr rfl]
    rfl
  · rw [compare_gt_iff_gt.mpr hgt, compare_lt_iff_lt.mpr (Int.neg_lt_neg hgt)]
    rfl

theorem ceiling_pos : 0 < ceiling
  := by
  unfold ceiling
  apply size_pos (by decide)

/-- Unpacked floats are compared by their values. -/
theorem Canonical.compare_eq {x y : UnpackedFloat} (hx : Canonical x) (hy : Canonical y) :
  x.compare y = (unitsOf x).bind fun a => (unitsOf y).map fun b => compare a b
  := by
  have hceiling := ceiling_pos
  symm
  cases hx with
  | notANumber => rfl
  | infinity s =>
    cases hy with
    | notANumber => cases s <;> rfl
    | infinity s' =>
      cases s <;> cases s' <;> apply congrArg some
      · exact compare_eq_iff_eq.mpr rfl
      · exact compare_lt_iff_lt.mpr (by simp; omega)
      · exact compare_gt_iff_gt.mpr (by simp; omega)
      · exact compare_eq_iff_eq.mpr rfl
    | zero s' =>
      cases s <;> simp [UnpackedFloat.compare, compare_lt_iff_lt, compare_gt_iff_gt, hceiling]
    | @finite s' m' e' hm' h he =>
      have hsize := h.size_lt_ceiling he
      cases s <;> cases s' <;>
        simp [UnpackedFloat.compare, compare_lt_iff_lt, compare_gt_iff_gt] <;> omega
  | zero s =>
    cases hy with
    | notANumber => rfl
    | infinity s' =>
      cases s' <;> simp [UnpackedFloat.compare, compare_lt_iff_lt, compare_gt_iff_gt, hceiling]
    | zero s' => rfl
    | @finite s' m' e' hm' h he =>
      have hpos := size_pos hm' e'
      cases s' <;> simp [UnpackedFloat.compare, compare_lt_iff_lt, compare_gt_iff_gt, hpos]
  | @finite s m e hm h he =>
    have hpos := size_pos hm e
    have hsize := h.size_lt_ceiling he
    cases hy with
    | notANumber => cases s <;> rfl
    | infinity s' =>
      cases s <;> cases s' <;>
        simp [UnpackedFloat.compare, compare_lt_iff_lt, compare_gt_iff_gt] <;> omega
    | zero s' =>
      cases s <;> simp [UnpackedFloat.compare, compare_lt_iff_lt, compare_gt_iff_gt, hpos]
    | @finite s' m' e' hm' h' he' =>
      have hpos' := size_pos hm' e'
      cases s <;> cases s' <;>
        simp [UnpackedFloat.compare, compare_neg_neg, h.compare_size h', compare_lt_iff_lt,
          compare_gt_iff_gt] <;> omega

/-! ### Floats -/

/-- The value of a float in units of the least positive float; none for what is no number. -/
def units (x : Float) : Option Int := unitsOf x.toModel.unpack

theorem lt_iff {x y : Float} : x < y ↔ ∃ a b, units x = some a ∧ units y = some b ∧ a < b
  := by
  have hlt : x < y ↔ (x.toModel.unpack.compare y.toModel.unpack == some .lt) = true :=
    decide_eq_true_iff
  rw [hlt, (canonical_unpack x).compare_eq (canonical_unpack y), ← units, ← units]
  cases units x with
  | none => simp
  | some a =>
    cases units y with
    | none => simp
    | some b => simp [compare_lt_iff_lt]

theorem le_iff {x y : Float} : x ≤ y ↔ ∃ a b, units x = some a ∧ units y = some b ∧ a ≤ b
  := by
  have hle : x ≤ y ↔ (x.toModel.unpack.compare y.toModel.unpack).any Ordering.isLE = true :=
    decide_eq_true_iff
  rw [hle, (canonical_unpack x).compare_eq (canonical_unpack y), ← units, ← units]
  cases units x with
  | none => simp
  | some a =>
    cases units y with
    | none => simp
    | some b => simp [← Ordering.ne_gt_iff_isLE, compare_le_iff_le]

theorem lt_of_lt_of_le {x y z : Float} (h : x < y) (h' : y ≤ z) : x < z
  := by
  obtain ⟨a, b, ha, hb, hlt⟩ := lt_iff.mp h
  obtain ⟨b', c, hb', hc, hle⟩ := le_iff.mp h'
  obtain rfl := Option.some.inj (hb.symm.trans hb')
  exact lt_iff.mpr ⟨a, c, ha, hc, Int.lt_of_lt_of_le hlt hle⟩

/-- A value other than zero belongs to one float only. -/
theorem eq_of_units {x y : Float} {a : Int} (hx : units x = some a) (hy : units y = some a)
    (ha : a ≠ 0) :
  x = y
  := by
  have hbeq : x == y := by
    have hbeq : (x == y) = (x.toModel.unpack.compare y.toModel.unpack == some .eq) := rfl
    rw [hbeq, (canonical_unpack x).compare_eq (canonical_unpack y), ← units, ← units, hx, hy]
    simp
  have hzero : ∀ z : Float, (z = 0 ∨ z = -0) → units z = some 0 := by
    rintro z (rfl | rfl) <;> rfl
  obtain ⟨-, -, heq | ⟨hzero', -⟩ | ⟨hzero', -⟩⟩ := Float.beq_iff_ne_nan_and_eq.mp hbeq
  · exact heq
  · have := hzero x (.inl hzero')
    simp_all
  · have := hzero x (.inr hzero')
    simp_all

/-! ### Rounding -/

/-- Rounding `m * 2 ^ e` to a float does not pass another one, and gives the float itself if there
is one of this value. -/
structure Rounds (m : Nat) (e : Int) (m' : Nat) (e' : Int) : Prop where
  rounded : Rounded m' e'
  le_of_lt {k : Nat} {f : Int} : Rounded k f → size k f < size m e → size k f ≤ size m' e'
  ge_of_gt {k : Nat} {f : Int} : Rounded k f → size m e < size k f → size m' e' ≤ size k f
  eq_of_eq {k : Nat} {f : Int} : Rounded k f → size m e = size k f → size m' e' = size k f

theorem le_div_two_pow_log2 {m : Nat} (h : 2 ^ 52 ≤ m) : 2 ^ 52 ≤ m / 2 ^ (m.log2 - 52)
  := by
  have hlog : 52 ≤ m.log2 := (Nat.le_log2 (by omega)).mpr h
  rw [Nat.le_div_iff_mul_le (Nat.two_pow_pos _), ← Nat.pow_add]
  have hsum : 52 + (m.log2 - 52) = m.log2 := by omega
  rw [hsum]
  apply Nat.log2_self_le
  omega

/-- A mantissa that has become one bit too long loses a zero. -/
theorem carry {r : Nat} (h : r ≤ 2 ^ 53) : r / 2 ^ (r.log2 - 52) * 2 ^ (r.log2 - 52) = r
  := by
  obtain rfl | hlt := Nat.eq_or_lt_of_le h
  · decide +kernel
  · have hlog : r.log2 - 52 = 0 := by
      by_cases hr : r = 0
      · simp [hr]
      · have := (Nat.log2_lt hr).mpr hlt
        omega
    rw [hlog, Nat.pow_zero, Nat.div_one, Nat.mul_one]

/-- The mantissa is shifted right to at most 53 bits, rounded, and shifted once more if rounding has
made it too long.  Nothing is lost of a multiple of the last place. -/
theorem exists_roundWithAccuracy (s : Sign) {m : Nat} {e : Int} (hm : 0 < m) (he : -1074 ≤ e)
    (hfull : 2 ^ 52 ≤ m ∨ e = -1074) :
  ∃ r m' e' hm', roundWithAccuracy .binary64 s m e .exact = .finite s m' e' hm'
    ∧ Rounded m' e' ∧ size m' e' = r * 2 ^ (m.log2 - 52) * 2 ^ (e + 1074).toNat
    ∧ m / 2 ^ (m.log2 - 52) ≤ r ∧ r ≤ m / 2 ^ (m.log2 - 52) + 1
    ∧ (2 ^ (m.log2 - 52) ∣ m → r = m / 2 ^ (m.log2 - 52))
  := by
  have hfirst : shiftToTargetExponent .binary64 m e .exact
      = ((⟨m, false, false⟩ : ExtendedMantissa) >>> (m.log2 - 52), e + (m.log2 - 52 : Nat)) := by
    rw [shiftToTargetExponent, shiftToExponent, toNat_targetExponent m he]
    rfl
  generalize hr : ((⟨m, false, false⟩ : ExtendedMantissa) >>> (m.log2 - 52)).roundedMantissa = r
  have hbounds : m / 2 ^ (m.log2 - 52) ≤ r ∧ r ≤ m / 2 ^ (m.log2 - 52) + 1 := by
    have := roundedMantissa_bounds ((⟨m, false, false⟩ : ExtendedMantissa) >>> (m.log2 - 52))
    rwa [mantissa_shiftRight, hr] at this
  have hpos : 0 < m / 2 ^ (m.log2 - 52) := by
    apply Nat.div_pos _ (Nat.two_pow_pos _)
    calc 2 ^ (m.log2 - 52)
      _ ≤ 2 ^ m.log2 := Nat.pow_le_pow_right (by decide) (by omega)
      _ ≤ m := Nat.log2_self_le (by omega)
  have hexact : 2 ^ (m.log2 - 52) ∣ m → r = m / 2 ^ (m.log2 - 52) := by
    intro hdvd
    rw [← hr, shiftRight_of_dvd hdvd]
    rfl
  have hshort := div_two_pow_log2_lt m
  have hcarry := carry (by omega : r ≤ 2 ^ 53)
  have hpos' : 0 < r / 2 ^ (r.log2 - 52) := by
    apply Nat.pos_of_ne_zero
    intro hzero
    rw [hzero] at hcarry
    omega
  have hsecond : (shiftToTargetExponent .binary64 r (e + (m.log2 - 52 : Nat)) .exact).1.mantissa
      = r / 2 ^ (r.log2 - 52) := by
    rw [mantissa_shiftToTargetExponent, toNat_targetExponent r (by omega)]
  have hexponent : (shiftToTargetExponent .binary64 r (e + (m.log2 - 52 : Nat)) .exact).2
      = e + (m.log2 - 52 : Nat) + (r.log2 - 52 : Nat) := by
    rw [shiftToTargetExponent, shiftToExponent, toNat_targetExponent r (by omega)]
  refine ⟨r, r / 2 ^ (r.log2 - 52), e + (m.log2 - 52 : Nat) + (r.log2 - 52 : Nat), hpos', ?_,
    ⟨div_two_pow_log2_lt r, by omega, ?_⟩, ?_, hbounds.1, hbounds.2, hexact⟩
  · simp only [roundWithAccuracy, hfirst, hr, hsecond, hexponent]
    rw [dif_neg (by omega)]
  · obtain hlong | hlong := Nat.lt_or_ge m (2 ^ 52)
    · have hlog : m.log2 < 52 := (Nat.log2_lt (by omega)).mpr hlong
      rw [Nat.sub_eq_zero_of_le hlog.le, Nat.pow_zero, Nat.div_one] at hexact
      obtain rfl := hexact (one_dvd m)
      omega
    · have hquotient := le_div_two_pow_log2 hlong
      exact .inl (le_div_two_pow_log2 (by omega))
  · rw [size_add _ (by omega), hcarry]
    have hshift : (e + (m.log2 - 52 : Nat) + 1074).toNat
        = m.log2 - 52 + (e + 1074).toNat := by omega
    rw [hshift, Nat.pow_add, Nat.mul_assoc]

theorem rounds_of_bounds {m r m' : Nat} {e e' : Int} (hrounded : Rounded m' e')
    (hsize : size m' e' = r * 2 ^ (m.log2 - 52) * 2 ^ (e + 1074).toNat)
    (hlow : m / 2 ^ (m.log2 - 52) ≤ r) (hhigh : r ≤ m / 2 ^ (m.log2 - 52) + 1)
    (hexact : 2 ^ (m.log2 - 52) ∣ m → r = m / 2 ^ (m.log2 - 52)) :
  Rounds m e m' e'
  := by
  have hsame : 2 ^ (m.log2 - 52) ∣ m → size m' e' = size m e := by
    intro hdvd
    rw [hsize, hexact hdvd, Nat.div_mul_cancel hdvd, size]
  by_cases hlog : m.log2 ≤ 52
  · have hsame := hsame (by rw [Nat.sub_eq_zero_of_le hlog, Nat.pow_zero]; exact one_dvd m)
    constructor
    · exact hrounded
    · intro k f hk hlt
      omega
    · intro k f hk hgt
      omega
    · intro k f hk heq
      omega
  · -- the exact value lies in a step of the grid of `2 ^ t`, and is rounded to one of its ends
    generalize ht : m.log2 - 52 + (e + 1074).toNat = t
    have hstep : 2 ^ (m.log2 - 52) * 2 ^ (e + 1074).toNat = 2 ^ t := by rw [← Nat.pow_add, ht]
    have hdiv : m / 2 ^ (m.log2 - 52) = size m e / 2 ^ t := by
      rw [size, ← hstep, Nat.mul_div_mul_right _ _ (Nat.two_pow_pos _)]
    have hfull : 2 ^ 52 ≤ m / 2 ^ (m.log2 - 52) := by
      apply le_div_two_pow_log2
      rw [← Nat.le_log2 (by rintro rfl; simp at hlog)]
      omega
    rw [Nat.mul_assoc, hstep] at hsize
    rw [hdiv] at hlow hhigh hfull
    have hle : 2 ^ 52 * 2 ^ t ≤ size m e := by
      apply Nat.le_trans (Nat.mul_le_mul_right _ hfull)
      apply Nat.div_mul_le_self
    constructor
    · exact hrounded
    · intro k f hk hlt
      rw [hsize]
      obtain ⟨c, hc⟩ | hsmall := hk.multiple_or_lt t
      · rw [hc] at hlt ⊢
        apply Nat.mul_le_mul_right
        apply Nat.le_trans _ hlow
        exact (Nat.le_div_iff_mul_le (Nat.two_pow_pos t)).mpr (Nat.le_of_lt hlt)
      · calc size k f
          _ ≤ 2 ^ 52 * 2 ^ t := Nat.le_of_lt hsmall
          _ ≤ r * 2 ^ t := Nat.mul_le_mul_right _ (Nat.le_trans hfull hlow)
    · intro k f hk hgt
      rw [hsize]
      obtain ⟨c, hc⟩ | hsmall := hk.multiple_or_lt t
      · rw [hc] at hgt ⊢
        apply Nat.mul_le_mul_right
        apply Nat.le_trans hhigh
        exact (Nat.div_lt_iff_lt_mul (Nat.two_pow_pos t)).mpr hgt
      · omega
    · intro k f hk heq
      obtain ⟨c, hc⟩ | hsmall := hk.multiple_or_lt t
      · have hdvd : 2 ^ (m.log2 - 52) ∣ m := by
          rw [hc, size, ← hstep, ← Nat.mul_assoc] at heq
          use c
          exact (Nat.eq_of_mul_eq_mul_right (Nat.two_pow_pos _) heq).trans (Nat.mul_comm _ _)
        rw [hsame hdvd, heq]
      · omega

theorem exists_round (s : Sign) {m : Nat} {e : Int} (hm : 0 < m) (he : -1074 ≤ e) :
  ∃ m' e' hm', UnpackedFloat.round .binary64 s m e = .finite s m' e' hm' ∧ Rounds m e m' e'
  := by
  -- a short mantissa is made as long as the least exponent allows
  have hshift : (e - Format.binary64.targetExponent (totalExponent m e)).toNat
      = min (52 - m.log2) (e + 1074).toNat := by
    rw [targetExponent_totalExponent]
    omega
  simp only [UnpackedFloat.round, decreaseExponent, hshift]
  generalize hd : min (52 - m.log2) (e + 1074).toNat = d
  have hpos : 0 < m <<< d := by
    rw [Nat.shiftLeft_eq]
    exact Nat.mul_pos hm (Nat.two_pow_pos d)
  have hlog : (m <<< d).log2 = m.log2 + d := by
    have hbounds := (Nat.log2_eq_iff (Nat.ne_of_gt hm)).mp rfl
    rw [Nat.log2_eq_iff (Nat.ne_of_gt hpos), Nat.shiftLeft_eq, Nat.pow_add, Nat.add_right_comm,
      Nat.pow_add]
    exact ⟨Nat.mul_le_mul_right _ hbounds.1,
      Nat.mul_lt_mul_of_pos_right hbounds.2 (Nat.two_pow_pos d)⟩
  have hsize : size (m <<< d) (e - d) = size m e := by
    rw [size, Nat.shiftLeft_eq, Nat.mul_assoc, ← Nat.pow_add, size]
    congr 2
    omega
  obtain ⟨r, m', e', hm', hround, hrounded, hsize', hlow, hhigh, hexact⟩ :=
    exists_roundWithAccuracy s hpos (by omega : -1074 ≤ e - d) (by
      rw [← Nat.le_log2 (Nat.ne_of_gt hpos)]
      omega)
  have hrounds := rounds_of_bounds hrounded hsize' hlow hhigh hexact
  exact ⟨m', e', hm', hround, hrounded, hsize ▸ hrounds.le_of_lt, hsize ▸ hrounds.ge_of_gt,
    hsize ▸ hrounds.eq_of_eq⟩

/-! ### Packing -/

/-- A mantissa of full length is packed without its first bit, which is known. -/
theorem unpack_packComponents_full (s : Sign) {m : Nat} {e : Int} (hm : 0 < m)
    (hfull : 2 ^ 52 ≤ m) (hshort : m < 2 ^ 53) (hleast : -1074 ≤ e) (he : e ≤ 971) :
  UnpackedFloat.unpack .binary64 (packComponents .binary64 s
      (BitVec.ofNat 11 (e + 1023 + 52).toNat) (BitVec.ofNat 52 m)) = .finite s m e hm
  := by
  have hbias : ((Format.binary64.exponentBias : Nat) : Int) = 1023 := rfl
  have hbits : ((Format.binary64.mantissaBitsWithoutImplicit : Nat) : Int) = 52 := rfl
  have hexponent : (BitVec.ofNat 11 (e + 1023 + 52).toNat).toNat = (e + 1075).toNat := by
    rw [BitVec.toNat_ofNat]
    omega
  have hmantissa : (1#1 ++ BitVec.ofNat 52 m).toNat = m := by
    rw [toNat_append_one, BitVec.toNat_ofNat]
    omega
  have hones : BitVec.ofNat 11 (e + 1023 + 52).toNat ≠ -1#11 := by
    intro heq
    rw [heq] at hexponent
    have : (-1#11).toNat = 2047 := rfl
    omega
  have hzero : BitVec.ofNat 11 (e + 1023 + 52).toNat ≠ 0#11 := by
    intro heq
    rw [heq] at hexponent
    have : (0#11).toNat = 0 := rfl
    omega
  simp only [UnpackedFloat.unpack, unpackExponent_packComponents, unpackMantissa_packComponents,
    unpackSign_packComponents, Sign.ofBitVec_toBitVec]
  rw [if_neg hones, if_neg hzero]
  simp only [UnpackedFloat.finite.injEq, true_and]
  refine ⟨hmantissa, ?_⟩
  rw [hbias, hbits]
  omega

/-- A shorter mantissa is packed as it is, with the least exponent. -/
theorem unpack_packComponents_short (s : Sign) {m : Nat} (hm : 0 < m) (hshort : m < 2 ^ 52) :
  UnpackedFloat.unpack .binary64 (packComponents .binary64 s 0#11 (BitVec.ofNat 52 m))
    = .finite s m (-1074) hm
  := by
  have hbias : ((Format.binary64.exponentBias : Nat) : Int) = 1023 := rfl
  have hbits : ((Format.binary64.mantissaBitsWithoutImplicit : Nat) : Int) = 52 := rfl
  have hmantissa : (BitVec.ofNat 52 m).toNat = m := by
    rw [BitVec.toNat_ofNat]
    omega
  have hzero : BitVec.ofNat 52 m ≠ 0#52 := by
    intro heq
    rw [heq] at hmantissa
    have : (0#52).toNat = 0 := rfl
    omega
  simp only [UnpackedFloat.unpack, unpackExponent_packComponents, unpackMantissa_packComponents,
    unpackSign_packComponents, Sign.ofBitVec_toBitVec]
  rw [if_neg (by decide), if_pos trivial, dif_neg hzero]
  simp only [UnpackedFloat.finite.injEq, true_and]
  refine ⟨hmantissa, ?_⟩
  rw [hbias, hbits]
  rfl

theorem Rounded.unpack_pack (s : Sign) {m : Nat} {e : Int} (hm : 0 < m) (h : Rounded m e) :
  UnpackedFloat.unpack .binary64 (UnpackedFloat.pack .binary64 (.finite s m e hm))
    = if e ≤ 971 then .finite s m e hm else .infinity s
  := by
  have hbias : ((Format.binary64.exponentBias : Nat) : Int) = 1023 := rfl
  have hbits : ((Format.binary64.mantissaBitsWithoutImplicit : Nat) : Int) = 52 := rfl
  have hleast := h.least
  simp only [UnpackedFloat.pack, hbias, hbits]
  split
  next hinfinite =>
    have he : ¬ e ≤ 971 := by
      simp at hinfinite
      omega
    rw [if_neg he]
    cases s <;> rfl
  next hfinite =>
    have he : e ≤ 971 := by
      simp at hfinite
      omega
    rw [if_pos he]
    split
    next hnormal =>
      have hfull : 2 ^ 52 ≤ m := by
        have hlog : m.log2 = 52 := Nat.add_right_cancel (hnormal : m.log2 + 1 = 52 + 1)
        exact hlog ▸ Nat.log2_self_le (Nat.ne_of_gt hm)
      exact unpack_packComponents_full s hm hfull h.short hleast he
    next hsubnormal =>
      have hshort : m < 2 ^ 52 := by
        have hlog : ¬ m.log2 = 52 := fun hlog => hsubnormal (congrArg (· + 1) hlog)
        have hmost : m.log2 < 53 := (Nat.log2_lt (Nat.ne_of_gt hm)).mpr h.short
        rw [← Nat.log2_lt (Nat.ne_of_gt hm)]
        omega
      obtain rfl : e = -1074 := by
        obtain hfull | hleast := h.full
        · omega
        · exact hleast
      exact unpack_packComponents_short s hm hshort

/-- The value of a packed float; what is too large becomes infinite. -/
theorem Rounded.unitsOf_unpack_pack (s : Sign) {m : Nat} {e : Int} (hm : 0 < m)
    (h : Rounded m e) :
  unitsOf (UnpackedFloat.unpack .binary64 (UnpackedFloat.pack .binary64 (.finite s m e hm)))
    = some (s.apply (min (size m e) ceiling))
  := by
  rw [h.unpack_pack s hm]
  split
  next he => rw [unitsOf, min_eq_left (Int.ofNat_le.mpr (Nat.le_of_lt (h.size_lt_ceiling he)))]
  next he => rw [unitsOf, min_eq_right (Int.ofNat_le.mpr (h.ceiling_le_size (by omega)))]

/-! ### Sums -/

/-- Rounding an integer times a power of two does not pass a lesser float, and changes no float. -/
theorem exists_unitsOf_normalize (n : Int) {e : Int} (he : -1074 ≤ e) :
  ∃ c, unitsOf (UnpackedFloat.unpack .binary64 (UnpackedFloat.pack .binary64
      (UnpackedFloat.normalize .binary64 n e .positive))) = some c
    ∧ ∀ (s : Sign) {k : Nat} {f : Int}, Rounded k f → f ≤ 971 →
      (s.apply (size k f) < n * 2 ^ (e + 1074).toNat → s.apply (size k f) ≤ c)
      ∧ (s.apply (size k f) = n * 2 ^ (e + 1074).toNat → s.apply (size k f) = c)
  := by
  have hpow : (0 : Int) < 2 ^ (e + 1074).toNat := by positivity
  obtain hneg | rfl | hpos := lt_trichotomy n 0
  · obtain ⟨m', e', hm', hround, hrounds⟩ :=
      exists_round .negative (by omega : 0 < (-n).toNat) he
    have hsize : (size (-n).toNat e : Int) = -(n * 2 ^ (e + 1074).toNat) := by
      rw [size, Nat.cast_mul, Int.toNat_of_nonneg (by omega)]
      push_cast
      ring
    simp only [UnpackedFloat.normalize, compare_lt_iff_lt.mpr hneg, hround,
      hrounds.rounded.unitsOf_unpack_pack]
    refine ⟨_, rfl, fun s k f hk hf => ?_⟩
    have hlt := hk.size_lt_ceiling hf
    have hleast := size_pos (by omega : 0 < (-n).toNat) e
    cases s with
    | positive =>
      rw [apply_positive, apply_negative]
      omega
    | negative =>
      rw [apply_negative, apply_negative]
      constructor
      · intro hlow
        have := hrounds.ge_of_gt hk (by omega)
        omega
      · intro hsame
        have := hrounds.eq_of_eq hk (by omega)
        omega
  · refine ⟨0, by simp [UnpackedFloat.normalize, UnpackedFloat.pack], fun s k f hk hf => ?_⟩
    omega
  · obtain ⟨m', e', hm', hround, hrounds⟩ :=
      exists_round .positive (by omega : 0 < n.toNat) he
    have hsize : (size n.toNat e : Int) = n * 2 ^ (e + 1074).toNat := by
      rw [size, Nat.cast_mul, Int.toNat_of_nonneg (by omega)]
      push_cast
      ring
    simp only [UnpackedFloat.normalize, compare_gt_iff_gt.mpr hpos, hround,
      hrounds.rounded.unitsOf_unpack_pack]
    refine ⟨_, rfl, fun s k f hk hf => ?_⟩
    have hlt := hk.size_lt_ceiling hf
    have hleast := size_pos (by omega : 0 < n.toNat) e
    cases s with
    | positive =>
      rw [apply_positive, apply_positive]
      constructor
      · intro hlow
        have := hrounds.le_of_lt hk (by omega)
        omega
      · intro hsame
        have := hrounds.eq_of_eq hk (by omega)
        omega
    | negative =>
      rw [apply_negative, apply_positive]
      omega

/-- The value of a mantissa does not change with its exponent. -/
theorem decreaseExponent_mul (m : Nat) {e e' : Int} (h : e' ≤ e) (he' : -1074 ≤ e') :
  (decreaseExponent m e e').1 * 2 ^ (e' + 1074).toNat = size m e
  := by
  simp only [decreaseExponent, Nat.shiftLeft_eq]
  rw [Nat.mul_assoc, ← Nat.pow_add, size]
  congr 2
  omega

theorem exists_unitsOf_add (s : Sign) {m m' : Nat} {e e' : Int} (hm : 0 < m) (hm' : 0 < m')
    (h : Rounded m e) (he : e ≤ 971) (h' : Rounded m' e') :
  ∃ c, unitsOf (UnpackedFloat.unpack .binary64 (UnpackedFloat.pack .binary64
      (UnpackedFloat.add .binary64 (.finite s m e hm) (.finite .positive m' e' hm')))) = some c
    ∧ s.apply (size m e) ≤ c
  := by
  have hleast := h.least
  have hleast' := h'.least
  have hvalue := decreaseExponent_mul m (min_le_left e e') (by omega)
  have hvalue' := decreaseExponent_mul m' (min_le_right e e') (by omega)
  simp only [UnpackedFloat.add]
  obtain ⟨c, hc, hle⟩ := exists_unitsOf_normalize (s.apply (decreaseExponent m e (min e e')).1
    + Sign.positive.apply (decreaseExponent m' e' (min e e')).1) (by omega : -1074 ≤ min e e')
  refine ⟨c, hc, (hle s h he).1 ?_⟩
  have hpos := size_pos hm' e'
  have happly : s.apply (decreaseExponent m e (min e e')).1 * 2 ^ (min e e' + 1074).toNat
      = s.apply (size m e) := by
    rw [← hvalue]
    cases s <;> simp
  rw [Int.add_mul, happly, apply_positive]
  have hadded : ((decreaseExponent m' e' (min e e')).1 : Int) * 2 ^ (min e e' + 1074).toNat
      = size m' e' := by
    rw [← hvalue']
    simp
  omega

/-- Adding a positive float gives no lesser float. -/
theorem exists_units_add {x y : Float} {a b : Int} (hx : units x = some a) (hy : units y = some b)
    (hpos : 0 < b) (hfinite : b < ceiling) :
  ∃ c, units (x + y) = some c ∧ a ≤ c ∧ (a = 0 → 0 < c)
  := by
  have hadd : units (x + y) = unitsOf (UnpackedFloat.unpack .binary64 (UnpackedFloat.pack .binary64
      (UnpackedFloat.add .binary64 x.toModel.unpack y.toModel.unpack))) := rfl
  rw [hadd]
  rw [units] at hx hy
  have hceiling := ceiling_pos
  have hxc := canonical_unpack x
  have hyc := canonical_unpack y
  generalize x.toModel.unpack = x at *
  generalize y.toModel.unpack = y at *
  cases hyc with
  | notANumber => cases hy
  | infinity s => cases s <;> simp at hy <;> omega
  | zero s => simp at hy; omega
  | @finite s' m' e' hm' h' he' =>
    obtain rfl : s' = .positive := by
      cases s' with
      | positive => rfl
      | negative => simp at hy; omega
    cases hxc with
    | notANumber => cases hx
    | infinity s =>
      have hsum : UnpackedFloat.add .binary64 (.infinity s) (.finite .positive m' e' hm')
          = .infinity s := rfl
      have hpack : UnpackedFloat.unpack .binary64 (UnpackedFloat.pack .binary64 (.infinity s))
          = .infinity s := by
        cases s <;> rfl
      rw [hsum, hpack]
      have hne : a ≠ 0 := by
        cases s <;> simp at hx <;> omega
      exact ⟨a, hx, le_rfl, fun hzero => absurd hzero hne⟩
    | zero s =>
      obtain rfl : 0 = a := Option.some.inj hx
      have hsum : UnpackedFloat.add .binary64 (.zero s) (.finite .positive m' e' hm')
          = .finite .positive m' e' hm' := rfl
      rw [hsum, h'.unpack_pack .positive hm', if_pos he']
      exact ⟨b, hy, Int.le_of_lt hpos, fun _ => hpos⟩
    | @finite s m e hm h he =>
      obtain ⟨c, hc, hle⟩ := exists_unitsOf_add s hm hm' h he h'
      obtain rfl : s.apply (size m e) = a := Option.some.inj hx
      refine ⟨c, hc, hle, fun hzero => ?_⟩
      have hsize := size_pos hm e
      cases s <;> simp at hzero <;> omega

/-- A sum with a positive float is greater or the same. -/
theorem lt_or_eq_add {x y : Float} {a b : Int} (hx : units x = some a) (hy : units y = some b)
    (hpos : 0 < b) (hfinite : b < ceiling) :
  x + y = x ∨ ∃ c, units (x + y) = some c ∧ a < c
  := by
  obtain ⟨c, hc, hle, hzero⟩ := exists_units_add hx hy hpos hfinite
  obtain hlt | rfl := Int.lt_or_eq_of_le hle
  · exact .inr ⟨c, hc, hlt⟩
  · by_cases ha : a = 0
    · have := hzero ha
      omega
    · exact .inl (eq_of_units hc hx ha)

theorem exists_units_of_isFinite {x : Float} (h : x.isFinite) :
  ∃ a, units x = some a ∧ a < ceiling
  := by
  have hfinite : x.isFinite = x.toModel.unpack.isFinite := rfl
  rw [hfinite] at h
  have hceiling := ceiling_pos
  have hx := canonical_unpack x
  rw [units]
  generalize x.toModel.unpack = x at *
  cases hx with
  | notANumber => cases h
  | infinity s => cases h
  | zero s => exact ⟨0, rfl, by omega⟩
  | @finite s m e hm hrounded he =>
    have hsize := hrounded.size_lt_ceiling he
    refine ⟨_, rfl, ?_⟩
    cases s <;> simp <;> omega

/-- What is no number is none after adding to it. -/
theorem units_add_of_none {x : Float} (h : units x = none) (y : Float) : units (x + y) = none
  := by
  have hadd : units (x + y) = unitsOf (UnpackedFloat.unpack .binary64 (UnpackedFloat.pack .binary64
      (UnpackedFloat.add .binary64 x.toModel.unpack y.toModel.unpack))) := rfl
  rw [hadd]
  rw [units] at h
  cases hx : x.toModel.unpack with
  | notANumber => simp [UnpackedFloat.add, UnpackedFloat.pack]
  | infinity s => simp [hx] at h
  | zero s => simp [hx] at h
  | finite s m e hm => simp [hx] at h

end Binary64

/-- Floats are compared as numbers as they are as floats. -/
theorem Number.lt_float {x y : Float} : Number.lt (.float x) (.float y) = true ↔ x < y
  := by
  rw [Number.lt, Number.compare]
  split
  next h => simp [h]
  next h =>
    simp only [h, iff_false, Bool.not_eq_true]
    split
    · rfl
    · split <;> rfl

end AssetCanvas
