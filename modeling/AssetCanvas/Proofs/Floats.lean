import AssetCanvas.Number.Binary64
import Mathlib

/-!
# Finite floats

Every integer of fewer than 200 bits has a nearest float, `Binary64.exists_ofInt?`.  A float is
computed by operations that give a mantissa and an exponent, `UnpackedFloat`, which are then
packed; the packed float is finite if the exponent is small enough.  `Binary64.Below` bounds the
exponent, and every operation on the way to the float of an integer keeps it bounded.
`Binary64.Normal` bounds it from below, for a mantissa of full length, so that the float of a
positive integer is not zero: `Binary64.ofInt_bne_zero`.  The finite floats are those with an
integer part: `Binary64.truncate?_eq_none_iff`, `Binary64.floor?_eq_none_iff`.
-/

namespace AssetCanvas.Binary64

open Float.Model Float.Model.UnpackedFloat

/-- A finite float whose exponent is at most `bound`. -/
inductive Below (bound : Int) : UnpackedFloat → Prop where
  | zero (s : Sign) : Below bound (.zero s)
  | finite {s : Sign} {m : Nat} {e : Int} {hm : 0 < m} (h : e ≤ bound) :
    Below bound (.finite s m e hm)

theorem Below.mono {a b : Int} {x : UnpackedFloat} (h : Below a x) (hle : a ≤ b) : Below b x
  := by
  cases h with
  | zero s => apply Below.zero
  | finite he => apply Below.finite (Int.le_trans he hle)

theorem Below.isFinite {b : Int} {x : UnpackedFloat} (h : Below b x) : UnpackedFloat.isFinite x
  := by
  cases h <;> rfl

/-! ### Rounding -/

theorem mantissa_shiftRight (em : ExtendedMantissa) (n : Nat) :
  (em >>> n).mantissa = em.mantissa / 2 ^ n
  := by
  change (n.repeat ExtendedMantissa.shiftRightOne em).mantissa = em.mantissa / 2 ^ n
  induction n with
  | zero => rw [Nat.repeat, Nat.pow_zero, Nat.div_one]
  | succ n ih =>
    rw [Nat.repeat, ExtendedMantissa.shiftRightOne, ih, Nat.div_div_eq_div_mul, Nat.pow_succ]

/-- A multiple of a power of two is shifted without loss. -/
theorem shiftRight_of_dvd {m n : Nat} (h : 2 ^ n ∣ m) :
  (⟨m, false, false⟩ : ExtendedMantissa) >>> n = ⟨m / 2 ^ n, false, false⟩
  := by
  change n.repeat ExtendedMantissa.shiftRightOne ⟨m, false, false⟩ = _
  induction n with
  | zero => rw [Nat.repeat, Nat.pow_zero, Nat.div_one]
  | succ n ih =>
    obtain ⟨c, rfl⟩ := h
    have hfactor : 2 ^ (n + 1) * c = 2 ^ n * (2 * c) := by rw [Nat.pow_succ, Nat.mul_assoc]
    rw [Nat.repeat, ih ⟨2 * c, hfactor⟩, hfactor, Nat.mul_div_cancel_left _ (Nat.two_pow_pos n),
      ← hfactor, Nat.mul_div_cancel_left _ (Nat.two_pow_pos _)]
    simp [ExtendedMantissa.shiftRightOne]

theorem roundedMantissa_bounds (em : ExtendedMantissa) :
  em.mantissa ≤ em.roundedMantissa ∧ em.roundedMantissa ≤ em.mantissa + 1
  := by
  obtain ⟨m, _ | _, _ | _⟩ := em <;>
    simp only [ExtendedMantissa.roundedMantissa, ExtendedMantissa.accuracy,
      Accuracy.roundToNearestEven] <;> omega

theorem mantissa_ofMantissaAndAccuracy (m : Nat) (accuracy : Accuracy) :
  (ExtendedMantissa.ofMantissaAndAccuracy m accuracy).mantissa = m
  := by
  cases accuracy with
  | exact => rfl
  | inexact order => cases order <;> rfl

theorem mantissa_shiftToTargetExponent (m : Nat) (e : Int) (accuracy : Accuracy) :
  (shiftToTargetExponent .binary64 m e accuracy).1.mantissa
    = m / 2 ^ (Format.binary64.targetExponent (totalExponent m e) - e).toNat
  := by
  rw [shiftToTargetExponent, shiftToExponent, mantissa_shiftRight, mantissa_ofMantissaAndAccuracy]

/-- A mantissa is shifted until it has 53 bits, or until the exponent is the least one. -/
theorem targetExponent_totalExponent (m : Nat) (e : Int) :
  Format.binary64.targetExponent (totalExponent m e) = max (e + m.log2 - 52) (-1074)
  := by
  simp only [Format.targetExponent, totalExponent, Format.mantissaBits, Format.minExponent]
  omega

theorem toNat_targetExponent (m : Nat) {e : Int} (he : -1074 ≤ e) :
  (Format.binary64.targetExponent (totalExponent m e) - e).toNat = m.log2 - 52
  := by
  rw [targetExponent_totalExponent]
  omega

theorem lt_two_pow_log2 (m : Nat) : m < 2 ^ 53 * 2 ^ (m.log2 - 52)
  := by
  rw [← Nat.pow_add]
  apply Nat.lt_of_lt_of_le Nat.lt_log2_self
  apply Nat.pow_le_pow_right (by decide)
  omega

theorem div_two_pow_log2_lt (m : Nat) : m / 2 ^ (m.log2 - 52) < 2 ^ 53
  := by
  rw [Nat.div_lt_iff_lt_mul (Nat.two_pow_pos _)]
  apply lt_two_pow_log2

theorem shiftToTargetExponent_le {m k : Nat} {e : Int} (accuracy : Accuracy) (h : m < 2 ^ k) :
  (shiftToTargetExponent .binary64 m e accuracy).2 ≤ max (e + k) (-1074)
  := by
  have hlog : m.log2 ≤ k := by
    by_cases hm : m = 0
    · simp [hm]
    · apply Nat.le_of_lt
      rwa [Nat.log2_lt hm]
  rw [shiftToTargetExponent, shiftToExponent, targetExponent_totalExponent]
  omega

/-- Rounding raises the exponent by no more than the bits of the mantissa, which are dropped
twice: rounding up may make the mantissa too long once more. -/
theorem below_roundWithAccuracy (s : Sign) {m k : Nat} (e : Int) (accuracy : Accuracy)
    (h : m < 2 ^ k) :
  Below (max (e + 2 * k + 1) k) (roundWithAccuracy .binary64 s m e accuracy)
  := by
  have hrounded := (roundedMantissa_bounds (shiftToTargetExponent .binary64 m e accuracy).1).2
  have hmantissa : (shiftToTargetExponent .binary64 m e accuracy).1.mantissa ≤ m := by
    rw [mantissa_shiftToTargetExponent]
    apply Nat.div_le_self
  have hfirst := shiftToTargetExponent_le (e := e) accuracy h
  have hlong : (shiftToTargetExponent .binary64 m e accuracy).1.roundedMantissa < 2 ^ (k + 1) := by
    rw [Nat.pow_succ]
    omega
  have hsecond := shiftToTargetExponent_le
    (e := (shiftToTargetExponent .binary64 m e accuracy).2) .exact hlong
  simp only [roundWithAccuracy]
  split
  · apply Below.zero
  · apply Below.finite
    omega

theorem below_round (s : Sign) {m k : Nat} (h : m < 2 ^ k) :
  Below (2 * k + 107) (UnpackedFloat.round .binary64 s m 0)
  := by
  have hshift : (0 - Format.binary64.targetExponent (totalExponent m 0)).toNat ≤ 52 := by
    rw [targetExponent_totalExponent]
    omega
  simp only [UnpackedFloat.round, decreaseExponent]
  generalize (0 - Format.binary64.targetExponent (totalExponent m 0)).toNat = shift at hshift
  have hlong : m <<< shift < 2 ^ (k + 52) := by
    rw [Nat.shiftLeft_eq, Nat.pow_add]
    apply Nat.mul_lt_mul_of_lt_of_le h
    · apply Nat.pow_le_pow_right (by decide) hshift
    · apply Nat.two_pow_pos
  apply (below_roundWithAccuracy s _ .exact hlong).mono
  omega

/-! ### Packing -/

theorem mantissa_unpack_lt {b : BitVec Format.binary64.numBits} {s : Sign} {m : Nat} {e : Int}
    {hm : 0 < m} (h : UnpackedFloat.unpack .binary64 b = .finite s m e hm) :
  m < 2 ^ 53
  := by
  simp only [UnpackedFloat.unpack] at h
  split at h
  · split at h <;> cases h
  · split at h
    · split at h
      · cases h
      · cases h
        apply Nat.lt_trans (BitVec.isLt _)
        decide
    · cases h
      apply BitVec.isLt

/-- A float with a small exponent is packed as a finite one. -/
theorem below_unpack_pack {x : UnpackedFloat} {b : Int} (h : Below b x) (hlow : -1074 ≤ b)
    (hhigh : b < 972) :
  Below b (UnpackedFloat.unpack .binary64 (UnpackedFloat.pack .binary64 x))
  := by
  have hbias : Format.binary64.exponentBias = 1023 := rfl
  cases h with
  | zero s =>
    simp only [UnpackedFloat.pack, packedZero, UnpackedFloat.unpack, unpackExponent_packComponents,
      unpackMantissa_packComponents]
    rw [if_neg (by decide)]
    apply Below.zero
  | @finite s m e hm he =>
    simp only [UnpackedFloat.pack, hbias]
    rw [if_neg (by simp; omega)]
    split
    · -- a normal float keeps its exponent, which is not the greatest one
      simp only [UnpackedFloat.unpack, unpackExponent_packComponents,
        unpackMantissa_packComponents, hbias, BitVec.toNat_ofNat]
      rw [if_neg]
      · split
        · rename_i hzero
          have hbits := congrArg BitVec.toNat hzero
          simp only [BitVec.toNat_ofNat] at hbits
          split
          · apply Below.zero
          · apply Below.finite
            omega
        · rename_i hzero
          have hbits : BitVec.toNat _ ≠ 0 := fun heq => hzero (BitVec.eq_of_toNat_eq heq)
          rw [BitVec.toNat_ofNat] at hbits
          apply Below.finite
          omega
      · intro hones
        have hbits := congrArg BitVec.toNat hones
        simp at hbits
        omega
    · -- a subnormal float has the least exponent
      simp only [UnpackedFloat.unpack, unpackExponent_packComponents,
        unpackMantissa_packComponents, hbias]
      rw [if_neg (by decide)]
      simp only [if_true]
      split
      · apply Below.zero
      · apply Below.finite
        simp only [BitVec.toNat_ofNat]
        omega

/-! ### Numbers -/

theorem below_ofNat {n k : Nat} (h : n < 2 ^ k) :
  Below (2 * k + 107) (UnpackedFloat.ofNat .binary64 n)
  := by
  simp only [UnpackedFloat.ofNat, UnpackedFloat.ofInt, UnpackedFloat.normalize]
  split
  · rename_i hlt
    rw [compare_lt_iff_lt] at hlt
    omega
  · apply Below.zero
  · apply below_round
    simpa using h

theorem ofScientific_eq_mul {n : Nat} (h : 0 < n) :
  UnpackedFloat.ofScientific .binary64 n 0
    = UnpackedFloat.mul .binary64
      (.finite .positive (n <<< 53) (-53) (by simpa [Nat.pos_iff_ne_zero] using Nat.ne_of_gt h))
      (.finite .positive 1 0 Nat.one_pos)
  := by
  have hexp : (0 : Int) ≤ 2 ^ Format.binary64.exponentBits := by decide
  rw [UnpackedFloat.ofScientific, dif_neg (Nat.ne_of_gt h), if_neg (by omega), if_neg (by omega),
    if_pos (Int.le_refl 0)]
  rfl

theorem below_ofScientific {n k : Nat} (h : n < 2 ^ k) (hpos : 0 < n) :
  Below (2 * k + 54) (UnpackedFloat.ofScientific .binary64 n 0)
  := by
  have hlong : (n <<< 53) * 1 < 2 ^ (k + 53) := by
    rw [Nat.mul_one, Nat.shiftLeft_eq, Nat.pow_add]
    apply Nat.mul_lt_mul_of_pos_right h (Nat.two_pow_pos 53)
  rw [ofScientific_eq_mul hpos]
  apply (below_roundWithAccuracy .positive (-53) .exact hlong).mono
  omega

/-- The float one. -/
def one : UnpackedFloat := .finite .positive (2 ^ 52) (-52) (by decide)

/-- The first power of ten is one. -/
theorem unpack_powerOfTen (h : 0 < Float.exactlyRepresentablePowersOfTen.size) :
  Float.Model.unpack (Float.exactlyRepresentablePowersOfTen[0]).toModel = one
  := by
  have hfirst : Float.exactlyRepresentablePowersOfTen[0] = Float.ofBits 0x3FF0000000000000 := by
    simp [Float.exactlyRepresentablePowersOfTen]
  rw [hfirst]
  rfl

theorem below_mul_one {x : UnpackedFloat} {b : Int} (h : Below b x)
    (hm : ∀ s m e hm, x = .finite s m e hm → m < 2 ^ 53) :
  Below (max (b + 159) 105) (UnpackedFloat.mul .binary64 x one)
  := by
  cases h with
  | zero s => apply Below.zero
  | @finite s m e hpos he =>
    have hlong : m * 2 ^ 52 < 2 ^ 105 := by
      have hlt := hm s m e hpos rfl
      omega
    apply (below_roundWithAccuracy _ _ .exact hlong).mono
    omega

/-- A number of at most 53 bits is packed, and then multiplied by one. -/
theorem unpack_float {n : Nat} (h : n < 2 ^ 53) :
  (Float.ofNat n).toModel.unpack = UnpackedFloat.unpack .binary64 (UnpackedFloat.pack .binary64
    (UnpackedFloat.mul .binary64 (UnpackedFloat.unpack .binary64 (UnpackedFloat.pack .binary64
      (UnpackedFloat.ofNat .binary64 n))) one))
  := by
  have hscientific : Float.ofNat n = Float.ofScientific n false 0 := rfl
  have hword : n.toUInt64.toNat = n := by
    simp
    omega
  rw [hscientific, Float.ofScientific, dif_pos ⟨h, by decide⟩]
  simp only [Bool.false_eq_true, if_false]
  change UnpackedFloat.unpack _ (UnpackedFloat.pack _
    (UnpackedFloat.mul _ (UnpackedFloat.unpack _ (UnpackedFloat.pack _
        (UnpackedFloat.ofNat _ n.toUInt64.toNat)))
      (Float.Model.unpack (Float.exactlyRepresentablePowersOfTen[0]).toModel))) = _
  rw [unpack_powerOfTen, hword]

/-- The float of a number has a bounded exponent. -/
theorem below_float {n : Nat} (h : n < 2 ^ 200) : Below 900 (Float.ofNat n).toModel.unpack
  := by
  by_cases hword : n < 2 ^ 53
  · have hfirst := below_unpack_pack (below_ofNat hword) (by decide) (by decide)
    have hsecond := below_mul_one hfirst fun s m e hm => mantissa_unpack_lt
    rw [unpack_float hword]
    apply (below_unpack_pack hsecond (by decide) (by decide)).mono (by decide)
  · have hpos : 0 < n := by omega
    have hscientific : Float.ofNat n = Float.ofScientific n false 0 := rfl
    rw [hscientific, Float.ofScientific, dif_neg fun hexact => hword hexact.1]
    apply (below_unpack_pack (below_ofScientific h hpos) (by decide) (by decide)).mono (by decide)

theorem Below.neg {b : Int} {x : UnpackedFloat} (h : Below b x) : Below b (UnpackedFloat.neg x)
  := by
  cases h with
  | zero s => apply Below.zero
  | finite he => apply Below.finite he

theorem isFinite_ofInt {n : Int} (h : n.natAbs < 2 ^ 200) : (Float.ofInt n).isFinite
  := by
  cases n with
  | ofNat n => apply (below_float h).isFinite
  | negSucc n => apply (below_unpack_pack (below_float h).neg (by decide) (by decide)).isFinite

/-- An integer of fewer than 200 bits has a nearest float. -/
theorem exists_ofInt? {n : Int} (h : n.natAbs < 2 ^ 200) : ∃ x, ofInt? n = some x
  := by
  use Float.ofInt n
  simp only [ofInt?]
  rw [if_pos]
  apply isFinite_ofInt h

/-! ### Floats that are not zero -/

/-- A float with a mantissa of all 53 bits and an exponent of at least `bound`. -/
inductive Normal (bound : Int) : UnpackedFloat → Prop where
  | finite {s : Sign} {m : Nat} {e : Int} {hm : 0 < m} (hlong : m.log2 = 52) (h : bound ≤ e) :
    Normal bound (.finite s m e hm)

theorem Normal.mono {a b : Int} {x : UnpackedFloat} (h : Normal a x) (hle : b ≤ a) : Normal b x
  := by
  cases h with
  | finite hlong he => apply Normal.finite hlong (Int.le_trans hle he)

theorem log2_shiftToTargetExponent {m : Nat} {e : Int} (accuracy : Accuracy) (hm : 52 ≤ m.log2)
    (he : -1074 ≤ e) :
  (shiftToTargetExponent .binary64 m e accuracy).1.mantissa.log2 = 52
  := by
  rw [mantissa_shiftToTargetExponent, toNat_targetExponent m he, Nat.log2_eq_log_two,
    Nat.log_div_base_pow, ← Nat.log2_eq_log_two]
  omega

theorem le_shiftToTargetExponent (m : Nat) (e : Int) (accuracy : Accuracy) :
  e ≤ (shiftToTargetExponent .binary64 m e accuracy).2
  := by
  simp only [shiftToTargetExponent, shiftToExponent]
  omega

/-- Rounding drops the bits beyond the 53 that a float has. -/
theorem normal_roundWithAccuracy (s : Sign) {m : Nat} {e : Int} (accuracy : Accuracy)
    (hm : 52 ≤ m.log2) (he : -1074 ≤ e) :
  Normal e (roundWithAccuracy .binary64 s m e accuracy)
  := by
  have hfirst := log2_shiftToTargetExponent accuracy hm he
  have hexponent := le_shiftToTargetExponent m e accuracy
  have hrounded := (roundedMantissa_bounds (shiftToTargetExponent .binary64 m e accuracy).1).1
  simp only [roundWithAccuracy]
  generalize shiftToTargetExponent .binary64 m e accuracy = first at *
  have hlong : 52 ≤ first.1.roundedMantissa.log2 := by
    rw [← hfirst, Nat.log2_eq_log_two, Nat.log2_eq_log_two]
    apply Nat.log_mono_right hrounded
  have hsecond := log2_shiftToTargetExponent .exact hlong (Int.le_trans he hexponent)
  have hne : (shiftToTargetExponent .binary64 first.1.roundedMantissa first.2 .exact).1.mantissa
      ≠ 0 := by
    intro hzero
    rw [hzero] at hsecond
    cases hsecond
  rw [dif_neg hne]
  apply Normal.finite hsecond
  exact Int.le_trans hexponent (le_shiftToTargetExponent _ _ _)

theorem normal_ofNat {n : Nat} (h : 0 < n) : Normal (-52) (UnpackedFloat.ofNat .binary64 n)
  := by
  have hcompare : compare (n : Int) 0 = .gt := by
    rw [compare_gt_iff_gt]
    omega
  have hshift : (0 - Format.binary64.targetExponent (totalExponent n 0)).toNat = 52 - n.log2 := by
    rw [targetExponent_totalExponent]
    omega
  have hlong : 52 ≤ (n <<< (52 - n.log2)).log2 := by
    have hpos : 0 < n * 2 ^ (52 - n.log2) := Nat.mul_pos h (Nat.two_pow_pos _)
    rw [Nat.shiftLeft_eq, Nat.le_log2 (Nat.ne_of_gt hpos)]
    calc 2 ^ 52
      _ ≤ 2 ^ (n.log2 + (52 - n.log2)) := Nat.pow_le_pow_right (by decide) (by omega)
      _ = 2 ^ n.log2 * 2 ^ (52 - n.log2) := Nat.pow_add ..
      _ ≤ n * 2 ^ (52 - n.log2) := Nat.mul_le_mul_right _ (Nat.log2_self_le (Nat.ne_of_gt h))
  simp only [UnpackedFloat.ofNat, UnpackedFloat.ofInt, UnpackedFloat.normalize, hcompare,
    UnpackedFloat.round, decreaseExponent, Int.toNat_natCast, hshift]
  apply (normal_roundWithAccuracy _ _ hlong (by omega)).mono
  omega

theorem Normal.mul_one {x : UnpackedFloat} {b : Int} (h : Normal b x) (hb : -1022 ≤ b) :
  Normal (b - 52) (UnpackedFloat.mul .binary64 x one)
  := by
  cases h with
  | @finite s m e hm hlong he =>
    have hproduct : 52 ≤ (m * 2 ^ 52).log2 := by
      rw [Nat.le_log2 (by omega)]
      omega
    have hround : Normal (e + -52) (UnpackedFloat.mul .binary64 (.finite s m e hm) one) := by
      apply normal_roundWithAccuracy _ _ hproduct
      omega
    apply hround.mono
    omega

theorem log2_append (bits : BitVec 52) : (1#1 ++ bits).toNat.log2 = 52
  := by
  have hsplit : (1#1 ++ bits).toNat = 1 <<< 52 + bits.toNat := by
    rw [BitVec.toNat_append, Nat.shiftLeft_add_eq_or_of_lt bits.isLt]
    rfl
  have hlt := bits.isLt
  rw [Nat.log2_eq_iff] <;> omega

/-- Packing keeps a normal float that is not too large. -/
theorem Normal.unpack_pack {x : UnpackedFloat} {a b : Int} (h : Normal a x) (hbelow : Below b x)
    (hlow : -1074 ≤ a) (hhigh : b < 972) :
  Normal a (UnpackedFloat.unpack .binary64 (UnpackedFloat.pack .binary64 x))
  := by
  have hbias : Format.binary64.exponentBias = 1023 := rfl
  cases h with
  | @finite s m e hm hlong he =>
    cases hbelow with
    | finite he' =>
      simp only [UnpackedFloat.pack, hbias]
      rw [if_neg (by simp; omega), if_pos (by rw [hlong]; rfl)]
      simp only [UnpackedFloat.unpack, unpackExponent_packComponents,
        unpackMantissa_packComponents, hbias, BitVec.toNat_ofNat]
      rw [if_neg, if_neg]
      · apply Normal.finite
        · apply log2_append
        · simp
          omega
      · intro hzero
        have hbits := congrArg BitVec.toNat hzero
        simp at hbits
        omega
      · intro hones
        have hbits := congrArg BitVec.toNat hones
        simp at hbits
        omega

/-- The float of a positive number of at most 53 bits is not zero. -/
theorem ofInt_bne_zero {n : Nat} (hpos : 0 < n) (h : n < 2 ^ 53) :
  (Float.ofInt n == 0.0) = false
  := by
  have hfirst := (normal_ofNat hpos).unpack_pack (below_ofNat h) (by decide) (by decide)
  have hbelow := below_mul_one (below_unpack_pack (below_ofNat h) (by decide) (by decide))
    fun s m e hm => mantissa_unpack_lt
  have hnormal := (hfirst.mul_one (by decide)).unpack_pack hbelow (by decide) (by decide)
  have hbits : (0.0 : Float).toBits = 0 := by decide +kernel
  have hzero : (0.0 : Float).toModel.unpack = .zero .positive := by
    change UnpackedFloat.unpack .binary64 (0.0 : Float).toBits.toBitVec = _
    rw [hbits]
    rfl
  change UnpackedFloat.beq (Float.ofNat n).toModel.unpack _ = false
  rw [unpack_float h, hzero]
  generalize UnpackedFloat.unpack _ _ = x at hnormal
  cases hnormal with
  | @finite s => cases s <;> rfl

/-! ### Integer parts -/

theorem toNat_unpackExponent (x : Float) :
  (@UnpackedFloat.unpackExponent .binary64 x.toBits.toBitVec).toNat
    = (x.toBits >>> 52).toNat % 0x800
  := by
  simp [UnpackedFloat.unpackExponent, Format.binary64, BitVec.extractLsb]

/-- A float is finite unless all bits of its exponent are ones. -/
theorem isFinite_iff (x : Float) : x.isFinite = true ↔ (x.toBits >>> 52).toNat % 0x800 ≠ 2047
  := by
  have hones : @UnpackedFloat.unpackExponent .binary64 x.toBits.toBitVec = -1#_
      ↔ (@UnpackedFloat.unpackExponent .binary64 x.toBits.toBitVec).toNat = 2047 := by
    rw [← BitVec.toNat_inj]
    rfl
  have hunpack : x.isFinite = (UnpackedFloat.unpack .binary64 x.toBits.toBitVec).isFinite := rfl
  rw [← toNat_unpackExponent, ne_eq, ← hones, hunpack]
  simp only [UnpackedFloat.unpack]
  split
  · split <;> simp_all [UnpackedFloat.isFinite]
  · split
    · split <;> simp_all [UnpackedFloat.isFinite]
    · simp_all [UnpackedFloat.isFinite]

theorem decode?_eq_none_iff {x : Float} : decode? x = none ↔ x.isFinite = false
  := by
  rw [← Bool.not_eq_true, isFinite_iff, decode?]
  split
  · simp_all
  · split <;> simp_all

theorem floor?_eq_none_iff {x : Float} : floor? x = none ↔ x.isFinite = false
  := by
  rw [floor?, Option.map_eq_none_iff, decode?_eq_none_iff]

theorem truncate?_eq_none_iff {x : Float} : truncate? x = none ↔ x.isFinite = false
  := by
  rw [truncate?, parts?, Option.map_eq_none_iff, Option.map_eq_none_iff, decode?_eq_none_iff]

end AssetCanvas.Binary64
