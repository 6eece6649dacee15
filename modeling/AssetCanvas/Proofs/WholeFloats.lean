import AssetCanvas.Proofs.ExactValues
import Mathlib

/-!
# Whole floats

Every integer of at most 53 bits is a float, `Binary64.representable_whole`, and a sum of floats is
exact if it is a float, `Binary64.units_add`.  So small integers are added as floats without error,
`Binary64.units_ofInt_add`, and read back by their integer part, `Binary64.truncate?_of_units`.
-/

namespace AssetCanvas.Binary64

open Float.Model Float.Model.UnpackedFloat

/-! ### Exact sums -/

/-- The value of one in units of the least positive float. -/
@[irreducible] def oneUnits : Nat := size 1 0

theorem size_zero (m : Nat) : size m 0 = m * oneUnits
  := by
  unfold oneUnits
  rw [size, size, Nat.one_mul]

theorem size_natCast (m d : Nat) : size m d = m * 2 ^ d * oneUnits
  := by
  have hsize := size_add m (by decide : -1074 ≤ (0 : Int)) d
  rw [Int.zero_add] at hsize
  rw [hsize, Nat.mul_assoc, ← size, size_zero, Nat.mul_assoc, ← size_zero]

theorem oneUnits_pos : 0 < oneUnits
  := by
  unfold oneUnits
  exact size_pos Nat.one_pos 0

/-- Whether there is a float of a number of units. -/
def Representable (a : Int) : Prop :=
  ∃ (s : Sign) (m : Nat) (e : Int), Rounded m e ∧ e ≤ 971 ∧ s.apply (size m e) = a

theorem apply_mul (s : Sign) (n k : Nat) : s.apply n * k = s.apply (n * k : Nat)
  := by
  cases s <;> simp

theorem apply_mul_pow (s : Sign) (n k : Nat) : s.apply n * 2 ^ k = s.apply (n * 2 ^ k : Nat)
  := by
  cases s <;> simp

theorem apply_neg (s : Sign) (n : Int) : (-s).apply n = -s.apply n
  := by
  cases s with
  | positive => rfl
  | negative => exact (Int.neg_neg n).symm

theorem natAbs_apply (s : Sign) (n : Nat) : (s.apply n).natAbs = n
  := by
  cases s <;> simp

theorem Representable.natAbs_lt {a : Int} (h : Representable a) : a.natAbs < ceiling
  := by
  obtain ⟨s, m, e, hrounded, he, rfl⟩ := h
  rw [natAbs_apply]
  exact hrounded.size_lt_ceiling he

/-- A number of at most 53 bits has a mantissa and an exponent. -/
theorem exists_rounded {n : Nat} (h : n ≤ 2 ^ 53) :
  ∃ m e, Rounded m e ∧ e ≤ 971 ∧ size m e = size n 0
  := by
  obtain rfl | hpos := Nat.eq_zero_or_pos n
  · exact ⟨0, -1074, ⟨by decide, le_rfl, .inr rfl⟩, by decide, by simp only [size, Nat.zero_mul]⟩
  · obtain rfl | hlt := h.eq_or_lt
    · refine ⟨2 ^ 52, 1, ⟨by decide, by decide, .inl le_rfl⟩, by decide, ?_⟩
      have hone : (1 : Int) = 0 + (1 : Nat) := rfl
      rw [hone, size_add _ (by decide), size, ← Nat.pow_add]
    · -- the mantissa is shifted left until it is full
      have hlog : n.log2 < 53 := (Nat.log2_lt hpos.ne').mpr hlt
      obtain ⟨hlow, hhigh⟩ := (Nat.log2_eq_iff hpos.ne').mp rfl
      generalize hd : 52 - n.log2 = d
      have hpow : 2 ^ n.log2 * 2 ^ d = 2 ^ 52 := by
        rw [← Nat.pow_add]
        congr 1
        omega
      have hsize := size_add n (by omega : -1074 ≤ -(d : Int)) d
      rw [Int.add_left_neg] at hsize
      refine ⟨n * 2 ^ d, -d, ⟨?_, by omega, .inl ?_⟩, by omega, hsize.symm⟩
      · calc n * 2 ^ d
          _ < 2 ^ (n.log2 + 1) * 2 ^ d := Nat.mul_lt_mul_of_pos_right hhigh (Nat.two_pow_pos _)
          _ = 2 ^ 52 * 2 := by rw [Nat.pow_succ, Nat.mul_right_comm, hpow]
      · rw [← hpow]
        exact Nat.mul_le_mul_right _ hlow

/-- An integer of at most 53 bits is a float. -/
theorem representable_whole {n : Int} (h : n.natAbs ≤ 2 ^ 53) : Representable (n * oneUnits)
  := by
  have hsign : ∃ s : Sign, n = s.apply n.natAbs := by
    rcases Int.natAbs_eq n with hn | hn
    · exact ⟨.positive, by rw [apply_positive]; exact hn⟩
    · exact ⟨.negative, by rw [apply_negative]; exact hn⟩
  obtain ⟨s, hs⟩ := hsign
  obtain ⟨m, e, hrounded, he, hsize⟩ := exists_rounded h
  use s, m, e, hrounded, he
  rw [hsize, size_zero, ← apply_mul, ← hs]

/-- The sum of two floats is exact if there is a float of the exact sum. -/
theorem units_add {x y : Float} {a b : Int} (hx : units x = some a) (hy : units y = some b)
    (ha : a.natAbs < ceiling) (hb : b.natAbs < ceiling) (h : Representable (a + b)) :
  units (x + y) = some (a + b)
  := by
  have hadd : units (x + y) = unitsOf (UnpackedFloat.unpack .binary64 (UnpackedFloat.pack .binary64
      (UnpackedFloat.add .binary64 x.toModel.unpack y.toModel.unpack))) := rfl
  rw [hadd]
  rw [units] at hx hy
  have hxc := canonical_unpack x
  have hyc := canonical_unpack y
  generalize x.toModel.unpack = x at *
  generalize y.toModel.unpack = y at *
  cases hxc with
  | notANumber => cases hx
  | infinity s =>
    obtain rfl := Option.some.inj hx
    rw [natAbs_apply] at ha
    omega
  | zero s =>
    obtain rfl : 0 = a := Option.some.inj hx
    cases hyc with
    | notANumber => cases hy
    | infinity s' =>
      obtain rfl := Option.some.inj hy
      rw [natAbs_apply] at hb
      omega
    | zero s' =>
      obtain rfl : 0 = b := Option.some.inj hy
      cases s <;> cases s' <;> rfl
    | @finite s' m' e' hm' h' he' =>
      have hsum : UnpackedFloat.add .binary64 (.zero s) (.finite s' m' e' hm')
          = .finite s' m' e' hm' := rfl
      rw [hsum, h'.unpack_pack s' hm', if_pos he', hy, Int.zero_add]
  | @finite s m e hm hrounded he =>
    cases hyc with
    | notANumber => cases hy
    | infinity s' =>
      obtain rfl := Option.some.inj hy
      rw [natAbs_apply] at hb
      omega
    | zero s' =>
      obtain rfl : 0 = b := Option.some.inj hy
      have hsum : UnpackedFloat.add .binary64 (.finite s m e hm) (.zero s')
          = .finite s m e hm := rfl
      rw [hsum, hrounded.unpack_pack s hm, if_pos he, hx, Int.add_zero]
    | @finite s' m' e' hm' hrounded' he' =>
      have hleast := hrounded.least
      have hleast' := hrounded'.least
      obtain rfl : s.apply (size m e) = a := Option.some.inj hx
      obtain rfl : s'.apply (size m' e') = b := Option.some.inj hy
      simp only [UnpackedFloat.add]
      obtain ⟨c, hc, hround⟩ := exists_unitsOf_normalize
        (s.apply (decreaseExponent m e (min e e')).1
          + s'.apply (decreaseExponent m' e' (min e e')).1) (by omega : -1074 ≤ min e e')
      rw [Int.add_mul, apply_mul_pow, apply_mul_pow,
        decreaseExponent_mul m (min_le_left e e') (by omega),
        decreaseExponent_mul m' (min_le_right e e') (by omega)] at hround
      obtain ⟨s₀, k, f, hk, hf, hsum⟩ := h
      rw [hc, ← (hround s₀ hk hf).2 hsum, hsum]

/-! ### Whole floats -/

theorem units_neg (x : Float) : units (-x) = (units x).map (-·)
  := by
  have hneg : units (-x) = unitsOf (UnpackedFloat.unpack .binary64 (UnpackedFloat.pack .binary64
      (UnpackedFloat.neg x.toModel.unpack))) := rfl
  rw [hneg, units]
  have hx := canonical_unpack x
  generalize x.toModel.unpack = x at *
  cases hx with
  | notANumber => rfl
  | infinity s =>
    have hpack : UnpackedFloat.unpack .binary64 (UnpackedFloat.pack .binary64 (.infinity (-s)))
        = .infinity (-s) := by
      cases s <;> rfl
    rw [UnpackedFloat.neg, hpack, unitsOf, apply_neg, unitsOf, Option.map_some]
  | zero s => cases s <;> rfl
  | @finite s m e hm hrounded he =>
    rw [UnpackedFloat.neg, hrounded.unpack_pack _ hm, if_pos he, unitsOf, apply_neg, unitsOf,
      Option.map_some]

/-- The float of a number of at most 53 bits has its value. -/
theorem units_ofNat {n : Nat} (h : n < 2 ^ 53) : units (Float.ofNat n) = some (n * oneUnits : Int)
  := by
  obtain rfl | hpos := Nat.eq_zero_or_pos n
  · rw [Nat.cast_zero, Int.zero_mul]
    rfl
  · obtain ⟨m, e, hm, hround, hrounds⟩ :=
      exists_round .positive hpos (by decide : -1074 ≤ (0 : Int))
    obtain ⟨k, f, hk, hf, hsize⟩ := exists_rounded h.le
    have hvalue : size m e = size n 0 := (hrounds.eq_of_eq hk hsize.symm).trans hsize
    have hrounded := hrounds.rounded
    have he : e ≤ 971 := by
      by_contra hlarge
      have hceiling := hrounded.ceiling_le_size (not_le.mp hlarge)
      have hlt := hk.size_lt_ceiling hf
      omega
    have hleast : -52 ≤ e := by
      by_contra hsmall
      have hone : Rounded (2 ^ 52) (-52) := ⟨by decide, by decide, .inl le_rfl⟩
      have hlt := hrounded.size_lt_size hone (not_le.mp hsmall)
      have hunit : size (2 ^ 52) (-52) = size 1 0 := by
        have hexponent : (0 + 1074 : Int).toNat = 52 + (-52 + 1074 : Int).toNat := rfl
        rw [size, size, hexponent, Nat.pow_add, Nat.one_mul]
      have hle : size 1 0 ≤ size n 0 := Nat.mul_le_mul_right _ hpos
      omega
    have hfirst : UnpackedFloat.ofNat .binary64 n = .finite .positive m e hm := by
      have hcompare : compare (n : Int) 0 = .gt := compare_gt_iff_gt.mpr (by omega)
      simp only [UnpackedFloat.ofNat, UnpackedFloat.ofInt, UnpackedFloat.normalize, hcompare,
        Int.toNat_natCast, hround]
    have hshort := hrounded.short
    obtain ⟨r, m', e', hm', hround', hrounded', hsize', -, -, hexact⟩ :=
      exists_roundWithAccuracy .positive (Nat.mul_pos hm (Nat.two_pow_pos 52))
        (by omega : -1074 ≤ e + -52) (.inl (Nat.le_mul_of_pos_left _ hm))
    have hdvd : 2 ^ ((m * 2 ^ 52).log2 - 52) ∣ m * 2 ^ 52 := by
      have hlog : (m * 2 ^ 52).log2 < 105 := by
        rw [Nat.log2_lt (by omega)]
        omega
      apply Dvd.dvd.mul_left
      apply Nat.pow_dvd_pow
      omega
    have hsame : size m' e' = size n 0 := by
      have hexponent : (e + 1074).toNat = 52 + (e + -52 + 1074).toNat := by omega
      rw [hsize', hexact hdvd, Nat.div_mul_cancel hdvd, ← hvalue, size, hexponent, Nat.pow_add,
        Nat.mul_assoc]
    have hmul : UnpackedFloat.mul .binary64 (.finite .positive m e hm) one
        = .finite .positive m' e' hm' := hround'
    rw [units, unpack_float h, hfirst, hrounded.unpack_pack _ hm, if_pos he, hmul,
      hrounded'.unitsOf_unpack_pack, hsame, ← hsize, min_eq_left, hsize, size_zero, apply_positive,
      Nat.cast_mul]
    exact Int.ofNat_le.mpr (hk.size_lt_ceiling hf).le

theorem units_ofInt {n : Int} (h : n.natAbs < 2 ^ 53) : units (Float.ofInt n) = some (n * oneUnits)
  := by
  cases n with
  | ofNat n => exact units_ofNat h
  | negSucc n =>
    have hneg : Float.ofInt (.negSucc n) = -Float.ofNat (n + 1) := rfl
    have hnat : units (Float.ofNat (n + 1)) = some ((n + 1 : Nat) * oneUnits : Int) :=
      units_ofNat h
    rw [hneg, units_neg, hnat, Option.map_some, Int.negSucc_eq, Int.neg_mul, Nat.cast_succ]

/-- The sum of two integers of few bits is exact. -/
theorem units_ofInt_add {a b : Int} (ha : a.natAbs < 2 ^ 53) (hb : b.natAbs < 2 ^ 53)
    (h : (a + b).natAbs ≤ 2 ^ 53) :
  units (Float.ofInt a + Float.ofInt b) = some ((a + b) * oneUnits)
  := by
  rw [Int.add_mul]
  apply units_add (units_ofInt ha) (units_ofInt hb)
  · exact (representable_whole ha.le).natAbs_lt
  · exact (representable_whole hb.le).natAbs_lt
  · rw [← Int.add_mul]
    exact representable_whole h

/-- The integer part of a whole float is its value. -/
theorem truncate?_of_units {x : Float} {n : Int} (h : units x = some (n * oneUnits))
    (hn : (n * oneUnits : Int).natAbs < ceiling) :
  truncate? x = some n
  := by
  cases hdecode : decode? x with
  | none =>
    cases hnan : x.isNaN with
    | true =>
      rw [units_eq_none_iff.mpr hnan] at h
      cases h
    | false =>
      rw [units_of_decode?_none hdecode hnan] at h
      rw [← Option.some.inj h] at hn
      split at hn <;> simp at hn
  | some parts =>
    obtain ⟨negative, m, e⟩ := parts
    obtain ⟨hrounded, -, hunits⟩ := units_of_decode? hdecode
    have hleast := hrounded.least
    have hvalue := Option.some.inj (hunits.symm.trans h)
    have hmantissa : (if negative then -(m : Int) else m)
        = (if negative then Sign.negative else .positive).apply m := by
      cases negative <;> rfl
    have hone : (oneUnits : Int) ≠ 0 := Int.natCast_ne_zero.mpr oneUnits_pos.ne'
    simp only [truncate?, parts?, hdecode, Option.map_some, Option.some.injEq, hmantissa,
      shiftToInt]
    generalize (if negative then Sign.negative else .positive) = s at hvalue ⊢
    split
    next he =>
      obtain ⟨d, rfl⟩ := Int.eq_ofNat_of_zero_le he
      rw [size_natCast, ← apply_mul] at hvalue
      rw [← Int.eq_of_mul_eq_mul_right hone hvalue, Int.toNat_natCast]
      apply apply_mul
    next he =>
      obtain ⟨d, hd⟩ : ∃ d : Nat, e + d = 0 := ⟨(-e).toNat, by omega⟩
      have hsize := size_add m hleast d
      rw [hd, size_zero, Nat.mul_right_comm, ← size] at hsize
      have hscaled : s.apply m * oneUnits = n * 2 ^ d * oneUnits := by
        rw [apply_mul, hsize, ← apply_mul_pow, hvalue, Int.mul_right_comm]
      have hexponent : (-e).toNat = d := by omega
      rw [Int.eq_of_mul_eq_mul_right hone hscaled, hexponent]
      apply Int.mul_tdiv_cancel
      positivity

end AssetCanvas.Binary64
