import AssetCanvas.Proofs.Floats

/-!
# The two zeros

Floats are told apart by their rank, which is the same for the two zeros only:
`Binary64.alike_of_rank`.  Two floats that are the same or both zeros compare alike with every
float, and sums, differences and products of such floats are the same or both zeros again.

A sum is the negative zero only if both summands are.  So a sum that begins with zero does not
change if one of the summands becomes the other zero: `Binary64.Alike.add_eq`.
-/

namespace AssetCanvas.Binary64

open Float.Model Float.Model.UnpackedFloat

/-! ### Floats with the same value -/

/-- Whether a float is one of the two zeros. -/
def IsZero (x : Float) : Prop := x = 0.0 ∨ x = -0.0

/-- Whether two floats are the same or both zeros. -/
inductive Alike : Float → Float → Prop
  | refl (x : Float) : Alike x x
  | zeros {x y : Float} (hx : IsZero x) (hy : IsZero y) : Alike x y

/-- Whether two floats to be packed are the same or both zeros. -/
inductive AlikeUnpacked : UnpackedFloat → UnpackedFloat → Prop
  | refl (u : UnpackedFloat) : AlikeUnpacked u u
  | zeros (s t : Sign) : AlikeUnpacked (.zero s) (.zero t)

theorem IsZero.unpack {x : Float} (h : IsZero x) : ∃ s, x.toModel.unpack = .zero s
  := by
  rcases h with rfl | rfl
  · exact ⟨.positive, rfl⟩
  · exact ⟨.negative, rfl⟩

theorem isZero_pack (s : Sign) : IsZero (.ofModel (Float.Model.pack (.zero s)))
  := by
  cases s
  · exact .inr rfl
  · exact .inl rfl

theorem AlikeUnpacked.pack {u v : UnpackedFloat} (h : AlikeUnpacked u v) :
  Alike (.ofModel (Float.Model.pack u)) (.ofModel (Float.Model.pack v))
  := by
  cases h with
  | refl => apply Alike.refl
  | zeros s t => exact .zeros (isZero_pack s) (isZero_pack t)

namespace Alike

variable {x x' y y' : Float}

theorem symm (h : Alike x y) : Alike y x
  := by
  cases h with
  | refl => apply refl
  | zeros hx hy => exact .zeros hy hx

theorem unpack (h : Alike x x') : AlikeUnpacked x.toModel.unpack x'.toModel.unpack
  := by
  cases h with
  | refl => apply AlikeUnpacked.refl
  | zeros hx hx' =>
    obtain ⟨s, hs⟩ := hx.unpack
    obtain ⟨t, ht⟩ := hx'.unpack
    rw [hs, ht]
    apply AlikeUnpacked.zeros

end Alike

/-! ### Arithmetic -/

namespace AlikeUnpacked

variable {u u' v v' w : UnpackedFloat}

theorem trans (h : AlikeUnpacked u v) (h' : AlikeUnpacked v w) : AlikeUnpacked u w
  := by
  cases h with
  | refl => exact h'
  | zeros s t =>
    cases h' with
    | refl => apply zeros
    | zeros t s' => apply zeros

/-- An operation that gives the same value for the two zeros, on both sides. -/
theorem operation {f : UnpackedFloat → UnpackedFloat → UnpackedFloat}
    (hleft : ∀ s t v, AlikeUnpacked (f (.zero s) v) (f (.zero t) v))
    (hright : ∀ u s t, AlikeUnpacked (f u (.zero s)) (f u (.zero t)))
    (hu : AlikeUnpacked u u') (hv : AlikeUnpacked v v') :
  AlikeUnpacked (f u v) (f u' v')
  := by
  have hfirst : AlikeUnpacked (f u v) (f u' v) := by
    cases hu with
    | refl => apply refl
    | zeros s t => apply hleft
  have hsecond : AlikeUnpacked (f u' v) (f u' v') := by
    cases hv with
    | refl => apply refl
    | zeros s t => apply hright
  exact hfirst.trans hsecond

theorem add (hu : AlikeUnpacked u u') (hv : AlikeUnpacked v v') :
  AlikeUnpacked (UnpackedFloat.add .binary64 u v) (UnpackedFloat.add .binary64 u' v')
  := by
  apply operation _ _ hu hv
  · intro s t v
    cases v with
    | zero r => cases s <;> cases t <;> cases r <;> apply zeros
    | notANumber | infinity _ | finite _ _ _ _ => apply refl
  · intro u s t
    cases u with
    | zero r => cases s <;> cases t <;> cases r <;> apply zeros
    | notANumber | infinity _ | finite _ _ _ _ => apply refl

theorem sub (hu : AlikeUnpacked u u') (hv : AlikeUnpacked v v') :
  AlikeUnpacked (UnpackedFloat.sub .binary64 u v) (UnpackedFloat.sub .binary64 u' v')
  := by
  apply operation _ _ hu hv
  · intro s t v
    cases v with
    | zero r => cases s <;> cases t <;> cases r <;> apply zeros
    | notANumber | infinity _ | finite _ _ _ _ => apply refl
  · intro u s t
    cases u with
    | zero r => cases s <;> cases t <;> cases r <;> apply zeros
    | notANumber | infinity _ | finite _ _ _ _ => apply refl

theorem mul (hu : AlikeUnpacked u u') (hv : AlikeUnpacked v v') :
  AlikeUnpacked (UnpackedFloat.mul .binary64 u v) (UnpackedFloat.mul .binary64 u' v')
  := by
  apply operation _ _ hu hv
  · intro s t v
    cases v with
    | notANumber | infinity _ => apply refl
    | zero r | finite r _ _ _ => apply zeros
  · intro u s t
    cases u with
    | notANumber | infinity _ => apply refl
    | zero r | finite r _ _ _ => apply zeros

theorem compare_eq (hu : AlikeUnpacked u u') (hv : AlikeUnpacked v v') :
  UnpackedFloat.compare u v = UnpackedFloat.compare u' v'
  := by
  have hfirst : UnpackedFloat.compare u v = UnpackedFloat.compare u' v := by
    cases hu with
    | refl => rfl
    | zeros s t =>
      cases v with
      | notANumber | zero _ => rfl
      | infinity r | finite r _ _ _ => cases r <;> rfl
  have hsecond : UnpackedFloat.compare u' v = UnpackedFloat.compare u' v' := by
    cases hv with
    | refl => rfl
    | zeros s t =>
      cases u' with
      | notANumber | zero _ => rfl
      | infinity r | finite r _ _ _ => cases r <;> rfl
  exact hfirst.trans hsecond

end AlikeUnpacked

namespace Alike

variable {x x' y y' : Float}

theorem add (hx : Alike x x') (hy : Alike y y') : Alike (x + y) (x' + y')
  := (hx.unpack.add hy.unpack).pack

theorem sub (hx : Alike x x') (hy : Alike y y') : Alike (x - y) (x' - y')
  := (hx.unpack.sub hy.unpack).pack

theorem mul (hx : Alike x x') (hy : Alike y y') : Alike (x * y) (x' * y')
  := (hx.unpack.mul hy.unpack).pack

theorem lt_iff (hx : Alike x x') (hy : Alike y y') : x < y ↔ x' < y'
  := by
  change decide (UnpackedFloat.lt _ _ = true) = true ↔ decide (UnpackedFloat.lt _ _ = true) = true
  rw [UnpackedFloat.lt, UnpackedFloat.lt, hx.unpack.compare_eq hy.unpack]

theorem le_iff (hx : Alike x x') (hy : Alike y y') : x ≤ y ↔ x' ≤ y'
  := by
  change decide (UnpackedFloat.le _ _ = true) = true ↔ decide (UnpackedFloat.le _ _ = true) = true
  rw [UnpackedFloat.le, UnpackedFloat.le, hx.unpack.compare_eq hy.unpack]

end Alike

/-! ### Sums that begin with zero -/

/-- A float other than zero that is packed as such: a finite one has a mantissa of at most 53 bits
and no exponent below the least one. -/
inductive Storable : UnpackedFloat → Prop
  | notANumber : Storable .notANumber
  | infinity (s : Sign) : Storable (.infinity s)
  | finite {s : Sign} {m : Nat} {e : Int} {hpos : 0 < m} (hm : m < 2 ^ 53) (he : -1074 ≤ e) :
    Storable (.finite s m e hpos)

/-- Shifting to the target exponent leaves between one and 53 bits. -/
theorem shifted_bounds {m : Nat} {e : Int} (accuracy : Accuracy) (hm : 0 < m) (he : -1074 ≤ e) :
  0 < (shiftToTargetExponent .binary64 m e accuracy).1.mantissa
    ∧ (shiftToTargetExponent .binary64 m e accuracy).1.mantissa < 2 ^ 53
  := by
  have hlow := Nat.log2_self_le (Nat.ne_of_gt hm)
  rw [mantissa_shiftToTargetExponent, toNat_targetExponent m he]
  constructor
  · apply Nat.div_pos _ (Nat.two_pow_pos _)
    exact Nat.le_trans (Nat.pow_le_pow_right (by decide) (Nat.sub_le _ _)) hlow
  · apply div_two_pow_log2_lt

theorem storable_roundWithAccuracy (s : Sign) {m : Nat} {e : Int} (accuracy : Accuracy)
    (hm : 0 < m) (he : -1074 ≤ e) :
  Storable (roundWithAccuracy .binary64 s m e accuracy)
  := by
  have hfirst := (shifted_bounds accuracy hm he).1
  have hexponent := Int.le_trans he (le_shiftToTargetExponent m e accuracy)
  have hrounded := (roundedMantissa_bounds (shiftToTargetExponent .binary64 m e accuracy).1).1
  simp only [roundWithAccuracy]
  generalize shiftToTargetExponent .binary64 m e accuracy = first at *
  have hsecond := shifted_bounds .exact (Nat.lt_of_lt_of_le hfirst hrounded) hexponent
  rw [dif_neg (Nat.ne_of_gt hsecond.1)]
  exact .finite hsecond.2 (Int.le_trans hexponent (le_shiftToTargetExponent _ _ _))

theorem storable_round (s : Sign) {m : Nat} {e : Int} (hm : 0 < m) (he : -1074 ≤ e) :
  Storable (UnpackedFloat.round .binary64 s m e)
  := by
  apply storable_roundWithAccuracy
  · rw [Nat.shiftLeft_eq]
    exact Nat.mul_pos hm (Nat.two_pow_pos _)
  · rw [targetExponent_totalExponent]
    omega

/-- A float is a zero or storable. -/
theorem storable_unpack (x : Float) :
  (∃ s, x.toModel.unpack = .zero s) ∨ Storable x.toModel.unpack
  := by
  have hbias : Format.binary64.exponentBias = 1023 := rfl
  rw [Float.Model.unpack]
  simp only [UnpackedFloat.unpack]
  split
  · split
    · exact .inr (.infinity _)
    · exact .inr .notANumber
  · split
    · split
      · exact .inl ⟨_, rfl⟩
      · refine .inr (.finite ?_ ?_)
        · apply Nat.lt_trans (BitVec.isLt _)
          decide
        · rename_i hzero _
          rw [hzero]
          decide
    · refine .inr (.finite (BitVec.isLt _) ?_)
      rename_i hzero
      have hpos : BitVec.toNat _ ≠ 0 := fun heq => hzero (BitVec.eq_of_toNat_eq heq)
      rw [hbias]
      omega

/-- A zero has no bits but the sign. -/
theorem bits_of_unpack_eq_zero {b : BitVec Format.binary64.numBits} {s : Sign}
    (h : UnpackedFloat.unpack .binary64 b = .zero s) :
  unpackExponent b = 0 ∧ unpackMantissa b = 0
  := by
  simp only [UnpackedFloat.unpack] at h
  split at h
  · split at h <;> cases h
  · split at h
    · split at h
      · exact ⟨‹_›, ‹_›⟩
      · cases h
    · cases h

/-- What is storable is not packed as a zero. -/
theorem Storable.unpack_pack_ne {u : UnpackedFloat} (h : Storable u) (s : Sign) :
  (Float.Model.pack u).unpack ≠ .zero s
  := by
  have hbias : Format.binary64.exponentBias = 1023 := rfl
  intro hzero
  obtain ⟨hexponent, hmantissa⟩ := bits_of_unpack_eq_zero hzero
  cases h with
  | notANumber => cases hmantissa
  | infinity r => cases r <;> cases hexponent
  | @finite r m e hpos hm he =>
    simp only [Float.Model.pack, UnpackedFloat.pack, hbias] at hexponent hmantissa
    split at hexponent
    · cases r <;> cases hexponent
    · rename_i hrange
      rw [if_neg hrange] at hmantissa
      split at hexponent
      · -- a normal float has an exponent
        rw [unpackExponent_packComponents] at hexponent
        have hbits := congrArg BitVec.toNat hexponent
        simp at hbits hrange
        omega
      · -- a subnormal one has a short mantissa
        rename_i hshort
        rw [if_neg hshort, unpackMantissa_packComponents] at hmantissa
        have hbits := congrArg BitVec.toNat hmantissa
        have hlog : m.log2 < 52 := by
          have hlt : m.log2 < 53 := (Nat.log2_lt (Nat.ne_of_gt hpos)).mpr hm
          have hne : m.log2 + 1 ≠ 53 := hshort
          omega
        have hlt : m < 2 ^ 52 := (Nat.log2_lt (Nat.ne_of_gt hpos)).mp hlog
        simp at hbits
        omega

/-- Whether a float is not the negative zero. -/
def Plain (x : Float) : Prop := x.toModel.unpack ≠ .zero .negative

theorem plain_zero : Plain 0.0
  := by
  have hzero : (0.0 : Float).toModel.unpack = .zero .positive := rfl
  rw [Plain, hzero]
  rintro ⟨⟩

/-- A sum that cancels out is the positive zero. -/
theorem unpack_pack_normalize_ne (m : Int) {e : Int} (he : -1074 ≤ e) :
  (Float.Model.pack (UnpackedFloat.normalize .binary64 m e .positive)).unpack ≠ .zero .negative
  := by
  rw [UnpackedFloat.normalize]
  split
  · next hlt =>
    rw [compare_lt_iff_lt] at hlt
    apply (storable_round .negative _ he).unpack_pack_ne
    omega
  · rintro ⟨⟩
  · next hgt =>
    rw [compare_gt_iff_gt] at hgt
    apply (storable_round .positive _ he).unpack_pack_ne
    omega

theorem Storable.unpack_pack_add_ne {u v : UnpackedFloat} (hu : Storable u) (hv : Storable v) :
  (Float.Model.pack (UnpackedFloat.add .binary64 u v)).unpack ≠ .zero .negative
  := by
  cases hu with
  | notANumber => apply Storable.notANumber.unpack_pack_ne
  | infinity s =>
    cases hv with
    | notANumber => apply Storable.notANumber.unpack_pack_ne
    | infinity t =>
      simp only [UnpackedFloat.add]
      split
      · apply (Storable.infinity s).unpack_pack_ne
      · apply Storable.notANumber.unpack_pack_ne
    | finite => apply (Storable.infinity s).unpack_pack_ne
  | finite hm he =>
    cases hv with
    | notANumber => apply Storable.notANumber.unpack_pack_ne
    | infinity t => apply (Storable.infinity t).unpack_pack_ne
    | finite hm' he' =>
      apply unpack_pack_normalize_ne
      omega

/-- A sum is not the negative zero if its first summand is not. -/
theorem Plain.add {x : Float} (h : Plain x) (y : Float) : Plain (x + y)
  := by
  have hx := storable_unpack x
  have hy := storable_unpack y
  change (Float.Model.pack (UnpackedFloat.add .binary64 x.toModel.unpack y.toModel.unpack)).unpack
    ≠ .zero .negative
  rw [Plain] at h
  generalize x.toModel.unpack = u at *
  generalize y.toModel.unpack = v at *
  rcases hx with ⟨s, rfl⟩ | hx
  · cases s with
    | negative => exact (h rfl).elim
    | positive =>
      rcases hy with ⟨t, rfl⟩ | hy
      · cases t <;> rintro ⟨⟩
      · have hadd : UnpackedFloat.add .binary64 (.zero .positive) v = v := by cases hy <;> rfl
        rw [hadd]
        apply hy.unpack_pack_ne
  · rcases hy with ⟨t, rfl⟩ | hy
    · have hadd : UnpackedFloat.add .binary64 u (.zero t) = u := by cases hx <;> rfl
      rw [hadd]
      apply hx.unpack_pack_ne
    · apply hx.unpack_pack_add_ne hy

/-- The two zeros are the same as a second summand, unless the first one is the negative zero. -/
theorem Alike.add_eq {x y y' : Float} (hx : Plain x) (h : Alike y y') : x + y = x + y'
  := by
  cases h with
  | refl => rfl
  | zeros hy hy' =>
    obtain ⟨s, hs⟩ := hy.unpack
    obtain ⟨t, ht⟩ := hy'.unpack
    have hadd : ∀ s, UnpackedFloat.add .binary64 x.toModel.unpack (.zero s)
        = UnpackedFloat.add .binary64 x.toModel.unpack (.zero .positive) := by
      intro s
      rw [Plain] at hx
      generalize x.toModel.unpack = u at *
      cases u with
      | zero r =>
        cases r with
        | positive => cases s <;> rfl
        | negative => exact (hx rfl).elim
      | notANumber | infinity _ | finite _ _ _ _ => rfl
    change Float.ofModel (Float.Model.pack (UnpackedFloat.add .binary64 x.toModel.unpack
        y.toModel.unpack)) = .ofModel (Float.Model.pack (UnpackedFloat.add .binary64
        x.toModel.unpack y'.toModel.unpack))
    rw [hs, ht, hadd s, hadd t]

/-! ### Ranks -/

theorem toBits_inj {x y : Float} (h : x.toBits = y.toBits) : x = y
  := by
  obtain ⟨⟨b, hb⟩⟩ := x
  obtain ⟨⟨c, hc⟩⟩ := y
  obtain rfl : b = c := h
  rfl

theorem isNaN_iff {x : Float} : x.isNaN = true ↔ x.toModel.unpack = .notANumber
  := by
  have hdef : x.isNaN = UnpackedFloat.isNaN x.toModel.unpack := rfl
  rw [hdef]
  cases x.toModel.unpack <;> simp [UnpackedFloat.isNaN]

/-- There is a single float that is no number. -/
theorem eq_of_isNaN {x y : Float} (hx : x.isNaN = true) (hy : y.isNaN = true) : x = y
  := by
  have hbits : ∀ {x : Float}, x.isNaN = true → x.toBits.toBitVec = packedNaN .binary64 := by
    intro x hx
    have hunpack := isNaN_iff.mp hx
    simp only [Float.Model.unpack, UnpackedFloat.unpack] at hunpack
    split at hunpack
    · split at hunpack
      · cases hunpack
      · apply x.toModel.valid.eq_packedNaN <;> assumption
    · split at hunpack
      · split at hunpack <;> cases hunpack
      · cases hunpack
  apply toBits_inj
  exact UInt64.toBitVec_inj.mp ((hbits hx).trans (hbits hy).symm)

/-- The rank of a number as a natural number: zeros are in the middle, and below them the numbers
with a sign come in reverse. -/
theorem toNat_rank {x : Float} (h : x.isNaN = false) :
  x.toBits.toNat % 2 ^ 63 = 0 ∧ (rank x).toNat = 2 ^ 63
    ∨ 2 ^ 63 < x.toBits.toNat ∧ (rank x).toNat = 2 ^ 64 - 1 - x.toBits.toNat
    ∨ 0 < x.toBits.toNat ∧ x.toBits.toNat < 2 ^ 63 ∧ (rank x).toNat = x.toBits.toNat + 2 ^ 63
  := by
  have hlt := x.toBits.toNat_lt
  rw [rank, h]
  simp only [Bool.false_eq_true, if_false]
  generalize x.toBits = b at *
  have hshift : b <<< 1 = 0 ↔ b.toNat % 2 ^ 63 = 0 := by
    rw [← UInt64.toNat_inj]
    simp
    omega
  have hsign : b >>> 63 = 1 ↔ 2 ^ 63 ≤ b.toNat := by
    rw [← UInt64.toNat_inj]
    simp
    omega
  by_cases hzero : b.toNat % 2 ^ 63 = 0
  · left
    rw [if_pos (hshift.mpr hzero)]
    exact ⟨hzero, rfl⟩
  · right
    rw [if_neg (hshift.not.mpr hzero)]
    by_cases hnegative : 2 ^ 63 ≤ b.toNat
    · left
      rw [if_pos (hsign.mpr hnegative)]
      refine ⟨by omega, ?_⟩
      simp
    · right
      rw [if_neg (hsign.not.mpr hnegative)]
      refine ⟨by omega, by omega, ?_⟩
      have hor := Nat.two_pow_add_eq_or_of_lt (i := 63) (b := b.toNat) (by omega) 1
      rw [Nat.mul_one, Nat.or_comm] at hor
      rw [UInt64.toNat_or, Nat.add_comm, hor]
      rfl

theorem isZero_of_bits {x : Float} (h : x.toBits.toNat % 2 ^ 63 = 0) : IsZero x
  := by
  have hlt := x.toBits.toNat_lt
  have hcases : x.toBits.toNat = 0 ∨ x.toBits.toNat = 2 ^ 63 := by omega
  rcases hcases with hbits | hbits
  · left
    apply toBits_inj
    apply UInt64.toNat_inj.mp
    rw [hbits]
    rfl
  · right
    apply toBits_inj
    apply UInt64.toNat_inj.mp
    rw [hbits]
    rfl

/-- What is no number comes after all numbers. -/
theorem rank_ne_of_isNaN {x y : Float} (hx : x.isNaN = false) (hy : y.isNaN = true) :
  rank x ≠ rank y
  := by
  intro h
  have hlast : (rank y).toNat = 2 ^ 64 - 1 := by
    rw [rank, if_pos hy]
    rfl
  rw [← h] at hlast
  have hbits : x.toBits = 0x7FFFFFFFFFFFFFFF := by
    apply UInt64.toNat_inj.mp
    change x.toBits.toNat = 2 ^ 63 - 1
    have hrank := toNat_rank hx
    omega
  have hunpack : x.toModel.unpack = .notANumber := by
    change UnpackedFloat.unpack .binary64 x.toBits.toBitVec = _
    rw [hbits]
    rfl
  rw [isNaN_iff.mpr hunpack] at hx
  cases hx

/-- Only the two zeros have the same rank. -/
theorem alike_of_rank {x y : Float} (h : rank x = rank y) : Alike x y
  := by
  cases hx : x.isNaN with
  | true =>
    cases hy : y.isNaN with
    | true =>
      rw [eq_of_isNaN hx hy]
      apply Alike.refl
    | false => exact (rank_ne_of_isNaN hy hx h.symm).elim
  | false =>
    cases hy : y.isNaN with
    | true => exact (rank_ne_of_isNaN hx hy h).elim
    | false =>
      have hranks := congrArg UInt64.toNat h
      have hrankx := toNat_rank hx
      have hranky := toNat_rank hy
      have hltx := x.toBits.toNat_lt
      have hlty := y.toBits.toNat_lt
      by_cases hzero : x.toBits.toNat % 2 ^ 63 = 0
      · apply Alike.zeros (isZero_of_bits hzero)
        apply isZero_of_bits
        omega
      · have hsame : x = y := by
          apply toBits_inj
          apply UInt64.toNat_inj.mp
          omega
        rw [hsame]
        apply Alike.refl

end AssetCanvas.Binary64
