import AssetCanvas.Proofs.FloatOrder
import AssetCanvas.Proofs.SignedZeros

/-!
# Exact values

The exact value of a number is a rational or an infinity, `Number.value?`; a NaN has none.  The
value of a finite float is what is decoded of it, `Binary64.units_of_decode?`.  Two numbers are the
same exactly if they have the same value, whatever their kinds, `Number.same_iff`.
-/

namespace AssetCanvas

namespace Binary64

open Float.Model Float.Model.UnpackedFloat

theorem toNat_unpackMantissa (x : Float) :
  (@UnpackedFloat.unpackMantissa .binary64 x.toBits.toBitVec).toNat
    = (x.toBits &&& 0xFFFFFFFFFFFFF).toNat
  := by
  have hmask := Nat.and_two_pow_sub_one_eq_mod x.toBits.toNat 52
  simp [UnpackedFloat.unpackMantissa, Format.binary64, BitVec.extractLsb] at hmask ⊢
  rw [hmask]

theorem toNat_unpackSign (x : Float) :
  (@UnpackedFloat.unpackSign .binary64 x.toBits.toBitVec).toNat = (x.toBits >>> 63).toNat
  := by
  have hlt := x.toBits.toNat_lt
  simp [UnpackedFloat.unpackSign, Format.binary64, BitVec.extractLsb]
  omega

/-- The sign of a float is its first bit. -/
theorem sign_eq (x : Float) :
  Sign.ofBitVec (@UnpackedFloat.unpackSign .binary64 x.toBits.toBitVec)
    = if x.toBits >>> 63 == 1 then .negative else .positive
  := by
  have hbit := toNat_unpackSign x
  generalize @UnpackedFloat.unpackSign .binary64 x.toBits.toBitVec = b at hbit
  have hlt : b.toNat < 2 := b.isLt
  rw [Sign.ofBitVec]
  by_cases hzero : b = 0#1
  · have hne : (x.toBits >>> 63 == 1) = false := by
      rw [beq_eq_false_iff_ne]
      intro hone
      rw [hone, hzero] at hbit
      cases hbit
    rw [if_pos hzero, hne]
    rfl
  · have hone : (x.toBits >>> 63 == 1) = true := by
      rw [beq_iff_eq, ← UInt64.toNat_inj, ← hbit]
      have hne : b.toNat ≠ 0 := fun h => hzero (BitVec.eq_of_toNat_eq h)
      change b.toNat = 1
      omega
    rw [if_neg hzero, hone]
    rfl

/-- What is decoded of a finite float is its value. -/
theorem units_of_decode? {x : Float} {negative : Bool} {m : Nat} {e : Int}
    (h : decode? x = some (negative, m, e)) :
  Rounded m e ∧ e ≤ 971
    ∧ units x = some ((if negative then Sign.negative else .positive).apply (size m e))
  := by
  have hexponent := toNat_unpackExponent x
  have hmantissa := toNat_unpackMantissa x
  have hsign := sign_eq x
  have hlong : (@UnpackedFloat.unpackMantissa .binary64 x.toBits.toBitVec).toNat < 2 ^ 52 :=
    BitVec.isLt _
  have hmost : (@UnpackedFloat.unpackExponent .binary64 x.toBits.toBitVec).toNat < 2 ^ 11 :=
    BitVec.isLt _
  have hbias : ((Format.binary64.exponentBias : Nat) : Int) = 1023 := rfl
  have hbits : ((Format.binary64.mantissaBitsWithoutImplicit : Nat) : Int) = 52 := rfl
  have hunits : units x = unitsOf (UnpackedFloat.unpack .binary64 x.toBits.toBitVec) := rfl
  rw [hunits]
  simp only [decode?, ← hexponent, ← hmantissa] at h
  simp only [UnpackedFloat.unpack, hsign]
  by_cases hones : (@UnpackedFloat.unpackExponent .binary64 x.toBits.toBitVec).toNat = 2047
  · rw [if_pos hones] at h
    cases h
  · have hne : @UnpackedFloat.unpackExponent .binary64 x.toBits.toBitVec ≠ -1#_ :=
      fun heq => hones (congrArg BitVec.toNat heq)
    rw [if_neg hones] at h
    rw [if_neg hne]
    by_cases hzero : (@UnpackedFloat.unpackExponent .binary64 x.toBits.toBitVec).toNat = 0
    · have hleast : @UnpackedFloat.unpackExponent .binary64 x.toBits.toBitVec = 0#_ :=
        BitVec.eq_of_toNat_eq hzero
      rw [if_pos hzero, Option.some.injEq, Prod.mk.injEq, Prod.mk.injEq] at h
      obtain ⟨rfl, rfl, rfl⟩ := h
      refine ⟨⟨by omega, by decide, .inr rfl⟩, by decide, ?_⟩
      rw [if_pos hleast]
      split
      next hnil =>
        have hsize : size 0 (-1074) = 0 := rfl
        rw [hnil]
        change some (0 : Int) = some (Sign.apply _ (size 0 (-1074) : Nat))
        rw [hsize]
        split <;> rfl
      next =>
        rw [hzero]
        rfl
    · have hne : ¬ @UnpackedFloat.unpackExponent .binary64 x.toBits.toBitVec = 0#_ :=
        fun heq => hzero (congrArg BitVec.toNat heq)
      have happend := toNat_append_one (@UnpackedFloat.unpackMantissa .binary64 x.toBits.toBitVec)
      rw [if_neg hzero, Option.some.injEq, Prod.mk.injEq, Prod.mk.injEq] at h
      obtain ⟨rfl, rfl, rfl⟩ := h
      refine ⟨⟨by omega, by omega, .inl (by omega)⟩, by omega, ?_⟩
      rw [if_neg hne, unitsOf, happend, Nat.add_comm (2 ^ 52)]
      rfl

/-- Floats are equal if they have the same value. -/
theorem beq_iff_units {x y : Float} :
  (x == y) = true ↔ ∃ a, units x = some a ∧ units y = some a
  := by
  have hbeq : (x == y) = (x.toModel.unpack.compare y.toModel.unpack == some .eq) := rfl
  rw [hbeq, (canonical_unpack x).compare_eq (canonical_unpack y), ← units, ← units]
  cases units x with
  | none => simp
  | some a =>
    cases units y with
    | none => simp
    | some b =>
      simp only [Option.bind_some, Option.map_some, beq_iff_eq, Option.some.injEq,
        compare_eq_iff_eq]
      constructor
      · rintro rfl
        exact ⟨a, rfl, rfl⟩
      · rintro ⟨c, rfl, rfl⟩
        rfl

theorem units_eq_none_iff {x : Float} : units x = none ↔ x.isNaN = true
  := by
  rw [isNaN_iff, units]
  cases x.toModel.unpack <;> simp

/-- A number is equal to itself, and the two zeros are equal. -/
theorem Alike.beq {x y : Float} (h : Alike x y) (hx : x.isNaN = false) : (x == y) = true
  := by
  cases h with
  | refl =>
    have hsome : units x ≠ none := by
      intro hnone
      rw [units_eq_none_iff.mp hnone] at hx
      cases hx
    obtain ⟨a, ha⟩ := Option.ne_none_iff_exists'.mp hsome
    exact beq_iff_units.mpr ⟨a, ha, ha⟩
  | zeros hx hy => rcases hx with rfl | rfl <;> rcases hy with rfl | rfl <;> rfl

/-- A float that is neither finite nor a NaN is an infinity. -/
theorem units_of_decode?_none {x : Float} (h : decode? x = none) (hnan : x.isNaN = false) :
  units x = some (if x < 0 then -(ceiling : Int) else ceiling)
  := by
  rw [decode?_eq_none_iff] at h
  have hfinite : x.isFinite = UnpackedFloat.isFinite x.toModel.unpack := rfl
  have hzero : units 0 = some 0 := rfl
  have hpos := ceiling_pos
  rw [hfinite] at h
  have hne : x.toModel.unpack ≠ .notANumber := by
    intro heq
    rw [isNaN_iff.mpr heq] at hnan
    cases hnan
  have hunits : ∃ s : Sign, units x = some (s.apply ceiling) := by
    rw [units]
    cases hx : x.toModel.unpack with
    | notANumber => exact absurd hx hne
    | infinity s => exact ⟨s, rfl⟩
    | zero s => simp [hx, UnpackedFloat.isFinite] at h
    | finite s m e hm => simp [hx, UnpackedFloat.isFinite] at h
  obtain ⟨s, hs⟩ := hunits
  have hlt : x < 0 ↔ s.apply ceiling < 0 := by
    rw [lt_iff, hs, hzero]
    constructor
    · rintro ⟨a, b, ha, hb, hab⟩
      rwa [Option.some.inj ha, Option.some.inj hb]
    · exact fun hab => ⟨_, 0, rfl, rfl, hab⟩
  rw [hs]
  cases s with
  | positive =>
    rw [apply_positive] at hlt ⊢
    rw [if_neg (by rw [hlt]; omega)]
  | negative =>
    rw [apply_negative] at hlt ⊢
    rw [if_pos (by rw [hlt]; omega)]

end Binary64

/-- The exact value of a number: a rational or an infinity. -/
inductive Exact where
  | finite (q : ℚ)
  | infinite (negative : Bool)

namespace Number

/-- The exact value of a number; none for a NaN. -/
def value? : Number → Option Exact
  | .int n => some (.finite n)
  | .float x =>
    match Binary64.parts? x with
    | some (m, e) => some (.finite (m * 2 ^ e))
    | none => if x.isNaN then none else some (.infinite (x < 0))

/-- The exact value of a number of units of the least positive float. -/
def ofUnits (a : Int) : Exact :=
  if a = Binary64.ceiling then .infinite false
  else if a = -Binary64.ceiling then .infinite true
  else .finite (a * 2 ^ (-1074 : Int))

theorem ofUnits_injective : Function.Injective ofUnits
  := by
  intro a b h
  have hpos : (0 : ℚ) < 2 ^ (-1074 : Int) := by positivity
  unfold ofUnits at h
  split at h
  next ha =>
    split at h
    next hb => rw [ha, hb]
    next => split at h <;> simp at h
  next =>
    split at h
    next ha =>
      split at h
      next => simp at h
      next =>
        split at h
        next hb => rw [ha, hb]
        next => simp at h
    next =>
      split at h
      next => simp at h
      next =>
        split at h
        next => simp at h
        next =>
          have hmul := Exact.finite.inj h
          exact_mod_cast mul_right_cancel₀ (ne_of_gt hpos) hmul

/-- A number of units that no infinity has is a rational. -/
theorem ofUnits_apply {m : Nat} {e : Int} (hrounded : Binary64.Rounded m e) (hmost : e ≤ 971)
    (s : Float.Model.UnpackedFloat.Sign) :
  ofUnits (s.apply (Binary64.size m e)) = .finite (s.apply m * 2 ^ e)
  := by
  have hlt := hrounded.size_lt_ceiling hmost
  have hvalue : ((Binary64.size m e : Nat) : ℚ) * 2 ^ (-1074 : Int) = m * 2 ^ e := by
    have hexponent : (((e + 1074).toNat : Nat) : Int) = e + 1074 :=
      Int.toNat_of_nonneg (by have := hrounded.least; omega)
    rw [Binary64.size, Nat.cast_mul, Nat.cast_pow, ← zpow_natCast, hexponent, mul_assoc,
      Nat.cast_ofNat, ← zpow_add₀ (by norm_num)]
    congr 2
    omega
  cases s with
  | positive =>
    rw [Binary64.apply_positive, Binary64.apply_positive, ofUnits, if_neg (by omega),
      if_neg (by omega), Int.cast_natCast, Int.cast_natCast, hvalue]
  | negative =>
    rw [Binary64.apply_negative, Binary64.apply_negative, ofUnits, if_neg (by omega),
      if_neg (by omega), Int.cast_neg, Int.cast_neg, Int.cast_natCast, Int.cast_natCast, neg_mul,
      neg_mul, hvalue]

/-- The exact value of a float is its value in units of the least positive float. -/
theorem value?_float (x : Float) :
  (Number.float x).value? = (Binary64.units x).map ofUnits
  := by
  rw [value?, Binary64.parts?]
  cases hdecode : Binary64.decode? x with
  | none =>
    have hpos := Binary64.ceiling_pos
    dsimp only [Option.map_none]
    cases hnan : x.isNaN with
    | true =>
      rw [Binary64.units_eq_none_iff.mpr hnan]
      rfl
    | false =>
      rw [Binary64.units_of_decode?_none hdecode hnan, Option.map_some, if_neg Bool.false_ne_true]
      by_cases hneg : x < 0
      · rw [if_pos hneg, ofUnits, if_neg (by omega), if_pos rfl, decide_eq_true hneg]
      · rw [if_neg hneg, ofUnits, if_pos rfl, decide_eq_false hneg]
  | some decoded =>
    obtain ⟨negative, m, e⟩ := decoded
    obtain ⟨hrounded, hmost, hunits⟩ := Binary64.units_of_decode? hdecode
    simp only [hunits, Option.map_some, ofUnits_apply hrounded hmost]
    cases negative <;> rfl

theorem value?_eq_none_iff {x : Float} : (Number.float x).value? = none ↔ x.isNaN = true
  := by
  rw [value?_float, Option.map_eq_none_iff, Binary64.units_eq_none_iff]

theorem value?_int (n : Int) : (Number.int n).value? = some (.finite n) := rfl

/-- An integer is compared with `m * 2 ^ e` without rounding. -/
theorem compareInt_eq_iff (n : Int) (x : Float) :
  Binary64.compareInt n x = some .eq ↔ (Number.float x).value? = some (.finite n)
  := by
  rw [value?, Binary64.compareInt]
  cases hparts : Binary64.parts? x with
  | none =>
    dsimp only
    split
    · simp
    · split <;> simp
  | some parts =>
    obtain ⟨m, e⟩ := parts
    simp only [Option.some.injEq, Exact.finite.injEq]
    by_cases he : 0 ≤ e
    · obtain ⟨k, rfl⟩ := Int.eq_ofNat_of_zero_le he
      rw [if_pos he, compare_eq_iff_eq, Int.toNat_natCast, zpow_natCast, eq_comm]
      exact_mod_cast Iff.rfl
    · obtain ⟨k, rfl⟩ : ∃ k : Nat, e = -k := ⟨(-e).toNat, by omega⟩
      rw [if_neg he, compare_eq_iff_eq, neg_neg, Int.toNat_natCast, zpow_neg, zpow_natCast,
        ← div_eq_mul_inv, div_eq_iff (by positivity), eq_comm]
      exact_mod_cast Iff.rfl

theorem compare_float_eq_iff (x y : Float) :
  Number.compare (.float x) (.float y) = some .eq ↔ (x == y) = true
  := by
  rw [Number.compare]
  by_cases hlt : x < y
  · have hne : ¬ (x == y) = true := by
      rw [Binary64.beq_iff_units]
      rintro ⟨c, hx, hy⟩
      obtain ⟨a, b, ha, hb, hab⟩ := Binary64.lt_iff.mp hlt
      obtain rfl := Option.some.inj (ha.symm.trans hx)
      obtain rfl := Option.some.inj (hb.symm.trans hy)
      exact lt_irrefl _ hab
    simp [hlt, hne]
  · by_cases heq : (x == y) = true
    · simp [hlt, heq]
    · rw [if_neg hlt, if_neg heq]
      split <;> simp [heq]

/-- Two numbers are the same exactly if they have the same exact value. -/
theorem same_iff (a b : Number) :
  a.same b = true ↔ ∃ v, a.value? = some v ∧ b.value? = some v
  := by
  rw [same, beq_iff_eq]
  cases a with
  | int n =>
    cases b with
    | int n' =>
      simp only [Number.compare, value?_int, Option.some.injEq, compare_eq_iff_eq]
      constructor
      · rintro rfl
        exact ⟨_, rfl, rfl⟩
      · rintro ⟨v, rfl, h⟩
        exact_mod_cast (Exact.finite.inj h).symm
    | float y =>
      rw [Number.compare, compareInt_eq_iff, value?_int]
      simp
  | float x =>
    cases b with
    | int n =>
      have hswap : (Binary64.compareInt n x).map Ordering.swap = some .eq
          ↔ Binary64.compareInt n x = some .eq := by
        cases Binary64.compareInt n x with
        | none => simp
        | some order => cases order <;> simp
      rw [Number.compare, hswap, compareInt_eq_iff, value?_int]
      simp
    | float y =>
      rw [compare_float_eq_iff, Binary64.beq_iff_units, value?_float, value?_float]
      constructor
      · rintro ⟨a, hx, hy⟩
        use ofUnits a
        rw [hx, hy]
        exact ⟨rfl, rfl⟩
      · rintro ⟨v, hx, hy⟩
        obtain ⟨a, ha, rfl⟩ := Option.map_eq_some_iff.mp hx
        obtain ⟨b, hb, hv⟩ := Option.map_eq_some_iff.mp hy
        obtain rfl := ofUnits_injective hv
        exact ⟨b, ha, hb⟩

end Number

end AssetCanvas
