import AssetCanvas.Json.Spelling
import AssetCanvas.Proofs.Fault
import Mathlib.Algebra.Ring.Int.Defs
import Mathlib.Algebra.Ring.Nat

/-!
# Values that have a spelling

A value has a spelling exactly if every integer in it can be written, so texts, truth values,
floats and null always have one.  An operation that spells a value succeeds exactly if the value
has a spelling, `Json.exists_spelled_iff`, and there is only one fault, `Json.spelled_eq_error_iff`.
-/

namespace AssetCanvas

@[simp] theorem Key.isSpellable_text (s : String) : (Key.text s).isSpellable = true := rfl

/-- A key has a spelling exactly if the value it stands for has one. -/
@[simp] theorem Key.isSpellable_toJson (k : Key) : k.toJson.isSpellable = k.isSpellable
  := by
  cases k <;> rfl

namespace Json

@[simp] theorem isSpellable_str (s : String) : (str s).isSpellable = true := rfl

@[simp] theorem isSpellable_null : null.isSpellable = true := rfl

@[simp] theorem spelled_str (s : String) : (str s).spelled = .ok s := rfl

@[simp] theorem areSpellable_eq (items : List Json) : areSpellable items = items.all isSpellable
  := by
  induction items with
  | nil => rfl
  | cons v rest ih => rw [areSpellable, List.all_cons, ih]

@[simp] theorem haveSpelling_eq (fields : Fields) :
  haveSpelling fields = fields.all fun f => f.1.isSpellable && f.2.isSpellable
  := by
  induction fields with
  | nil => rfl
  | cons f rest ih => rw [haveSpelling, List.all_cons, ih]

theorem isSpellable_int_iff {n : Int} :
  (int n).isSpellable = true ↔ n.natAbs < 10 ^ Numeral.maxIntDigits
  := by
  rw [isSpellable, Numeral.isWritable, decide_eq_true_iff, Nat.pow_eq]

/-- An integer with too many digits has no spelling. -/
theorem not_isSpellable_power :
  (int (10 ^ Numeral.maxIntDigits)).isSpellable = false
  := by
  rw [← Bool.not_eq_true, isSpellable_int_iff, Int.natAbs_pow, Nat.not_lt]
  exact Nat.pow_le_pow_left (by decide) _

theorem spelled_eq_ok {v : Json} (h : v.isSpellable = true) : v.spelled = .ok v.spelling
  := by
  rw [spelled, if_pos h]

theorem exists_spelled_iff {v : Json} : (∃ text, v.spelled = .ok text) ↔ v.isSpellable = true
  := by
  cases h : v.isSpellable <;> simp [spelled, h]

theorem spelled_eq_error_iff {v : Json} {fault : Fault} :
  v.spelled = .error fault ↔ v.isSpellable = false ∧ fault = .unusableValue
  := by
  cases h : v.isSpellable <;> simp [spelled, h, eq_comm]

/-- A missing or empty value has a spelling, as its default has. -/
theorem isSpellable_orDefault (v : Json) (default : String) :
  (if v.truthy then v else str default).isSpellable = v.isSpellable
  := by
  split
  next => rfl
  next htruthy =>
    rw [isSpellable_str]
    cases v with
    | int n =>
      obtain rfl : n = 0 := by simpa [truthy] using htruthy
      rw [eq_comm, isSpellable_int_iff]
      exact Nat.pow_pos (by decide)
    | arr items =>
      obtain rfl : items = [] := by simpa [truthy] using htruthy
      rfl
    | obj fields =>
      obtain rfl : fields = [] := by simpa [truthy] using htruthy
      rfl
    | _ => rfl

end Json

end AssetCanvas
