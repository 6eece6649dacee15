import AssetCanvas.Json.Number
import AssetCanvas.Proofs.Floats
import AssetCanvas.Proofs.Requests
import AssetCanvas.Proofs.Spelling

/-!
# Loosely typed numbers

A field that should hold a number may hold any value.  `Json.coerce` takes the number of the
value, or the default of the field if the value stands for no number.  It has a float for every
value except an integer beyond the finite floats, `Json.Huge`, for which it fails:
`Json.coerce_eq`.
-/

namespace AssetCanvas

open Fault

namespace Json

/-- Whether a value is an integer beyond the finite floats. -/
def Huge : Json → Prop
  | .int n => Binary64.ofInt? n = none
  | _ => False

instance : DecidablePred Huge
  | .int n => inferInstanceAs (Decidable (Binary64.ofInt? n = none))
  | .null | .bool _ | .float _ | .str _ | .arr _ | .obj _ => inferInstanceAs (Decidable False)

/-- The float that a value stands for: its own, the nearest one of an integer, or the one of a
numeral. -/
def float? : Json → Option Float
  | .int n => Binary64.ofInt? n
  | .float x => some x
  | .str s => Numeral.toFloat? s
  | _ => none

/-- The value of a field of an object; null if there is none. -/
def entry (v : Json) (key : String) : Json :=
  match v with
  | .obj fields => field fields key
  | _ => .null

/-- Whether one of some fields is an integer beyond the finite floats. -/
def HasHuge (v : Json) (keys : List String) : Prop := ∃ key ∈ keys, (v.entry key).Huge

instance (v : Json) (keys : List String) : Decidable (v.HasHuge keys) :=
  inferInstanceAs (Decidable (∃ key ∈ keys, (v.entry key).Huge))

/-- The number of a value is its float or the default; only an integer beyond the finite floats is
a fault. -/
theorem coerce_eq (v : Json) (default : Float) :
  v.coerce default = if v.Huge then .error .outOfRange else .ok (v.float?.getD default)
  := by
  cases v with
  | int n =>
    cases h : Binary64.ofInt? n <;> simp [coerce, coerce?, Huge, float?, h]
  | null | bool _ | float _ | str _ | arr _ | obj _ => simp [coerce, coerce?, Huge, float?]

theorem failsIf_coerce? (v : Json) : FailsIf v.coerce? v.Huge
  := by
  cases v with
  | int n =>
    cases h : Binary64.ofInt? n with
    | none =>
      simp only [coerce?, h]
      exact .error h (.inl rfl)
    | some x =>
      simp only [coerce?, h]
      exact .ok (by simp [Huge, h])
  | null | bool _ | float _ | str _ | arr _ | obj _ => exact .ok id

theorem failsIf_coerce (v : Json) (default : Float) : FailsIf (v.coerce default) v.Huge
  := v.failsIf_coerce?.map _

/-- A value without a spelling is not spelled. -/
theorem failsIf_spelled (v : Json) : FailsIf v.spelled (v.isSpellable = false)
  := by
  cases h : v.isSpellable with
  | true => exact (FailsIf.of_ok (spelled_eq_ok h)).congr (by simp)
  | false =>
    rw [spelled_eq_error_iff.mpr ⟨h, rfl⟩]
    exact .error rfl (.inr rfl)

/-- A vector that is no object is the origin. -/
theorem failsIf_coerceXYZ (v : Json) : FailsIf v.coerceXYZ (v.HasHuge ["x", "y", "z"])
  := by
  cases v with
  | obj fields =>
    simp only [coerceXYZ]
    apply FailsIf.congr
    · apply (failsIf_coerce _ _).bind
      intro x _
      apply (failsIf_coerce _ _).bind
      intro y _
      apply (failsIf_coerce _ _).map
    · simp [HasHuge, entry]
  | null | bool _ | int _ | float _ | str _ | arr _ =>
    exact (FailsIf.of_ok rfl).congr (by simp [HasHuge, entry, Huge])

end Json

end AssetCanvas
