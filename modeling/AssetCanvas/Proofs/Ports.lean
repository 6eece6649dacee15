import AssetCanvas.Proofs.Fault
import AssetCanvas.Slot
import Mathlib.Algebra.Group.Nat.Defs

/-!
# Ports and slots

The port of an item of an array field is read back as the slot of the item, and the port of a
field as the slot of the field, where the name of the field means nothing else: an empty name
and a line feed cannot be read in an indexed port, a legacy name stands for another port, and
the named ports of `Inputs` belong to the array if the record admits it.
-/

namespace AssetCanvas

/-! ### Digits -/

namespace Digit

/-- The digits of ASCII are decimal digits. -/
theorem value?_of_isDigit {c : Char} (h : c.isDigit = true) :
  value? c = some (c.toNat - 48)
  := by
  simp only [Char.isDigit, Bool.and_eq_true, decide_eq_true_eq] at h
  have low : 48 ≤ c.toNat := h.1
  have high : c.toNat ≤ 57 := h.2
  simp [value?, zeros, low, high]

theorem isDigit_of_isDigit {c : Char} (h : c.isDigit = true) : isDigit c = true
  := by
  simp [isDigit, value?_of_isDigit h]

theorem isDigit_of_mem_toDigits {n : Nat} {c : Char} (h : c ∈ Nat.toDigits 10 n) :
  isDigit c = true
  := isDigit_of_isDigit (Nat.isDigit_of_mem_toDigits (by decide) (by decide) h)

/-- Reading the digits of a number gives the number. -/
theorem toNat_toDigits (n : Nat) : toNat (Nat.toDigits 10 n) = n
  := by
  suffices ∀ (cs : List Char) (m : Nat), (∀ c ∈ cs, c.isDigit = true) →
      cs.foldl (fun n c => 10 * n + (value? c).getD 0) m = Nat.ofDigitChars 10 cs m by
    rw [toNat, this, Nat.ofDigitChars_ten_toDigits]
    exact fun c hc => Nat.isDigit_of_mem_toDigits (by decide) (by decide) hc
  intro cs
  induction cs with
  | nil => simp
  | cons c rest ih =>
    intro m h
    have hc := value?_of_isDigit (h c (by simp))
    rw [List.foldl_cons, Nat.ofDigitChars_cons, hc, ih]
    · rfl
    · exact fun c' hc' => h c' (by simp [hc'])

theorem natural?_toDigits {n : Nat} (h : n < 10 ^ Numeral.maxIntDigits) :
  Numeral.natural? (Nat.toDigits 10 n) = some n
  := by
  have hlength : (Nat.toDigits 10 n).length ≤ Numeral.maxIntDigits :=
    (Nat.length_toDigits_le_iff (by decide) (by decide)).mpr h
  have hall : (Nat.toDigits 10 n).all isDigit = true :=
    List.all_eq_true.mpr fun c hc => isDigit_of_mem_toDigits hc
  have hne : (Nat.toDigits 10 n).isEmpty = false := by simp
  simp [Numeral.natural?, hlength, number?, hall, hne, toNat_toDigits]

end Digit

/-! ### Indexed ports -/

namespace Port

theorem toList_slot (field : String) (index : Nat) :
  (slot field index).toList = field.toList ++ '[' :: (Nat.toDigits 10 index ++ [']'])
  := by
  simp [slot, toString, Nat.repr]

/-- The parts of an indexed port, read from the back. -/
theorem splitReversed_slot (field : String) (index : Nat) :
  splitReversed (slot field index).toList.reverse
    = some (field.toList.reverse, Nat.toDigits 10 index)
  := by
  have hdigits : ∀ c ∈ (Nat.toDigits 10 index).reverse, Digit.isDigit c = true :=
    fun c hc => Digit.isDigit_of_mem_toDigits (List.mem_reverse.mp hc)
  have hbracket : Digit.isDigit '[' = false := by decide
  have hreverse : (slot field index).toList.reverse
      = ']' :: ((Nat.toDigits 10 index).reverse ++ '[' :: field.toList.reverse) := by
    simp [toList_slot]
  rw [hreverse]
  simp only [splitReversed, List.dropWhile_append_of_pos hdigits,
    List.takeWhile_append_of_pos hdigits]
  simp [hbracket]

/-- Different items of different fields have different indexed ports. -/
theorem slot_inj {field field' : String} {index index' : Nat} :
  slot field index = slot field' index' ↔ field = field' ∧ index = index'
  := by
  constructor
  · intro h
    have hsplit := splitReversed_slot field index
    rw [h, splitReversed_slot, Option.some.injEq, Prod.mk.injEq, List.reverse_inj,
      String.toList_inj] at hsplit
    obtain ⟨hfield, hindex⟩ := hsplit
    use hfield.symm
    rw [← Digit.toNat_toDigits index, ← hindex, Digit.toNat_toDigits]
  · rintro ⟨rfl, rfl⟩
    rfl

theorem getLast?_slot (field : String) (index : Nat) :
  (slot field index).toList.getLast? = some ']'
  := by
  have hlast : (slot field index).toList
      = (field.toList ++ '[' :: Nat.toDigits 10 index) ++ [']'] := by
    simp [toList_slot]
  rw [hlast, List.getLast?_append]
  rfl

/-- Only a name that is not empty and has no line feed can be read in an indexed port. -/
theorem split?_slot (field : String) (index : Nat) :
  split? (slot field index)
    = if field = "" ∨ '\n' ∈ field.toList then none else some (field, Nat.toDigits 10 index)
  := by
  have hhead : (slot field index).toList.reverse.head? = some ']' := by
    rw [List.head?_reverse, getLast?_slot]
  by_cases h : field = "" ∨ '\n' ∈ field.toList
  · simp [split?, hhead, splitReversed_slot, h]
  · simp [split?, hhead, splitReversed_slot, h]

/-- Indices of one digit do not have too many digits. -/
theorem lt_of_lt_ten {index : Nat} (h : index < 10) : index < 10 ^ Numeral.maxIntDigits
  := Nat.lt_of_lt_of_le h (Nat.pow_le_pow_right (by decide : 0 < 10) (by decide : 1 ≤ _))

/-- An indexed port is read as its field and its index. -/
theorem parse_slot {field : String} (hne : field ≠ "") (hline : '\n' ∉ field.toList)
    {index : Nat} (h : index < 10 ^ Numeral.maxIntDigits) :
  parse (slot field index) = .ok (field, some index)
  := by
  simp only [parse, split?_slot, hne, hline, or_self, if_false, Digit.natural?_toDigits h]

/-- The index of a port that can be read does not have too many digits. -/
theorem lt_of_parse_slot {field : String} (hne : field ≠ "") (hline : '\n' ∉ field.toList)
    {index : Nat} {parsed : String × Option Nat} (h : parse (slot field index) = .ok parsed) :
  index < 10 ^ Numeral.maxIntDigits
  := by
  by_contra hlarge
  have hlength : ¬ (Nat.toDigits 10 index).length ≤ Numeral.maxIntDigits := by
    rwa [Nat.length_toDigits_le_iff (by decide) (by decide)]
  simp [parse, split?_slot, hne, hline, Numeral.natural?, hlength] at h

/-- A port that is not indexed is read as itself. -/
theorem eq_of_parse {port field : String} (h : parse port = .ok (field, none)) : field = port
  := by
  unfold parse at h
  split at h
  · exact (Prod.mk.inj (Except.ok.inj h)).1.symm
  · split at h <;> cases h

/-- The field of a port that is read as an indexed one is not empty and has no line feed. -/
theorem field_of_split? {port field : String} {digits : List Char}
    (h : split? port = some (field, digits)) :
  field ≠ "" ∧ '\n' ∉ field.toList
  := by
  unfold split? at h
  obtain ⟨⟨reversed, digits'⟩, hsplit, h⟩ := Option.bind_eq_some_iff.mp h
  simp only [Option.ite_none_left_eq_some] at h
  obtain ⟨hname, h⟩ := h
  obtain ⟨rfl, rfl⟩ : String.ofList reversed.reverse = field ∧ digits' = digits := by
    simpa using h
  simp only [Bool.or_eq_true, List.isEmpty_iff, List.contains_iff_mem, not_or] at hname
  constructor
  · simpa using hname.1.1
  · simpa using hname.1.2

/-- The field of an indexed port. -/
theorem field_of_parse {port field : String} {index : Nat}
    (h : parse port = .ok (field, some index)) :
  field ≠ "" ∧ '\n' ∉ field.toList
  := by
  unfold parse at h
  cases hsplit : split? port with
  | none => simp [hsplit] at h
  | some parts =>
    obtain ⟨field', digits⟩ := parts
    simp only [hsplit] at h
    cases hnat : Numeral.natural? digits with
    | none => simp [hnat] at h
    | some index' =>
      obtain ⟨rfl, -⟩ : field' = field ∧ index' = index := by simpa [hnat] using h
      apply field_of_split? hsplit

end Port

end AssetCanvas
