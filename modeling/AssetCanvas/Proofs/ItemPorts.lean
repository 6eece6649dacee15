import AssetCanvas.Proofs.Slots
import Mathlib.Data.Int.Order.Basic

/-!
# Ports of items

`Slot.currentPort` is the current port of an item of an array field, for types, fields, indices
and labels of any kind, and `Slot.readBack` the slot that is read from it.  For the types, labels
and fields that texts give it is the port of a layout, `Slot.currentPort_text`, so the slot that
is read is the item, `Slot.readBack_eq`.  The only items beyond reach are those whose indices have
too many digits.
-/

namespace AssetCanvas

/-- An indexed port whose index has too many digits cannot be read. -/
theorem Port.parse_slot_of_le {field : String} (hne : field ≠ "") (hline : '\n' ∉ field.toList)
    {index : Nat} (h : 10 ^ Numeral.maxIntDigits ≤ index) :
  parse (slot field index) = .error .unusableValue
  := by
  have hlength : ¬ (Nat.toDigits 10 index).length ≤ Numeral.maxIntDigits := by
    rw [Nat.length_toDigits_le_iff (by decide) (by decide)]
    omega
  simp [parse, split?_slot, hne, hline, Numeral.natural?, hlength]

namespace Slot

/-- The current port of an item of an array field. -/
def currentPort (assetType field index label : Json) : Except Fault Json := do
  Migration.currentValue label (.str (← portOf assetType field index label))

/-- The slot that is read from the current port of an item. -/
def readBack (assetType field index label record : Json) : Except Fault (String × Option Nat) := do
  ofPort assetType (← currentPort assetType field index label) label record

/-! ### Texts -/

/-- The named ports of a node with a text for a label. -/
theorem namesOf_text (assetType : Option String) (field label : String) :
  namesOf (Json.ofOption assetType) (.str field) (.str label)
    = .ok (names (Json.ofOption assetType) (.text field) label)
  := by
  cases assetType with
  | none => rfl
  | some type =>
    by_cases ha : allowsNames label = true
    · simp [namesOf, Json.ofOption, mayName_str, ha, names, Json.key, Json.key?, Key.text?]
    · simp [namesOf, Json.ofOption, mayName_str, ha, names]

/-- The port of an item of a field, named or indexed. -/
theorem portOf_text (assetType : Option String) (field label : String) (index : Nat) :
  portOf (Json.ofOption assetType) (.str field) (.int index) (.str label)
    = .ok (itemPort (Json.ofOption assetType) (.text field) index label)
  := by
  have hslot : Port.slotOf (.str field) (.int index) = Port.slot field index := rfl
  rw [portOf, namesOf_text, Fault.ok_bind, itemPort, hslot]
  generalize names (Json.ofOption assetType) (.text field) label = ports
  have hspelling : (Key.text field).spelling = field := rfl
  by_cases hempty : ports.isEmpty = true
  · rw [if_pos hempty, List.isEmpty_iff.mp hempty]
    rfl
  · rw [if_neg hempty]
    have hless : (Number.int index).lt (.int ports.length) = true ↔ index < ports.length := by
      simp [Number.lt, Number.compare, compare_lt_iff_lt]
    simp only [Json.number, Json.number?, Fault.ok_bind, hless]
    by_cases hlt : index < ports.length
    · rw [if_pos hlt, List.getElem?_eq_getElem hlt]
      have hnat : ¬ (index : Int) < 0 := by omega
      simp [nameAt, hnat, hlt]
    · rw [if_neg hlt, List.getElem?_eq_none (by omega)]
      rfl

/-- The current port of an item on a node with a text for a label. -/
theorem currentPort_text (assetType : Option String) (field label : String) (index : Nat) :
  currentPort (Json.ofOption assetType) (.str field) (.int index) (.str label)
    = .ok (.str (Migration.current label
        (itemPort (Json.ofOption assetType) (.text field) index label)))
  := by
  rw [currentPort, portOf_text, Fault.ok_bind, Migration.currentValue_str]

/-! ### Reading back -/

/-- An item whose index has too many digits has an indexed port, which cannot be read. -/
theorem ofPort_itemPort_of_le {field : String} (hne : field ≠ "") (hline : '\n' ∉ field.toList)
    {index : Nat} (h : 10 ^ Numeral.maxIntDigits ≤ index) (assetType : Json) (label : String)
    (record : Json) :
  ofPort assetType (.str (Migration.current label (itemPort assetType (.text field) index label)))
      (.str label) record
    = .error .unusableValue
  := by
  rw [ofPort_str, Migration.current_current]
  rcases current_itemPort_cases assetType field index label with hp | ⟨type, -, -, hp⟩
  · rw [hp, ofCurrent.eq_def, Port.parse_slot_of_le hne hline h]
    rfl
  · -- there are no more than three named ports
    exact (Nat.not_lt_of_le h (lt_of_portNames hp)).elim

/-- The current port of an item is read back as the item, if its index does not have too many
digits, and else it cannot be read.  Different items of one node never share a port. -/
theorem readBack_eq {field : String} (hne : field ≠ "") (hline : '\n' ∉ field.toList)
    (assetType : Option String) (label : String) {record : Json} (hr : Admits record field)
    (index : Nat) :
  readBack (Json.ofOption assetType) (.str field) (.int index) (.str label) record
      = (if index < 10 ^ Numeral.maxIntDigits then .ok (field, some index)
        else .error .unusableValue)
    ∧ ∀ (field' : String) (index' : Nat),
      currentPort (Json.ofOption assetType) (.str field) (.int index) (.str label)
          = currentPort (Json.ofOption assetType) (.str field') (.int index') (.str label) →
        field = field' ∧ index = index'
  := by
  constructor
  · rw [readBack, currentPort_text, Fault.ok_bind]
    by_cases h : index < 10 ^ Numeral.maxIntDigits
    · rw [if_pos h]
      apply ofPort_itemPort hne hline h _ label hr
    · rw [if_neg h]
      apply ofPort_itemPort_of_le hne hline (Nat.le_of_not_lt h)
  · intro field' index' hsame
    rw [currentPort_text, currentPort_text] at hsame
    apply current_itemPort_inj (Json.str.inj (Except.ok.inj hsame))

/-- A name in brackets is part of the name of the array, and the third input of a blend has a port
of its own. -/
theorem readBack_bracketed :
  readBack (.str "Blend") (.str "Layers[1]") (.int 20) (.str "Blend") .null
      = .ok ("Layers[1]", some 20)
    ∧ readBack (.str "Blend") (.str "Inputs") (.int 2) (.str "Blend") (.arr [.str "Inputs"])
      = .ok ("Inputs", some 2)
  := by
  have hbound : ∀ index < 10 ^ 2, index < 10 ^ Numeral.maxIntDigits := fun index h =>
    Nat.lt_of_lt_of_le h (Nat.pow_le_pow_right (by decide) (by decide))
  constructor
  · have hfield : "Layers[1]" ≠ "" ∧ '\n' ∉ "Layers[1]".toList := by decide
    have hrecord : Admits .null "Layers[1]" := .inl rfl
    have h := (readBack_eq hfield.1 hfield.2 (some "Blend") "Blend" hrecord 20).1
    rwa [if_pos (hbound 20 (by decide))] at h
  · have hfield : "Inputs" ≠ "" ∧ '\n' ∉ "Inputs".toList := by decide
    have hrecord : Admits (.arr [.str "Inputs"]) "Inputs" := .inr rfl
    have h := (readBack_eq hfield.1 hfield.2 (some "Blend") "Blend" hrecord 2).1
    rwa [if_pos (hbound 2 (by decide))] at h

/-- The first index with too many digits is not read back. -/
theorem not_readBack_power :
  readBack (.str "Sum") (.str "Inputs") (.int (10 ^ Numeral.maxIntDigits : Nat)) (.str "Sum") .null
    ≠ .ok ("Inputs", some (10 ^ Numeral.maxIntDigits))
  := by
  have hport : currentPort (.str "Sum") (.str "Inputs") (.int (10 ^ Numeral.maxIntDigits : Nat))
      (.str "Sum") = _ := currentPort_text (some "Sum") "Inputs" "Sum" _
  rw [readBack, hport, Fault.ok_bind, Json.ofOption,
    ofPort_itemPort_of_le (by decide) (by decide) (Nat.le_refl _)]
  simp

end Slot

end AssetCanvas
