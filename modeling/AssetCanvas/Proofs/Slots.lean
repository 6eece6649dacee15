import AssetCanvas.Proofs.Ports
import AssetCanvas.Proofs.Reordering
import Mathlib.Data.List.Nodup

/-!
# Slots of ports

`Slot.ofPort_itemPort` and `Slot.ofPort_text` read the ports of a node back as slots: the port
of an item as the item, and the port of a field as the field unless the name of the field is
taken.
-/

namespace AssetCanvas

/-! ### Renamed ports -/

namespace Migration

theorem renames_eq (label : String) : renames label = pairRenames ∨ renames label = []
  := by
  have htable : ∀ entry ∈ table, entry.2 = pairRenames := by decide
  unfold renames
  cases h : Entries.find? table label with
  | none =>
    right
    rfl
  | some moved =>
    obtain ⟨label', -, hmem⟩ := Entries.mem_of_find? h
    left
    apply htable _ hmem

/-- A renamed port is one of the inputs of a sum. -/
theorem mem_pairRenames {label port current : String}
    (h : replacement? label port = some current) :
  (port, current) ∈ pairRenames
  := by
  replace h : Entries.find? (renames label) port = some current := h
  rcases renames_eq label with hr | hr
  · rw [hr] at h
    apply Entries.entry_mem_of_find? h
  · simp [hr, Entries.find?] at h

theorem current_eq (label port : String) :
  current label port = (replacement? label port).getD port
  := rfl

/-- A current name is not renamed again. -/
theorem replacement?_of_mem {label port current : String} (h : (port, current) ∈ pairRenames) :
  replacement? label current = none
  := by
  cases hc : replacement? label current with
  | none => rfl
  | some again =>
    have h' := mem_pairRenames hc
    simp only [pairRenames, List.mem_cons, Prod.mk.injEq, List.not_mem_nil, or_false] at h h'
    rcases h with ⟨-, rfl⟩ | ⟨-, rfl⟩ <;> simp at h'

theorem replacement?_current (label port : String) : replacement? label (current label port) = none
  := by
  rw [current_eq]
  cases h : replacement? label port with
  | none => simpa using h
  | some current => exact replacement?_of_mem (mem_pairRenames h)

theorem current_current (label port : String) :
  current label (current label port) = current label port
  := by
  rw [current_eq label (current label port), replacement?_current]
  rfl

theorem current_ne_empty {label port : String} (h : port ≠ "") : current label port ≠ ""
  := by
  have hnames : ∀ rename ∈ pairRenames, rename.2 ≠ "" := by decide
  rw [current_eq]
  cases hr : replacement? label port with
  | none => simpa using h
  | some current => apply hnames _ (mem_pairRenames hr)

/-- Indexed ports are current. -/
theorem replacement?_slot (label field : String) (index : Nat) :
  replacement? label (Port.slot field index) = none
  := by
  cases h : replacement? label (Port.slot field index) with
  | none => rfl
  | some current =>
    have hlast := Port.getLast?_slot field index
    have hmem := mem_pairRenames h
    have hnames : ∀ rename ∈ pairRenames, rename.1.toList.getLast? ≠ some ']' := by decide
    exact (hnames _ hmem hlast).elim

theorem current_slot (label field : String) (index : Nat) :
  current label (Port.slot field index) = Port.slot field index
  := by
  rw [current_eq, replacement?_slot]
  rfl

theorem currentOf_text (label port : String) :
  currentOf label port = .str (current label port)
  := by
  rw [currentOf, current_eq]
  cases replacement? label port <;> rfl

theorem currentValue_str (label port : String) :
  currentValue (.str label) (.str port) = .ok (.str (current label port))
  := by
  rw [← currentOf_text]
  rfl

end Migration

/-! ### Named ports -/

namespace Slot

/-- Named ports come from the table of the types that name them. -/
theorem portNames_cases (type field : String) :
  portNames type field = [] ∨ field = arrayField ∧ ∃ entry ∈ namedInputs,
    entry.1 = type ∧ portNames type field = entry.2
  := by
  unfold portNames
  by_cases hf : field = arrayField
  · rw [if_pos hf]
    cases h : Entries.find? namedInputs type with
    | none => left; rfl
    | some names =>
      right
      use hf, (type, names), Entries.entry_mem_of_find? h, rfl
      rfl
  · left
    rw [if_neg hf]

/-- What is true of no names and of every row of the table is true of the named ports of an
array. -/
theorem portNames_of_rows {P : List String → Prop} (hnil : P [])
    (hrows : ∀ entry ∈ namedInputs, P entry.2) (type field : String) :
  P (portNames type field)
  := by
  rcases portNames_cases type field with h | ⟨-, entry, hmem, -, h⟩
  · rw [h]
    exact hnil
  · rw [h]
    apply hrows entry hmem

theorem of_mem_portNames {P : String → Prop} (hrows : ∀ entry ∈ namedInputs, ∀ name ∈ entry.2, P name)
    {type field name : String} (h : name ∈ portNames type field) :
  P name
  := by
  apply portNames_of_rows (P := fun names => ∀ name ∈ names, P name) _ hrows type field name h
  simp

theorem nodup_portNames (type field : String) : (portNames type field).Nodup
  := by
  apply portNames_of_rows List.nodup_nil
  decide

theorem field_of_mem_portNames {type field name : String} (h : name ∈ portNames type field) :
  field = arrayField
  := by
  rcases portNames_cases type field with hn | ⟨hf, -⟩
  · simp [hn] at h
  · apply hf

/-- A named port is not indexed. -/
theorem parse_of_mem_portNames {type field name : String} (h : name ∈ portNames type field) :
  Port.parse name = .ok (name, none)
  := by
  have hsplit := of_mem_portNames (P := fun name => Port.split? name = none) (by decide) h
  rw [Port.parse, hsplit]

theorem length_portNames_le (type field : String) : (portNames type field).length ≤ 3
  := by
  apply portNames_of_rows (P := fun names => names.length ≤ 3)
  · decide
  · decide

theorem slot_not_mem_portNames (type field field' : String) (index : Nat) :
  Port.slot field' index ∉ portNames type field
  := by
  intro h
  have hlast := of_mem_portNames (P := fun name => name.toList.getLast? ≠ some ']') (by decide) h
  apply hlast (Port.getLast?_slot field' index)

/-- The named ports of an array are fewer than the digits. -/
theorem lt_of_portNames {type field name : String} {index : Nat}
    (h : (portNames type field)[index]? = some name) :
  index < 10 ^ Numeral.maxIntDigits
  := by
  have hlength := length_portNames_le type field
  have hlt := (List.getElem?_eq_some_iff.mp h).1
  apply Port.lt_of_lt_ten
  omega

/-- A legacy port stands for one of the first items of the array of inputs. -/
theorem exists_slot_of_renamed {legacy current : String}
    (h : (legacy, current) ∈ Migration.pairRenames) :
  ∃ i < 2, current = Port.slot arrayField i
  := by
  have htable : ∀ rename ∈ Migration.pairRenames, ∃ i < 2, rename.2 = Port.slot arrayField i := by
    decide
  exact htable _ h

/-- A named port that was renamed belongs to the item that its current name stands for. -/
theorem slot_of_renamed {type field name current : String} {index : Nat}
    (h : (portNames type field)[index]? = some name)
    (hr : (name, current) ∈ Migration.pairRenames) :
  current = Port.slot field index
  := by
  have hmem := List.mem_of_getElem? h
  obtain rfl := field_of_mem_portNames hmem
  have hitems : ∀ rename ∈ Migration.pairRenames, ∀ i < (portNames type arrayField).length,
      (portNames type arrayField)[i]? = some rename.1 → rename.2 = Port.slot arrayField i := by
    apply portNames_of_rows (P := fun names => ∀ rename ∈ Migration.pairRenames,
      ∀ i < names.length, names[i]? = some rename.1 → rename.2 = Port.slot arrayField i)
    · simp
    · decide
  apply hitems _ hr index (List.getElem?_eq_some_iff.mp h).1 h

theorem mem_names_iff {assetType : Json} {field : Key} {label name : String} :
  name ∈ names assetType field label
    ↔ ∃ type s, assetType = .str type ∧ field = .text s ∧ allowsNames label = true
      ∧ name ∈ portNames type s
  := by
  unfold names
  split
  · rename_i type s
    by_cases ha : allowsNames label = true
    · simp [ha]
    · simp [ha]
  · rename_i hne
    constructor
    · intro h
      cases h
    · rintro ⟨type, s, rfl, rfl, -⟩
      exact (hne type s rfl rfl).elim

theorem itemPort_ne_empty (assetType : Json) (field : Key) (index : Nat) (label : String) :
  itemPort assetType field index label ≠ ""
  := by
  rw [itemPort]
  cases hname : (names assetType field label)[index]? with
  | none =>
    intro hempty
    have hlast := Port.getLast?_slot field.spelling index
    rw [Option.getD_none] at hempty
    simp [hempty] at hlast
  | some name =>
    obtain ⟨type, s, -, -, -, hmem⟩ := mem_names_iff.mp (List.mem_of_getElem? hname)
    apply of_mem_portNames (P := fun name => name ≠ "") (by decide) hmem

/-- The current port of an item is its indexed port, or else one of the named ports. -/
theorem current_itemPort_cases (assetType : Json) (field : String) (index : Nat) (label : String) :
  Migration.current label (itemPort assetType (.text field) index label) = Port.slot field index
    ∨ ∃ type, assetType = .str type ∧ allowsNames label = true ∧ (portNames type field)[index]?
      = some (Migration.current label (itemPort assetType (.text field) index label))
  := by
  cases hi : (names assetType (.text field) label)[index]? with
  | none =>
    left
    rw [itemPort, hi]
    apply Migration.current_slot
  | some name =>
    obtain ⟨type, s, rfl, hs, ha, -⟩ := mem_names_iff.mp (List.mem_of_getElem? hi)
    obtain rfl := Key.text.inj hs
    have hport : itemPort (.str type) (.text field) index label = name := by rw [itemPort, hi]; rfl
    have hname : (portNames type field)[index]? = some name := by simpa [names, ha] using hi
    rw [hport, Migration.current_eq]
    cases hr : Migration.replacement? label name with
    | none =>
      right
      use type, rfl, ha, hname
    | some current =>
      left
      apply slot_of_renamed hname (Migration.mem_pairRenames hr)

/-- Different items of the arrays of a node have different ports. -/
theorem current_itemPort_inj {assetType : Json} {label field field' : String} {index index' : Nat}
    (h : Migration.current label (itemPort assetType (.text field) index label)
      = Migration.current label (itemPort assetType (.text field') index' label)) :
  field = field' ∧ index = index'
  := by
  rcases current_itemPort_cases assetType field index label with hp | ⟨type, ht, -, hp⟩ <;>
    rcases current_itemPort_cases assetType field' index' label with hp' | ⟨type', ht', -, hp'⟩
  · rw [hp, hp'] at h
    apply Port.slot_inj.mp h
  · rw [← h, hp] at hp'
    exact (slot_not_mem_portNames _ _ _ _ (List.mem_of_getElem? hp')).elim
  · rw [h, hp'] at hp
    exact (slot_not_mem_portNames _ _ _ _ (List.mem_of_getElem? hp)).elim
  · -- two named ports belong to one array
    obtain rfl := Json.str.inj (ht.symm.trans ht')
    obtain rfl := field_of_mem_portNames (List.mem_of_getElem? hp)
    obtain rfl := field_of_mem_portNames (List.mem_of_getElem? hp')
    rw [← h] at hp'
    use rfl
    obtain ⟨hlt, heq⟩ := List.getElem?_eq_some_iff.mp hp
    obtain ⟨hlt', heq'⟩ := List.getElem?_eq_some_iff.mp hp'
    apply (nodup_portNames type arrayField).getElem_inj_iff.mp (heq.trans heq'.symm)

/-! ### Reading ports -/

theorem ofPort_str (assetType : Json) (port label : String) (record : Json) :
  ofPort assetType (.str port) (.str label) record
    = ofCurrent assetType (Migration.current label port) (.str label) record
  := by
  simp [ofPort, Json.isNull, Migration.currentValue_str]

theorem mayName_str (type label : String) :
  mayName (.str type) (.str label) = .ok (allowsNames label)
  := rfl

/-- A text occurs in the record of some keys exactly if it is one of them. -/
theorem contains_keys (keys : List Key) (s : String) :
  (Json.arr (keys.map Key.toJson)).contains (.str s) = .ok (keys.contains (.text s))
  := by
  have hkey : ∀ k : Key, Json.agrees true k.toJson (.str s) = (Key.text s == k) := by
    intro k
    cases k with
    | text t => simp [Key.toJson, Json.agrees, Json.sameAtom, eq_comm]
    | float x =>
      have hne : (Key.text s == Key.float x) = false := by
        rw [Bool.eq_false_iff, Ne, Key.beq_iff]
        simp only [Key.value]
        split <;> simp
      rw [hne]
      rfl
    | _ => rfl
  simp only [Json.contains, List.any_map, Except.ok.injEq]
  rw [List.contains_eq_any_beq]
  congr 1
  funext k
  apply hkey

/-- The record of the array fields of an asset admits `Inputs` if it lists it. -/
theorem recordAdmits_keys (keys : List Key) :
  recordAdmits (.arr (keys.map Key.toJson)) = .ok (keys.contains (.text arrayField))
  := contains_keys keys arrayField

/-- An indexed port is read as its item. -/
theorem ofCurrent_slot {field : String} (hne : field ≠ "") (hline : '\n' ∉ field.toList)
    {index : Nat} (h : index < 10 ^ Numeral.maxIntDigits) (assetType label record : Json) :
  ofCurrent assetType (Port.slot field index) label record = .ok (field, some index)
  := by
  simp [ofCurrent, Port.parse_slot hne hline h]

/-- A port that is not indexed is read as the field of its name, unless it is a named port of
the array `Inputs`, which the record admits. -/
theorem ofCurrent_of_parse {port : String} (h : Port.parse port = .ok (port, none))
    (assetType : Json) (label : String) {record : Json} {admits : Bool}
    (hr : recordAdmits record = .ok admits) :
  ofCurrent assetType port (.str label) record
    = .ok (match (names assetType arrayField label).idxOf? port with
      | some index => if admits then (arrayField, some index) else (port, none)
      | none => (port, none))
  := by
  cases assetType with
  | str type =>
    by_cases ha : allowsNames label = true
    · cases hi : (portNames type arrayField).idxOf? port with
      | none => simp [ofCurrent, h, mayName_str, ha, names, ofName, hi]
      | some index => cases admits <;> simp [ofCurrent, h, mayName_str, ha, names, ofName, hi, hr]
    · simp [ofCurrent, h, mayName_str, ha, names]
  | null => simp [ofCurrent, h, mayName, Json.isNull, names]
  | _ => simp [ofCurrent, h, mayName, Json.isNull, Label.categoryValue, names]

/-- Without repetitions, an item is found at its index. -/
theorem idxOf?_of_getElem? {l : List String} (h : l.Nodup) {a : String} {i : Nat}
    (hi : l[i]? = some a) :
  l.idxOf? a = some i
  := by
  obtain ⟨hlt, rfl⟩ := List.getElem?_eq_some_iff.mp hi
  apply List.idxOf?_eq_some_iff.mpr
  use hlt
  constructor
  · simp
  · intro j hj heq
    have hij := h.getElem_inj_iff.mp heq
    omega

/-- A record admits a field if there is none or if it lists the field. -/
def Admits (record : Json) (field : String) : Prop :=
  record.isNull = true ∨ record.contains (.str field) = .ok true

theorem Admits.recordAdmits {record : Json} (h : Admits record arrayField) :
  recordAdmits record = .ok true
  := by
  unfold Slot.recordAdmits
  rcases h with h | h
  · rw [if_pos h]
  · by_cases hn : record.isNull = true
    · rw [if_pos hn]
    · rw [if_neg hn, h]

/-- The port of an item is read back as the item. -/
theorem ofPort_itemPort {field : String} (hne : field ≠ "") (hline : '\n' ∉ field.toList)
    {index : Nat} (h : index < 10 ^ Numeral.maxIntDigits) (assetType : Json) (label : String)
    {record : Json} (hr : Admits record field) :
  ofPort assetType (.str (Migration.current label (itemPort assetType (.text field) index label)))
      (.str label) record
    = .ok (field, some index)
  := by
  rw [ofPort_str, Migration.current_current]
  rcases current_itemPort_cases assetType field index label with hp | ⟨type, rfl, ha, hp⟩
  · rw [hp]
    apply ofCurrent_slot hne hline h
  · obtain rfl := field_of_mem_portNames (List.mem_of_getElem? hp)
    have hnames : names (.str type) arrayField label = portNames type arrayField := by
      simp [names, ha]
    have hparse := parse_of_mem_portNames (List.mem_of_getElem? hp)
    have hidx := idxOf?_of_getElem? (nodup_portNames type arrayField) hp
    rw [ofCurrent_of_parse hparse _ _ hr.recordAdmits, hnames, hidx]
    rfl

/-- The index of an item whose port can be read does not have too many digits. -/
theorem lt_of_ofPort_itemPort {field : String} (hne : field ≠ "") (hline : '\n' ∉ field.toList)
    {index : Nat} {assetType record : Json} {label : String} {slot : String × Option Nat}
    (h : ofPort assetType (.str (Migration.current label (itemPort assetType (.text field) index label)))
      (.str label) record = .ok slot) :
  index < 10 ^ Numeral.maxIntDigits
  := by
  rw [ofPort_str, Migration.current_current] at h
  rcases current_itemPort_cases assetType field index label with hp | ⟨type, -, -, hp⟩
  · obtain ⟨parsed, hparse, -⟩ := Fault.bind_eq_ok_iff.mp h
    rw [hp] at hparse
    apply Port.lt_of_parse_slot hne hline hparse
  · apply lt_of_portNames hp

/-- The port of a field is read back as the field, if its name is current, is not read as an
indexed port and is no named port of an array `Inputs` that the record admits. -/
theorem ofPort_text {s label : String} (hl : Migration.replacement? label (.text s) = none)
    (hp : Port.parse s = .ok (s, none)) {assetType record : Json} {admits : Bool}
    (hr : recordAdmits record = .ok admits)
    (hn : admits = true → s ∉ names assetType (.text arrayField) label) :
  ofPort assetType (.str s) (.str label) record = .ok (s, none)
  := by
  rw [ofPort_str, Migration.current_eq, hl, Option.getD_none, ofCurrent_of_parse hp _ _ hr]
  cases hi : (names assetType (.text arrayField) label).idxOf? s with
  | none => rfl
  | some index =>
    cases admits with
    | false => rfl
    | true =>
      have hmem : s ∈ names assetType (.text arrayField) label := by
        rw [← List.isSome_idxOf?, hi]
        rfl
      exact (hn rfl hmem).elim

/-- The current name of a port can be read exactly if the port can. -/
theorem exists_parse_current_iff (label port : String) :
  (∃ slot, Port.parse (Migration.current label port) = .ok slot)
    ↔ ∃ slot, Port.parse port = .ok slot
  := by
  have hlegacy : ∀ rename ∈ Migration.pairRenames, Port.split? rename.1 = none := by decide
  rw [Migration.current_eq]
  cases hm : Migration.replacement? label port with
  | none => rfl
  | some current =>
    have hmem := Migration.mem_pairRenames hm
    obtain ⟨i, hi, hslot⟩ := exists_slot_of_renamed hmem
    constructor
    · intro _
      use (port, none)
      rw [Port.parse, hlegacy _ hmem]
    · intro _
      use (arrayField, some i)
      rw [Option.getD_some, hslot]
      apply Port.parse_slot (by decide) (by decide) (Port.lt_of_lt_ten (by omega))

/-- A port means a slot exactly if it can be read. -/
theorem exists_ofPort_iff (port : String) (assetType : Json) (label : String) {record : Json}
    {admits : Bool} (hr : recordAdmits record = .ok admits) :
  (∃ slot, ofPort assetType (.str port) (.str label) record = .ok slot)
    ↔ ∃ slot, Port.parse port = .ok slot
  := by
  rw [ofPort_str, ← exists_parse_current_iff label port]
  constructor
  · rintro ⟨slot, h⟩
    obtain ⟨parsed, hparse, -⟩ := Fault.bind_eq_ok_iff.mp h
    use parsed, hparse
  · rintro ⟨⟨field, index⟩, hparse⟩
    cases index with
    | some index => simp [ofCurrent, hparse]
    | none =>
      rw [Port.eq_of_parse hparse] at hparse
      rw [ofCurrent_of_parse hparse _ _ hr]
      exact ⟨_, rfl⟩

/-- A port that is not indexed is read as the field of its name, and any port may be read as an
item of an array whose name is not empty and has no line feed. -/
theorem ofCurrent_cases {assetType label record : Json} {port field : String} {index : Option Nat}
    (h : ofCurrent assetType port label record = .ok (field, index)) :
  (field = port ∧ index = none ∧ Port.parse port = .ok (port, none))
    ∨ (field ≠ "" ∧ '\n' ∉ field.toList) ∧ index.isSome = true
  := by
  obtain ⟨⟨field', index'⟩, hparse, h⟩ := Fault.bind_eq_ok_iff.mp h
  cases index' with
  | some i =>
    obtain ⟨rfl, rfl⟩ := Prod.mk.inj (Except.ok.inj h)
    right
    use Port.field_of_parse hparse
    rfl
  | none =>
    have hport : ∀ {x : Except Fault (String × Option Nat)}, x = .ok (port, none) →
        x = .ok (field, index) →
          field = port ∧ index = none ∧ Port.parse port = .ok (port, none) := by
      intro x hx hx'
      obtain ⟨hfield, hindex⟩ := Prod.mk.inj (Except.ok.inj (hx.symm.trans hx'))
      rw [hparse, Port.eq_of_parse hparse]
      exact ⟨hfield.symm, hindex.symm, rfl⟩
    obtain ⟨allowed, -, h⟩ := Fault.bind_eq_ok_iff.mp h
    cases allowed with
    | false => exact .inl (hport rfl h)
    | true =>
      cases assetType with
      | str type =>
        simp only [ofName, if_true] at h
        split at h
        · obtain ⟨admits, -, h⟩ := Fault.bind_eq_ok_iff.mp h
          cases admits with
          | false => exact .inl (hport rfl h)
          | true =>
            obtain ⟨rfl, rfl⟩ := Prod.mk.inj (Except.ok.inj h)
            right
            constructor
            · decide
            · rfl
        · exact .inl (hport rfl h)
      | _ => exact .inl (hport rfl h)

end Slot

end AssetCanvas
