import AssetCanvas.Proofs.Composition

/-!
# Canonical forms

Laying a tree out and putting it together again may rename fields, merge named fields into an
array, close the gaps of an array, give an asset a discriminant and collect the disconnected
trees at the root, `Asset.recast`.  What comes out is a fixed point, so that doing the same again
changes nothing but the order of keys.  The slots in which the children of an asset end up,
`Asset.Moves`, show that every asset keeps its label on the way, `Asset.Recast.label_eq`, and
that its children stay where they are from then on, `Asset.Recast.stable`.
-/

namespace AssetCanvas

open Json Assembly

/-- Assets in fields with the names of ports have no category. -/
theorem Slot.fieldCategory?_of_mem_names {assetType : Json} {field : Key} {label name : String}
    (h : name ∈ names assetType field label) :
  Label.fieldCategory? (some name) = none
  := by
  obtain ⟨type, s, -, -, -, hmem⟩ := mem_names_iff.mp h
  apply of_mem_portNames (P := fun name => Label.fieldCategory? (some name) = none) (by decide) hmem

namespace Asset

/-- An asset of a tree with a canonical form: a mapping with a discriminant that can be a key, and
with a list, if anything, under the key of disconnected trees; the names of its nested assets are
not read as indexed ports, and it has no more children and trees than fit into memory. -/
structure Regular (fields : Fields) : Prop where
  mapping : Mapping fields
  fits : Fits fields
  listed : ∀ v, Entries.find? fields (.text disconnectedKey) = some v → ∃ items, v = .arr items
  plain : ∀ c ∈ children fields, c.index = none → Port.parse c.name = .ok (c.name, none)

variable {parent : Option String} {fields : Fields}

/-- A label that allows named ports is the discriminant. -/
theorem label_of_allowsNames (h : Slot.allowsNames (classify fields parent).label = true) :
  (classify fields parent).label = typeText (Json.field fields typeKey)
  := by
  rw [classify] at h ⊢
  by_cases hv : isVectorConstant fields = true
  · have hvector : Slot.allowsNames Label.vectorConstant = false := by decide
    simp [hv, hvector] at h
  · rw [if_neg hv] at h ⊢
    simp only [Label.resolve] at h ⊢
    cases hc : Label.fieldCategory? parent with
    | none => rfl
    | some c =>
      obtain ⟨hne, hsep⟩ := Label.of_fieldCategory? hc
      simp [hc, Slot.allowsNames, Label.category_withCategory hsep, hne] at h

/-- Where ports were renamed there are no named ports. -/
theorem names_of_replacement {port : Key}
    (h : (Migration.replacement? (classify fields parent).label port).isSome = true) (field : Key) :
  Slot.names (shownType fields) field (classify fields parent).label = []
  := by
  have htable : ∀ entry ∈ Migration.table,
      Slot.allowsNames entry.1 = false ∨ entry.1 = "Sum" := by decide
  have hsum : ∀ s, Slot.portNames "Sum" s = [] := by
    intro s
    have hnone : Entries.find? Slot.namedInputs "Sum" = none := by decide
    simp [Slot.portNames, hnone]
  have hlabel : Slot.allowsNames (classify fields parent).label = false
      ∨ (classify fields parent).label = "Sum" := by
    cases hfind : Entries.find? Migration.table (classify fields parent).label with
    | none =>
      rw [Migration.replacement?, Migration.renames, hfind] at h
      cases ht : port.text? <;> simp [ht, Entries.find?] at h
    | some renames =>
      apply htable _ (Entries.entry_mem_of_find? hfind)
  by_cases ha : Slot.allowsNames (classify fields parent).label = true
  · have htext := label_of_allowsNames ha
    rcases hlabel with hfalse | hlabel
    · rw [ha] at hfalse
      cases hfalse
    · rw [hlabel, ← typeText_shownType] at htext
      cases ht : shownType fields with
      | str type =>
        rw [ht] at htext
        obtain rfl : "Sum" = type := htext
        cases field <;> simp [Slot.names, hsum]
      | _ => cases field <;> rfl
  · cases shownType fields <;> cases field <;> simp [Slot.names, ha]

/-! ### Slots of children -/

/-- Where the children of an asset end up: a child stays in its slot, becomes an item of `Inputs`,
which the asset has or which its legacy port stands for, or keeps the port of an array whose name
is not read in it. -/
inductive Moves (parent : Option String) (fields : Fields) (c : Child) :
    String × Option Nat → Prop
  | kept : Moves parent fields c c.slot
  | input (index : Nat) :
    Label.fieldCategory? (some c.name) = none →
      .text Slot.arrayField ∈ arrays fields
        ∨ (Migration.replacement? (classify fields parent).label (.text c.name)).isSome = true →
      Moves parent fields c (Slot.arrayField, some index)
  | unread (name : String) :
    Label.fieldCategory? (some c.name) = none → name.toList.getLast? = some ']' →
      Moves parent fields c (name, none)

/-- The port of a nested asset means its field or an item of `Inputs`. -/
theorem moves_nested (h : Regular fields) {c : Child} (hc : c ∈ children fields)
    (hi : c.index = none) :
  ∃ slot, slotOf (content parent fields) (shownType fields) (portOf parent fields c) = .ok slot
    ∧ Moves parent fields c slot
  := by
  have hkept : Moves parent fields c (c.name, none) := by
    have hslot : c.slot = (c.name, none) := by rw [Child.slot, hi]
    rw [← hslot]
    apply Moves.kept
  rw [portOf_nested h.mapping hc hi, slotOf, content, Slot.ofPort_str, Migration.current_current,
    Migration.current_eq]
  cases hr : Migration.replacement? (classify fields parent).label (.text c.name) with
  | some current =>
    -- a legacy port stands for an item
    have hmem := Migration.mem_pairRenames hr
    have hcategory : ∀ rename ∈ Migration.pairRenames,
        Label.fieldCategory? (some rename.1) = none := by decide
    obtain ⟨i, hlt, rfl⟩ := Slot.exists_slot_of_renamed hmem
    use (Slot.arrayField, some i)
    constructor
    · apply Slot.ofCurrent_slot (by decide) (by decide) (Port.lt_of_lt_ten (by omega))
    · apply Moves.input i (hcategory _ hmem)
      right
      rw [hr]
      rfl
  | none =>
    rw [Option.getD_none, Slot.ofCurrent_of_parse (h.plain c hc hi) _ _ (Slot.recordAdmits_keys _)]
    cases hindex : (Slot.names (shownType fields) (.text Slot.arrayField)
        (classify fields parent).label).idxOf? c.name with
    | none => exact ⟨_, rfl, hkept⟩
    | some i =>
      by_cases hadmits : (arrays fields).contains (.text Slot.arrayField) = true
      · -- a named port belongs to the array `Inputs`
        have hmem : c.name ∈ Slot.names (shownType fields) (.text Slot.arrayField)
            (classify fields parent).label := by
          rw [← List.isSome_idxOf?, hindex]
          rfl
        simp only [hadmits, if_true]
        refine ⟨_, rfl, .input i (Slot.fieldCategory?_of_mem_names hmem) ?_⟩
        left
        apply Key.contains_text_iff.mp hadmits
      · simp only [hadmits]
        exact ⟨_, rfl, hkept⟩

/-- Assets in a field without a name or with a name of several lines have no category. -/
theorem fieldCategory?_of_unread {name : String} (h : name = "" ∨ '\n' ∈ name.toList) :
  Label.fieldCategory? (some name) = none
  := by
  have htable : ∀ entry ∈ Label.fieldCategories, entry.1 ≠ "" ∧ '\n' ∉ entry.1.toList := by decide
  apply Label.fieldCategory?_eq_none
  rintro entry hmem rfl
  rcases h with h | h
  · apply (htable entry hmem).1 h
  · apply (htable entry hmem).2 h

/-- No port is named for an array without a name or with a name of several lines, and its indexed
ports are read as fields. -/
theorem slotOf_unread {name : String} (h : name = "" ∨ '\n' ∈ name.toList) (i : Nat) :
  slotOf (content parent fields) (shownType fields)
      (.str (Migration.current (classify fields parent).label
        (Slot.itemPort (shownType fields) (.text name) i (classify fields parent).label)))
    = .ok (Port.slot name i, none)
  := by
  have hcurrent : Migration.current (classify fields parent).label
      (Slot.itemPort (shownType fields) (.text name) i (classify fields parent).label)
      = Port.slot name i := by
    rcases Slot.current_itemPort_cases (shownType fields) name i (classify fields parent).label
      with hp | ⟨type, -, -, hp⟩
    · apply hp
    · exfalso
      rw [Slot.field_of_mem_portNames (List.mem_of_getElem? hp)] at h
      revert h
      decide
  have hparse : Port.parse (Port.slot name i) = .ok (Port.slot name i, none) := by
    simp only [Port.parse, Port.split?_slot, h, if_true]
  have hindex : (Slot.names (shownType fields) (.text Slot.arrayField)
      (classify fields parent).label).idxOf? (Port.slot name i) = none := by
    rw [List.idxOf?_eq_none_iff]
    intro hmem
    obtain ⟨type, s, -, -, -, hmem⟩ := Slot.mem_names_iff.mp hmem
    apply Slot.slot_not_mem_portNames _ _ _ _ hmem
  rw [hcurrent, slotOf, content, Slot.ofPort_str, Migration.current_slot,
    Slot.ofCurrent_of_parse hparse _ _ (Slot.recordAdmits_keys _), hindex]

/-- The port of an item means the item, unless the name of the array is not read in it. -/
theorem moves_item (h : Regular fields) {c : Child} (hc : c ∈ children fields) {i : Nat}
    (hi : c.index = some i) :
  ∃ slot, slotOf (content parent fields) (shownType fields) (portOf parent fields c) = .ok slot
    ∧ Moves parent fields c slot
  := by
  have hslot : c.slot = (c.name, some i) := by rw [Child.slot, hi]
  obtain ⟨harray, hlt⟩ := index_of_child hc hi
  have hbound : i < 10 ^ Numeral.maxIntDigits :=
    Nat.lt_of_lt_of_le (Nat.lt_of_lt_of_le hlt h.fits.children) capacity_le
  have hport : Slot.itemPort (classify fields parent).assetType (.text c.name) i
        (classify fields parent).label
      = Slot.itemPort (shownType fields) (.text c.name) i (classify fields parent).label := by
    rw [Slot.itemPort, Slot.itemPort, names_shownType, assetType_classify]
  rw [portOf_item h.mapping hc hi, hport]
  by_cases hname : c.name = "" ∨ '\n' ∈ c.name.toList
  · exact ⟨_, slotOf_unread hname i,
      .unread _ (fieldCategory?_of_unread hname) (Port.getLast?_slot _ _)⟩
  · rw [not_or] at hname
    use c.slot
    constructor
    · rw [hslot]
      apply Slot.ofPort_itemPort hname.1 hname.2 hbound
      right
      rw [content, Slot.contains_keys, Except.ok.injEq, Key.contains_text_iff,
        ← key_eq_name h.mapping hc]
      apply harray
    · apply Moves.kept

/-- The slot in which a child ends up. -/
def slotIn (parent : Option String) (fields : Fields) (c : Child) : String × Option Nat :=
  match slotOf (content parent fields) (shownType fields) (portOf parent fields c) with
  | .ok slot => slot
  | .error _ => c.slot

/-- Every child has a slot. -/
theorem slotIn_spec (h : Regular fields) {c : Child} (hc : c ∈ children fields) :
  slotOf (content parent fields) (shownType fields) (portOf parent fields c)
      = .ok (slotIn parent fields c)
    ∧ Moves parent fields c (slotIn parent fields c)
  := by
  obtain ⟨slot, hslot, hmoves⟩ : ∃ slot,
      slotOf (content parent fields) (shownType fields) (portOf parent fields c) = .ok slot
        ∧ Moves parent fields c slot := by
    cases hi : c.index with
    | none => apply moves_nested h hc hi
    | some i => apply moves_item h hc hi
  rw [slotIn, hslot]
  use rfl

/-- The slot of a child is what is read from the current name of a port. -/
theorem exists_ofCurrent (h : Regular fields) (parent : Option String) {c : Child}
    (hc : c ∈ children fields) :
  ∃ port, Slot.ofCurrent (shownType fields)
      (Migration.current (classify fields parent).label port) (.str (classify fields parent).label)
      (.arr ((arrays fields).map Key.toJson))
    = .ok (slotIn parent fields c)
  := by
  obtain ⟨port, hport⟩ : ∃ port, portOf parent fields c = .str port := by
    cases hi : c.index with
    | none => exact ⟨_, portOf_nested h.mapping hc hi⟩
    | some i => exact ⟨_, portOf_item h.mapping hc hi⟩
  have hslot : slotOf (content parent fields) (shownType fields) (portOf parent fields c)
      = .ok (slotIn parent fields c) := (slotIn_spec h hc).1
  rw [hport, slotOf, content, Slot.ofPort_str] at hslot
  use port, hslot

/-- A child that ends up in a field stands under a current name, which is not read as an indexed
port and is no named port of an array `Inputs`. -/
theorem slotIn_field (h : Regular fields) (parent : Option String) {c : Child}
    (hc : c ∈ children fields) (hfield : (slotIn parent fields c).2 = none) :
  Migration.replacement? (classify fields parent).label (.text (slotIn parent fields c).1) = none
    ∧ Port.parse (slotIn parent fields c).1 = .ok ((slotIn parent fields c).1, none)
    ∧ (.text Slot.arrayField ∈ arrays fields → (slotIn parent fields c).1
      ∉ Slot.names (shownType fields) (.text Slot.arrayField) (classify fields parent).label)
  := by
  obtain ⟨port, hslot⟩ := exists_ofCurrent h parent hc
  generalize slotIn parent fields c = slot at hfield hslot
  obtain ⟨name, index⟩ := slot
  rcases Slot.ofCurrent_cases hslot with ⟨hname, -, hparse⟩ | ⟨-, hindex⟩
  · rw [← hname] at hparse hslot
    refine ⟨?_, hparse, ?_⟩
    · rw [hname]
      apply Migration.replacement?_current
    · intro harray hmem
      rw [Slot.ofCurrent_of_parse hparse _ _ (Slot.recordAdmits_keys _),
        Key.contains_text_iff.mpr harray] at hslot
      obtain ⟨i, hi⟩ := Option.isSome_iff_exists.mp (List.isSome_idxOf?.mpr hmem)
      simp only [hi, if_true] at hslot
      obtain ⟨-, hindex⟩ := Prod.mk.inj (Except.ok.inj hslot)
      rw [← hindex] at hfield
      cases hfield
  · replace hfield : index = none := hfield
    rw [hfield] at hindex
    cases hindex

/-- A child that ends up in an array stands under a name that can be read in indexed ports. -/
theorem slotIn_item (h : Regular fields) (parent : Option String) {c : Child}
    (hc : c ∈ children fields) (hitem : (slotIn parent fields c).2.isSome = true) :
  (slotIn parent fields c).1 ≠ "" ∧ '\n' ∉ (slotIn parent fields c).1.toList
  := by
  obtain ⟨port, hslot⟩ := exists_ofCurrent h parent hc
  generalize slotIn parent fields c = slot at hitem hslot
  rcases Slot.ofCurrent_cases hslot with ⟨-, hindex, -⟩ | ⟨hname, -⟩
  · rw [hindex] at hitem
    cases hitem
  · apply hname

/-! ### The recast asset -/

/-- The children of an asset with the slots in which they end up. -/
def recastWrites (parent : Option String) (fields : Fields) : List Write :=
  (children fields).map fun c => (slotIn parent fields c, raised c.key.text? c.fields)

/-- The fields of an asset that is laid out and put together again, without its disconnected
trees. -/
def recast (parent : Option String) (fields : Fields) : Fields :=
  placed ((.text typeKey, shownType fields) :: plain fields) (recastWrites parent fields)

/-- A regular tree is put together from its outline. -/
theorem toAsset_outline_recast (h : Everywhere (fun _ => Regular) parent fields) :
  (outline parent fields).toAsset = .ok (some (.obj (recast parent fields)))
  := by
  induction fields using Asset.induction generalizing parent with
  | step fields ih =>
    apply toAsset_outline (discriminant_content parent fields) (isNull_shownType fields)
    · exact fun c hc => (slotIn_spec h.here hc).1
    · intro c hc
      have hchild := ih (.child c) (mem_children.mp hc) c.fields rfl (h.child (mem_children.mp hc))
      rw [raised_eq hchild]
      apply hchild

theorem raised_eq_recast (h : Everywhere (fun _ => Regular) parent fields) :
  raised parent fields = .obj (recast parent fields)
  := raised_eq (toAsset_outline_recast h)

theorem mapping_recast (h : Regular fields) (parent : Option String) :
  Mapping (recast parent fields)
  := by
  apply mapping_composed h.mapping

/-- The number that an item of a field gets when the gaps are closed. -/
def rank (parent : Option String) (fields : Fields) (s : String) (index : Nat) : Nat :=
  (((Entries.ofList (itemsAt s (recastWrites parent fields))).mergeSort fun a b => a.1 ≤ b.1).map
    Prod.fst).idxOf index

/-- What stands under a name of a recast asset: an array of children that end up there, a child
that ends up there, or what the asset has there of its own. -/
theorem find?_recast_cases {s : String} {v : Json}
    (h : Entries.find? (recast parent fields) (.text s) = some v) :
  (∃ items, v = .arr items ∧ items ≠ [] ∧ ∀ (i : Nat) w, items[i]? = some w →
      ∃ c ∈ children fields, ∃ index, slotIn parent fields c = (s, some index)
        ∧ i = rank parent fields s index ∧ w = raised c.key.text? c.fields)
    ∨ (∃ c ∈ children fields, slotIn parent fields c = (s, none) ∧ v = raised c.key.text? c.fields)
    ∨ Entries.find? ((.text typeKey, shownType fields) :: plain fields) (.text s) = some v
  := by
  have hwrite : ∀ w ∈ recastWrites parent fields, ∃ c ∈ children fields,
      slotIn parent fields c = w.1 ∧ raised c.key.text? c.fields = w.2 := by
    intro w hw
    obtain ⟨c, hc, rfl⟩ := List.mem_map.mp hw
    exact ⟨c, hc, rfl, rfl⟩
  rcases find?_composed_cases h with ⟨items, rfl, hne, hitems⟩ | ⟨w, hw, hslot, rfl⟩ | hown
  · left
    use items, rfl, hne
    intro i u hu
    obtain ⟨w, hw, index, hslot, hrank, rfl⟩ := hitems i u hu
    obtain ⟨c, hc, hslot', hvalue⟩ := hwrite w hw
    exact ⟨c, hc, index, hslot'.trans hslot, hrank, hvalue.symm⟩
  · right; left
    obtain ⟨c, hc, hslot', hvalue⟩ := hwrite w hw
    exact ⟨c, hc, hslot'.trans hslot, hvalue.symm⟩
  · right; right
    apply hown

/-- Under a name where no child ends up stands what the asset has of its own. -/
theorem find?_recast_of_forall {s : String}
    (h : ∀ c ∈ children fields, (slotIn parent fields c).1 ≠ s) :
  Entries.find? (recast parent fields) (.text s)
    = Entries.find? ((.text typeKey, shownType fields) :: plain fields) (.text s)
  := by
  apply find?_placed_of_forall
  intro write hmem
  obtain ⟨c, hc, rfl⟩ := List.mem_map.mp hmem
  apply h c hc

/-! ### Assets that agree with a recast one -/

/-- An asset that has what a recast asset has, but possibly a list of disconnected trees besides. -/
structure Recast (parent : Option String) (fields fields' : Fields) : Prop where
  mapping : Mapping fields'
  listed : ∀ v, Entries.find? fields' (.text disconnectedKey) = some v → ∃ items, v = .arr items
  find : ∀ s, s ≠ disconnectedKey →
    Entries.find? fields' (.text s) = Entries.find? (recast parent fields) (.text s)

/-- No child stands under the key of disconnected trees. -/
theorem name_ne_disconnectedKey (h : Mapping fields)
    (hlisted : ∀ v, Entries.find? fields (.text disconnectedKey) = some v → ∃ items, v = .arr items)
    {c : Child} (hc : c ∈ children fields) :
  c.name ≠ disconnectedKey
  := by
  intro hname
  obtain ⟨-, v, hv, ⟨-, rfl, -⟩ | ⟨i, ts, -, hne, -⟩⟩ := exists_value h hc
  · rw [hname] at hv
    obtain ⟨items, heq⟩ := hlisted _ hv
    cases heq
  · apply hne hname

/-- A child ends up under a name with its own category, and under no other name that matters. -/
theorem Moves.name_of {c : Child} {slot : String × Option Nat} (h : Moves parent fields c slot)
    {s : String} (hs : slot.1 = s) (hinput : s ≠ Slot.arrayField) (hlast : s.toList.getLast? ≠ some ']') :
  c.name = s
  := by
  cases h with
  | kept => apply hs
  | input => exact (hinput hs.symm).elim
  | unread name _ hname =>
    obtain rfl : name = s := hs
    exact (hlast hname).elim

/-- A child keeps its category. -/
theorem Moves.fieldCategory?_eq {c : Child} {slot : String × Option Nat}
    (h : Moves parent fields c slot) :
  Label.fieldCategory? (some slot.1) = Label.fieldCategory? (some c.name)
  := by
  cases h with
  | kept => rfl
  | input _ hcategory =>
    have hnone : Label.fieldCategory? (some Slot.arrayField) = none := by decide
    rw [hcategory, hnone]
  | unread name hcategory hname =>
    have htable : ∀ entry ∈ Label.fieldCategories, entry.1.toList.getLast? ≠ some ']' := by decide
    rw [hcategory]
    apply Label.fieldCategory?_eq_none
    rintro entry hmem rfl
    apply htable entry hmem hname

/-- A recast asset has no list of disconnected trees. -/
theorem connected_recast (h : Regular fields) (parent : Option String) :
  Connected (recast parent fields)
  := by
  rw [Connected, find?_recast_of_forall]
  · rw [find?_own _ (by decide), find?_plain h.mapping]
    cases hv : Entries.find? fields (.text disconnectedKey) with
    | none => rfl
    | some v =>
      obtain ⟨items, rfl⟩ := h.listed v hv
      have hparts : valueParts (.text disconnectedKey) (.arr items) = treeParts 0 items := by
        simp [valueParts]
      rw [Option.bind_some, hparts, filterMap_plain?_treeParts]
      rfl
  · intro c hc hs
    apply name_ne_disconnectedKey h.mapping h.listed hc
    apply (slotIn_spec h hc).2.name_of hs (by decide) (by decide)

theorem recast_self (h : Regular fields) (parent : Option String) :
  Recast parent fields (recast parent fields)
  where
  mapping := mapping_recast h parent
  listed v hv := by
    have hnone := connected_recast h parent
    rw [Connected] at hnone
    rw [hnone] at hv
    cases hv
  find s _ := rfl

/-- The discriminant of an asset that agrees with a recast one. -/
theorem Recast.find?_typeKey {fields' : Fields} (hr : Recast parent fields fields')
    (h : Regular fields) :
  Entries.find? fields' (.text typeKey) = some (shownType fields)
  := by
  rw [hr.find typeKey (by decide), find?_recast_of_forall]
  · simp [Entries.find?]
  · intro c hc hs
    apply (exists_value h.mapping hc).1
    apply (slotIn_spec h hc).2.name_of hs (by decide) (by decide)

/-- A recast asset is an asset. -/
theorem isAsset_recast (parent : Option String) (fields : Fields) :
  (Json.obj (recast parent fields)).isAsset = true
  := isAsset_composed fields (recastWrites parent fields)

/-- What ends up in a slot is an asset. -/
theorem isAsset_of_mem_recastWrites (h : Everywhere (fun _ => Regular) parent fields) :
  ∀ w ∈ recastWrites parent fields, w.2.isAsset = true
  := by
  intro w hw
  obtain ⟨c, hc, rfl⟩ := List.mem_map.mp hw
  rw [raised_eq_recast (h.child (mem_children.mp hc))]
  apply isAsset_recast

theorem exists_obj_of_mem_recastWrites (h : Everywhere (fun _ => Regular) parent fields) :
  ∀ w ∈ recastWrites parent fields, ∃ t, w.2 = .obj t
  := fun w hw => exists_obj_of_isAsset (isAsset_of_mem_recastWrites h w hw)

namespace Recast

variable {fields' : Fields}

theorem field_typeKey (hr : Recast parent fields fields') (h : Regular fields) :
  Json.field fields' typeKey = shownType fields
  := by
  rw [Json.field, hr.find?_typeKey h]
  rfl

/-- A recast asset has the label of the asset. -/
theorem label_eq (hr : Recast parent fields fields')
    (h : Everywhere (fun _ => Regular) parent fields) :
  (classify fields' parent).label = (classify fields parent).label
  := by
  have hmapping := h.here.mapping
  have hvalue : Entries.find? (plain (recast parent fields)) (.text "Value")
      = Entries.find? (plain fields) (.text "Value") := by
    apply find?_plain_composed hmapping (by decide) (isAsset_of_mem_recastWrites h)
    · intro w hw hname
      obtain ⟨c, hc, rfl⟩ := List.mem_map.mp hw
      rw [← (slotIn_spec h.here hc).2.name_of hname (by decide) (by decide)]
      apply find?_plain_of_child hmapping hc
    · exact fun _ _ _ _ => by decide
  apply label_congr hmapping hr.mapping (hr.field_typeKey h.here)
  rw [find?_plain hr.mapping, hr.find _ (by decide),
    ← find?_plain (mapping_recast h.here parent), hvalue]

end Recast

/-! ### Children of a recast asset -/

/-- The child of a recast asset that a child of the asset becomes. -/
def recastChild (parent : Option String) (fields : Fields) (c : Child) : Child :=
  ⟨.text (slotIn parent fields c).1,
    (slotIn parent fields c).2.map (rank parent fields (slotIn parent fields c).1),
    recast c.key.text? c.fields⟩

namespace Recast

variable {fields' : Fields}

/-- The children of a recast asset are children of the asset. -/
theorem exists_child (hr : Recast parent fields fields')
    (h : Everywhere (fun _ => Regular) parent fields) {c' : Child} (hc' : c' ∈ children fields') :
  ∃ c ∈ children fields, c' = recastChild parent fields c
  := by
  have hdisc := name_ne_disconnectedKey hr.mapping hr.listed hc'
  obtain ⟨w, hw, rfl⟩ := exists_write h.here.mapping (exists_obj_of_mem_recastWrites h) hr.mapping
    hc' (hr.find _ hdisc)
  obtain ⟨c, hc, rfl⟩ := List.mem_map.mp hw
  use c, hc
  rw [written, recastChild, raised_eq_recast (h.child (mem_children.mp hc))]
  rfl

/-- A recast asset has no more children than the asset. -/
theorem length_children_le (hr : Recast parent fields fields')
    (h : Everywhere (fun _ => Regular) parent fields) :
  (children fields').length ≤ (children fields).length
  := by
  have hle := length_children_le_writes h.here.mapping (exists_obj_of_mem_recastWrites h) hr.mapping
    fun c' hc' => hr.find _ (name_ne_disconnectedKey hr.mapping hr.listed hc')
  rwa [recastWrites, List.length_map] at hle

/-- Where a recast asset has the array `Inputs`, the asset has it, or a legacy port of it. -/
theorem exists_input (hr : Recast parent fields fields')
    (h : Everywhere (fun _ => Regular) parent fields)
    (harray : .text Slot.arrayField ∈ arrays fields') :
  .text Slot.arrayField ∈ arrays fields
    ∨ ∃ port, (Migration.replacement? (classify fields parent).label port).isSome = true
  := by
  obtain ⟨v, hv, hrecord⟩ := (mem_arrays hr.mapping _).mp harray
  rw [hr.find _ (by decide)] at hv
  rcases find?_recast_cases hv with ⟨items, rfl, hne, hitems⟩ | ⟨c, hc, -, rfl⟩ | hplain
  · obtain ⟨w, hw⟩ : ∃ w, items[0]? = some w := by
      cases items with
      | nil => exact (hne rfl).elim
      | cons w rest => use w; rfl
    obtain ⟨c, hc, index, hslot, -⟩ := hitems 0 w hw
    have hmoves : Moves parent fields c (slotIn parent fields c) := (slotIn_spec h.here hc).2
    generalize slotIn parent fields c = slot at hmoves hslot
    cases hmoves with
    | kept =>
      left
      obtain ⟨hname, hindex⟩ := Prod.mk.inj hslot
      replace hname : c.name = Slot.arrayField := hname
      rw [← hname, ← key_eq_name h.here.mapping hc]
      apply (index_of_child hc hindex).1
    | input _ _ hinput =>
      rcases hinput with hinput | hinput
      · left
        apply hinput
      · right
        use .text c.name
    | unread => cases hslot
  · rw [raised_eq_recast (h.child (mem_children.mp hc))] at hrecord
    rcases valueParts_cases (.text Slot.arrayField) (.obj (recast c.key.text? c.fields)) with
      ⟨t, -, -, hp⟩ | ⟨items, heq, -⟩ | ⟨items, heq, -⟩ | ⟨-, hp⟩
    · simp [hp] at hrecord
    · cases heq
    · cases heq
    · simp [hp] at hrecord
  · rw [find?_own _ (by decide)] at hplain
    simp [valueParts_of_find?_plain h.here.mapping hplain] at hrecord

/-- The children of a recast asset stay where they are. -/
theorem stable (hr : Recast parent fields fields')
    (h : Everywhere (fun _ => Regular) parent fields) :
  Stable parent fields'
  where
  mapping := hr.mapping
  discriminant := ⟨_, hr.find?_typeKey h.here, isNull_shownType fields⟩
  indexed c' hc' hi := by
    obtain ⟨c, hc, rfl⟩ := hr.exists_child h hc'
    apply slotIn_item h.here parent hc
    simpa [recastChild] using hi
  plain c' hc' hi := by
    obtain ⟨c, hc, rfl⟩ := hr.exists_child h hc'
    apply (slotIn_field h.here parent hc (by simpa [recastChild] using hi)).2.1
  current c' hc' hi := by
    obtain ⟨c, hc, rfl⟩ := hr.exists_child h hc'
    rw [hr.label_eq h]
    apply (slotIn_field h.here parent hc (by simpa [recastChild] using hi)).1
  free c' hc' hi harray := by
    obtain ⟨c, hc, rfl⟩ := hr.exists_child h hc'
    rw [hr.label_eq h, assetType_classify, hr.field_typeKey h.here]
    rcases hr.exists_input h harray with harray | ⟨port, hport⟩
    · apply (slotIn_field h.here parent hc (by simpa [recastChild] using hi)).2.2 harray
    · rw [names_of_replacement hport]
      apply List.not_mem_nil
  bounded c' hc' i hi := by
    apply Nat.lt_of_lt_of_le (index_of_child hc' hi).2
    apply Nat.le_trans (hr.length_children_le h) h.here.fits.children

theorem fits (hr : Recast parent fields fields')
    (h : Everywhere (fun _ => Regular) parent fields)
    (htrees : ∀ index t, Part.tree index t ∈ parts fields' → index < capacity) :
  Fits fields'
  where
  hashable := by
    rw [hr.field_typeKey h.here, shownType]
    split
    · rfl
    · apply h.here.fits.hashable
  names _ hc := isSpellable_of_mapping hr.mapping hc
  children := Nat.le_trans (hr.length_children_le h) h.here.fits.children
  trees := htrees

end Recast

/-! ### The recast tree -/

/-- What holds everywhere does not depend on the field that holds the root, but for its category. -/
theorem Everywhere.congr_parent {P : Option String → Fields → Prop} {parent' : Option String}
    (hP : P parent fields → P parent' fields) (h : Everywhere P parent fields) :
  Everywhere P parent' fields
  := by
  apply Everywhere.of_parts (hP h.here)
  intro part hmem t ht
  apply h.below hmem ht

theorem Stable.congr_parent {parent' : Option String}
    (hcategory : Label.fieldCategory? parent' = Label.fieldCategory? parent)
    (h : Stable parent fields) :
  Stable parent' fields
  where
  mapping := h.mapping
  discriminant := h.discriminant
  indexed := h.indexed
  plain := h.plain
  current := by
    rw [classify_congr hcategory]
    apply h.current
  free := by
    rw [classify_congr hcategory]
    apply h.free
  bounded := h.bounded

/-- An asset that stays as it is, without disconnected trees. -/
structure Settled (parent : Option String) (fields : Fields) : Prop where
  stable : Stable parent fields
  connected : Connected fields
  fits : Fits fields

/-- The children of an asset that agrees with a recast one are settled if the recast children of
the asset are. -/
theorem Recast.settled_child {fields' : Fields} (hr : Recast parent fields fields')
    (h : Everywhere (fun _ => Regular) parent fields)
    (hbelow : ∀ c ∈ children fields,
      Everywhere Settled c.key.text? (recast c.key.text? c.fields))
    {c' : Child} (hc' : c' ∈ children fields') :
  Everywhere Settled c'.key.text? c'.fields
  := by
  obtain ⟨c, hc, rfl⟩ := hr.exists_child h hc'
  have hcategory : Label.fieldCategory? (recastChild parent fields c).key.text?
      = Label.fieldCategory? c.key.text? := by
    rw [key_eq_name h.here.mapping hc]
    apply (slotIn_spec h.here hc).2.fieldCategory?_eq
  apply (hbelow c hc).congr_parent
  rintro ⟨hstable, hconnected, hfits⟩
  exact ⟨hstable.congr_parent hcategory, hconnected, hfits⟩

/-- Every asset of a recast tree is settled. -/
theorem settled_recast (h : Everywhere (fun _ => Regular) parent fields) :
  Everywhere Settled parent (recast parent fields)
  := by
  induction fields using Asset.induction generalizing parent with
  | step fields ih =>
    have hr := recast_self h.here parent
    have hconnected := connected_recast h.here parent
    have htree : ∀ index t, Part.tree index t ∉ parts (recast parent fields) := by
      intro index t hmem
      have htrees := mem_trees.mpr ⟨index, hmem⟩
      rw [trees_eq_nil hr.mapping hconnected] at htrees
      cases htrees
    apply Everywhere.of_parts
    · use hr.stable h, hconnected
      apply hr.fits h
      exact fun index t hmem => (htree index t hmem).elim
    · intro part hmem t ht
      cases part with
      | child c' =>
        obtain rfl := Option.some.inj ht
        apply hr.settled_child h _ (mem_children.mpr hmem)
        intro c hc
        apply ih (.child c) (mem_children.mp hc) c.fields rfl (h.child (mem_children.mp hc))
      | tree index t => exact (htree index t hmem).elim
      | _ => cases ht

/-- What holds everywhere in a tree holds everywhere in the trees that are collected at its
root. -/
theorem Everywhere.loose {P : Option String → Fields → Prop} (h : Everywhere P parent fields)
    {t : Fields} (ht : t ∈ Asset.loose fields) :
  Everywhere P none t
  := by
  induction fields using Asset.induction generalizing parent with
  | step fields ih =>
    rw [loose_eq, List.mem_flatMap] at ht
    obtain ⟨part, hmem, ht⟩ := ht
    cases part with
    | child c => apply ih _ hmem c.fields rfl (h.child hmem) ht
    | tree index t' =>
      rcases List.mem_cons.mp ht with rfl | ht
      · apply h.tree hmem
      · apply ih _ hmem t' rfl (h.tree hmem) ht
    | _ => cases ht

/-- The fields of a tree that is laid out and put together again. -/
def recastTree (parent : Option String) (fields : Fields) : Fields :=
  if loose fields = [] then recast parent fields
  else Entries.insert (recast parent fields) (.text disconnectedKey)
    (.arr ((loose fields).map fun t => .obj (recast none t)))

theorem find?_recastTree (h : Regular fields) (parent : Option String) :
  Entries.find? (recastTree parent fields) (.text disconnectedKey)
    = if loose fields = [] then none
      else some (.arr ((loose fields).map fun t => .obj (recast none t)))
  := by
  rw [recastTree]
  split
  · apply connected_recast h
  · rw [Entries.find?_insert, if_pos (beq_self_eq_true _)]

theorem recast_recastTree (h : Regular fields) (parent : Option String) :
  Recast parent fields (recastTree parent fields)
  where
  mapping := by
    rw [recastTree]
    split
    · apply mapping_recast h
    · apply (mapping_recast h parent).insert
  listed v hv := by
    rw [find?_recastTree h] at hv
    split at hv
    · cases hv
    · exact ⟨_, (Option.some.inj hv).symm⟩
  find s hs := by
    rw [recastTree]
    split
    · rfl
    · apply find?_insert_of_ne _ hs

/-- The recast disconnected trees are assets. -/
theorem isAsset_loose (fields : Fields) :
  ∀ v ∈ (loose fields).map fun t => Json.obj (recast none t), v.isAsset = true
  := by
  intro v hv
  obtain ⟨t, ht, rfl⟩ := List.mem_map.mp hv
  apply isAsset_recast

/-- The disconnected trees of a recast tree are the recast trees of the tree. -/
theorem trees_recastTree (h : Everywhere (fun _ => Regular) parent fields) :
  trees (recastTree parent fields) = (loose fields).map (recast none)
  := by
  have hr := recast_recastTree h.here parent
  have hfind := find?_recastTree h.here parent
  by_cases hnil : loose fields = []
  · rw [if_pos hnil] at hfind
    rw [trees_eq_nil hr.mapping hfind, hnil]
    rfl
  · rw [if_neg hnil] at hfind
    have hmap : (loose fields).map (fun t => Json.obj (recast none t))
        = ((loose fields).map (recast none)).map Json.obj := by
      rw [List.map_map]
      rfl
    have hassets := isAsset_loose fields
    rw [hmap] at hfind hassets
    apply trees_eq hr.mapping hfind hassets

/-- What a recast tree holds is settled. -/
theorem settled_of_mem_recastTree (h : Everywhere (fun _ => Regular) parent fields) {part : Part}
    (hmem : part ∈ parts (recastTree parent fields)) {t : Fields} (ht : part.asset? = some t) :
  Everywhere Settled part.parent? t
  := by
  cases part with
  | child c' =>
    obtain rfl := Option.some.inj ht
    apply (recast_recastTree h.here parent).settled_child h _ (mem_children.mpr hmem)
    intro c hc
    apply settled_recast (h.child (mem_children.mp hc))
  | tree index t' =>
    obtain rfl := Option.some.inj ht
    have htree := mem_trees.mpr ⟨index, hmem⟩
    rw [trees_recastTree h] at htree
    obtain ⟨t, hloose, rfl⟩ := List.mem_map.mp htree
    apply settled_recast (h.loose hloose)
  | _ => cases ht

/-- A recast tree has no more disconnected trees than the tree. -/
theorem index_lt_of_mem_recastTree (h : Regular fields) {index : Nat} {t : Fields}
    (hmem : .tree index t ∈ parts (recastTree parent fields)) :
  index < (loose fields).length
  := by
  obtain ⟨⟨key, v⟩, hf, hpart⟩ := List.mem_flatMap.mp hmem
  obtain ⟨rfl, items, rfl⟩ := tree_of_mem_valueParts hpart
  have hv := (recast_recastTree h parent).mapping.find?_eq_some_iff.mpr hf
  rw [find?_recastTree h] at hv
  split at hv
  · cases hv
  · obtain rfl := Json.arr.inj (Option.some.inj hv)
    have hparts : valueParts (.text disconnectedKey)
        (.arr ((loose fields).map fun t => .obj (recast none t)))
        = treeParts 0 ((loose fields).map fun t => .obj (recast none t)) := by
      simp [valueParts]
    rw [hparts] at hpart
    have hlt := index_lt_of_mem_treeParts hpart
    rw [length_treeParts, List.length_map] at hlt
    omega

/-- A recast tree is a fixed point, for which there is room if the tree has no more disconnected
trees than fit into memory. -/
theorem fixed_recastTree (h : Everywhere (fun _ => Regular) parent fields)
    (hloose : (loose fields).length ≤ capacity) :
  Fixed parent (recastTree parent fields)
    ∧ Everywhere (fun _ => Fits) parent (recastTree parent fields)
  := by
  have hr := recast_recastTree h.here parent
  constructor
  · constructor
    · apply Everywhere.of_parts (hr.stable h)
      intro part hmem t ht parent' t' hreach
      apply (settled_of_mem_recastTree h hmem ht parent' t' hreach).stable
    · intro part hmem t ht parent' t' hreach
      apply (settled_of_mem_recastTree h hmem ht parent' t' hreach).connected
    · intro v hv
      rw [find?_recastTree h.here] at hv
      split at hv
      · cases hv
      · rename_i hne
        refine ⟨_, (Option.some.inj hv).symm, by simpa using hne, ?_⟩
        apply isAsset_loose
  · apply Everywhere.of_parts
    · apply hr.fits h
      intro index t hmem
      apply Nat.lt_of_lt_of_le (index_lt_of_mem_recastTree h.here hmem) hloose
    · intro part hmem t ht parent' t' hreach
      apply (settled_of_mem_recastTree h hmem ht parent' t' hreach).fits

/-- A graph that realizes the layout of a regular tree is put together as the recast tree. -/
theorem toAsset_of_realizes (h : Everywhere (fun _ => Regular) parent fields) {stem : String}
    {g : Graph} (hg : g.Realizes (Layout.placeRoot stem parent fields)) :
  g.toAsset .null = .ok (some (.obj (recastTree parent fields)))
  := by
  have htrees : (loose fields).mapM (fun t => (outline none t).toAsset)
      = .ok (((loose fields).map fun t => .obj (recast none t)).map some) := by
    rw [Fault.mapM_eq_ok_iff, List.map_map]
    apply List.forall₂_map_right_iff.mpr
    apply List.forall₂_same.mpr
    intro t ht
    apply toAsset_outline_recast (h.loose ht)
  have hsome : ∀ trees : List Json, (trees.map some).filterMap id = trees := by simp
  have hcounted : Graph.counted (Graph.withDisconnected (.obj (recast parent fields))
      ((loose fields).map fun t => .obj (recast none t))) = .ok (.obj (recastTree parent fields)) := by
    rw [recastTree]
    by_cases hnil : loose fields = []
    · rw [if_pos hnil, hnil]
      apply Graph.counted_withDisconnected_nil
      apply connected_recast h.here
    · rw [if_neg hnil]
      apply Graph.counted_withDisconnected
      simpa using hnil
  rw [hg.toAsset_eq, toAsset_outline_recast h, htrees]
  simp only [Fault.ok_bind, hsome, hcounted]
  rfl

/-- What is put together from the layout of a tree. -/
def canonicalForm (tree stem : Json) (start : Float × Float) (field : Option String)
    (policy : LayoutPolicy) : Except Fault (Option Json) := do
  (← Layout.ofAsset tree stem start (Json.ofOption field) policy).toGraph.toAsset .null

/-- A regular tree whose disconnected trees fit into memory has a canonical form exactly if the stem
of the ids and the discriminant of the root have a spelling.  The canonical form of that is the same
up to the order of keys, whatever the ids and the distances are. -/
theorem canonicalForm_idempotent {fields : Fields} {field : Option String}
    (h : Everywhere (fun _ => Regular) field fields) (hloose : (loose fields).length ≤ capacity)
    (stem stem' : Json) (start start' : Float × Float) {policy policy' : LayoutPolicy}
    (hp : policy.Spaced) (hp' : policy'.Spaced)
    (hstem' : (Layout.stemValue policy' stem').isSpellable = true) :
  ((∃ v, canonicalForm (.obj fields) stem start field policy = .ok (some v))
      ↔ (Layout.stemValue policy stem).isSpellable = true
        ∧ (Json.field fields typeKey).isSpellable = true)
    ∧ ∀ v, canonicalForm (.obj fields) stem start field policy = .ok (some v) →
      ∃ v', canonicalForm v stem' start' field policy' = .ok (some v') ∧ v'.Reordered v
  := by
  have hlayout := Layout.exists_ofAsset_iff_of_fits stem start hp
    fun parent t hreach => (h parent t hreach).fits
  have hform : ∀ l, Layout.ofAsset (.obj fields) stem start (Json.ofOption field) policy = .ok l →
      canonicalForm (.obj fields) stem start field policy
        = .ok (some (.obj (recastTree field fields))) := by
    intro l hl
    rw [canonicalForm, hl]
    apply toAsset_of_realizes h (Layout.realizes_of_ofAsset hl)
  constructor
  · rw [← hlayout]
    constructor
    · rintro ⟨v, hv⟩
      obtain ⟨l, hl, -⟩ := Fault.bind_eq_ok_iff.mp hv
      exact ⟨l, hl⟩
    · rintro ⟨l, hl⟩
      exact ⟨_, hform l hl⟩
  · intro v hv
    obtain ⟨l, hl, -⟩ := Fault.bind_eq_ok_iff.mp hv
    obtain rfl := Option.some.inj (Except.ok.inj ((hform l hl).symm.trans hv))
    obtain ⟨hfixed, hfits⟩ := fixed_recastTree h hloose
    have hroot : (Json.field (recastTree field fields) typeKey).isSpellable = true := by
      rw [(recast_recastTree h.here field).field_typeKey h.here, isSpellable_shownType]
      exact (hlayout.mp ⟨l, hl⟩).2
    obtain ⟨l', hl'⟩ := (Layout.exists_ofAsset_iff_of_fits stem' start' hp' hfits).mpr
      ⟨hstem', hroot⟩
    obtain ⟨v', hv', hr⟩ := hfixed.toAsset_of_realizes (Layout.realizes_of_ofAsset hl')
    refine ⟨v', ?_, hr⟩
    rw [canonicalForm, hl']
    apply hv'

/-! ### A legacy tree -/

/-- A sum with its second input under a legacy name, beside a list of disconnected trees with an
item that is none. -/
def lonelyInput : Fields :=
  [("Type", .str "Sum"), ("InputB", .obj (bare "Constant")),
    ("$DisconnectedTrees", .arr [.int 5, .obj (bare "Abs")])]

theorem parts_lonelyInput :
  parts lonelyInput = [.plain "Type" (.str "Sum"), .child ⟨"InputB", none, bare "Constant"⟩,
    .skipped 0, .tree 1 (bare "Abs")]
  := rfl

theorem regular_bare (type : String) : Regular (bare type)
  := by
  have hchildren : children (bare type) = [] := rfl
  constructor
  · apply (readable_bare none type).mapping
  · apply (readable_bare none type).placeable.fits
  · intro v hv
    cases hv
  · simp [hchildren]

theorem regular_lonelyInput : Everywhere (fun _ => Regular) none lonelyInput
  := by
  apply everywhere_over_bare
  · constructor
    · constructor
      · simp [lonelyInput]
      · unfold Entries.Distinct
        decide
    · constructor
      · rfl
      · decide
      · decide
      · intro index t hmem
        rw [parts_lonelyInput] at hmem
        obtain ⟨rfl, -⟩ : index = 1 ∧ t = bare "Abs" := by simpa using hmem
        decide
    · intro v hv
      exact ⟨_, (Option.some.inj hv).symm⟩
    · decide
  · rw [parts_lonelyInput]
    simp [Part.asset?]
  · intro _ type
    apply regular_bare type

/-- The sum has a canonical form that is its own. -/
theorem canonicalForm_lonelyInput :
  ∃ v v', canonicalForm (.obj lonelyInput) .null (0.0, 0.0) none {} = .ok (some v)
    ∧ canonicalForm v .null (0.0, 0.0) none {} = .ok (some v') ∧ v'.Reordered v
  := by
  have hloose : (loose lonelyInput).length ≤ capacity := by
    have hbare : ∀ type, loose (bare type) = [] := by
      intro type
      rw [loose_eq]
      rfl
    rw [loose_eq, parts_lonelyInput]
    simp [Part.loose, hbare, capacity]
  obtain ⟨hexists, hidempotent⟩ := canonicalForm_idempotent regular_lonelyInput hloose .null .null
    (0.0, 0.0) (0.0, 0.0) LayoutPolicy.spaced_standard LayoutPolicy.spaced_standard rfl
  obtain ⟨v, hv⟩ := hexists.mpr ⟨rfl, rfl⟩
  obtain ⟨v', hv', hr⟩ := hidempotent v hv
  exact ⟨v, v', hv, hv', hr⟩

/-! ### Trees without a canonical form -/

/-- An asset with a child whose field has a name that may not be a port. -/
def misnamed (name : String) : Fields := [("Type", .str "Abs"), (.text name, .obj (bare "Zero"))]

/-- A child under a name that cannot be read as a port is not put together. -/
theorem not_canonicalForm_misnamed {name : String} (h : ¬ ∃ slot, Port.parse name = .ok slot) :
  ¬ ∃ v, canonicalForm (.obj (misnamed name)) .null (0.0, 0.0) none {} = .ok (some v)
  := by
  rintro ⟨v, hv⟩
  obtain ⟨l, hl, hv⟩ := Fault.bind_eq_ok_iff.mp hv
  rw [(Layout.realizes_of_ofAsset hl).toAsset_eq] at hv
  obtain ⟨found, hfound, -⟩ := Fault.bind_eq_ok_iff.mp hv
  have hname : name ≠ typeKey := by
    rintro rfl
    exact h ⟨(typeKey, none), by decide⟩
  have hchild : ⟨.text name, none, bare "Zero"⟩ ∈ children (misnamed name) := by
    rw [mem_children, parts, misnamed, List.flatMap_cons, List.flatMap_cons,
      valueParts_asset hname rfl]
    simp
  rw [outline_eq, Outline.toAsset] at hfound
  obtain ⟨discriminant, -, hfound⟩ := Fault.bind_eq_ok_iff.mp hfound
  obtain ⟨own, -, hfound⟩ := Fault.bind_eq_ok_iff.mp hfound
  obtain ⟨parts, hparts, -⟩ := Fault.bind_eq_ok_iff.mp hfound
  obtain ⟨child, hsome, hslot⟩ := (Outline.exists_putInputs_iff _ _ _).mp ⟨parts, hparts⟩ _
    (List.mem_map_of_mem hchild)
  have hbare : Everywhere (fun _ => Regular) (some name) (bare "Zero") :=
    everywhere_bare (regular_bare "Zero")
  have hzero := toAsset_outline_recast hbare
  obtain rfl := Except.ok.inj (hzero.symm.trans hsome)
  obtain ⟨slot, hslot⟩ := hslot rfl
  change Slot.ofCurrent discriminant name _ _ = .ok slot at hslot
  obtain ⟨parsed, hparsed, -⟩ := Fault.bind_eq_ok_iff.mp hslot
  exact h ⟨parsed, hparsed⟩

/-- An asset whose discriminant has too many digits has no canonical form, and neither has one with a
child whose field ends in an index of too many digits. -/
theorem not_canonicalForm_power :
  (¬ ∃ v, canonicalForm (.obj [("Type", .int (10 ^ Numeral.maxIntDigits))]) .null (0.0, 0.0) none {}
      = .ok (some v))
    ∧ ¬ ∃ v, canonicalForm (.obj (misnamed (Port.slot "X" (10 ^ Numeral.maxIntDigits)))) .null
      (0.0, 0.0) none {} = .ok (some v)
  := by
  constructor
  · rintro ⟨v, hv⟩
    obtain ⟨l, hl, -⟩ := Fault.bind_eq_ok_iff.mp hv
    have hlayout : ∃ l, Layout.ofAsset (.obj [("Type", .int (10 ^ Numeral.maxIntDigits))]) .null
        (0.0, 0.0) (Json.ofOption none) {} = .ok l := ⟨l, hl⟩
    obtain ⟨-, -, -, hroot⟩ := (Layout.exists_ofAsset_iff .null (0.0, 0.0) {}).mp hlayout
    change (Json.int (10 ^ Numeral.maxIntDigits)).isSpellable = true at hroot
    rw [Json.not_isSpellable_power] at hroot
    cases hroot
  · apply not_canonicalForm_misnamed
    rintro ⟨slot, hslot⟩
    exact absurd (Port.lt_of_parse_slot (by decide) (by decide) hslot) (lt_irrefl _)

end Asset

end AssetCanvas
