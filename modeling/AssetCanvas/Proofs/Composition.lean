import AssetCanvas.Proofs.Counterparts
import AssetCanvas.Proofs.RoundTrip

/-!
# Composed assets

An asset that is put together has the discriminant and the plain fields of an asset, and children
written into slots: `Asset.composed`.  Whatever is written, a child of it comes from a write,
`Asset.exists_write`.  If the writes are `Asset.Orderly`, then every write becomes a child,
`Asset.Orderly.written_mem_children`, and the rest of the asset stays as it is: its plain fields,
`Asset.Orderly.find?_plain_eq`, and its label, `Asset.Orderly.label_composed`.
-/

namespace AssetCanvas

open Json Assembly

/-! ### Labels -/

/-- The label of an asset depends on the category of the field that holds it. -/
theorem Asset.classify_congr {parent parent' : Option String}
    (h : Label.fieldCategory? parent = Label.fieldCategory? parent') (fields : Fields) :
  classify fields parent = classify fields parent'
  := by
  simp only [classify, Label.resolve, h]

namespace Label

theorem toList_withCategory (category discriminant : String) :
  (withCategory category discriminant).toList
    = category.toList ++ separator :: discriminant.toList
  := by
  simp [withCategory]

theorem hasCategory_withCategory (category discriminant : String) :
  hasCategory (withCategory category discriminant) = true
  := by
  simp [hasCategory, toList_withCategory]

theorem forall_ne_separator {c : String} (h : separator ∉ c.toList) :
  ∀ x ∈ c.toList, decide (x ≠ separator) = true
  := by
  intro x hx
  rw [decide_eq_true_iff]
  rintro rfl
  apply h hx

/-- A category without a separator is read back from a label. -/
theorem category_withCategory {c : String} (h : separator ∉ c.toList) (discriminant : String) :
  category (withCategory c discriminant) = c
  := by
  rw [category, if_pos (hasCategory_withCategory c discriminant), toList_withCategory,
    List.takeWhile_append_of_pos (forall_ne_separator h)]
  simp

theorem strip_withCategory {c : String} (h : separator ∉ c.toList) (discriminant : String) :
  strip (withCategory c discriminant) = discriminant
  := by
  rw [strip, if_pos (hasCategory_withCategory c discriminant), toList_withCategory,
    List.dropWhile_append_of_pos (forall_ne_separator h)]
  simp

/-- The categories of fields have no separators. -/
theorem of_fieldCategory? {parent : Option String} {c : String} (h : fieldCategory? parent = some c) :
  c ≠ "" ∧ separator ∉ c.toList
  := by
  have htable : ∀ entry ∈ fieldCategories, separator ∉ entry.2.toList := by decide
  obtain ⟨hfound, hne⟩ := Option.filter_eq_some_iff.mp h
  obtain ⟨name, -, hname⟩ := Option.bind_eq_some_iff.mp hfound
  obtain ⟨name', -, hmem⟩ := Entries.mem_of_find? hname
  use by simpa using hne
  apply htable _ hmem

/-- A name that is not in the table of categories calls for none. -/
theorem fieldCategory?_eq_none {s : String} (h : ∀ entry ∈ fieldCategories, entry.1 ≠ s) :
  fieldCategory? (some s) = none
  := by
  have hfind : Entries.find? fieldCategories s = none := by
    apply Entries.find?_eq_none_iff.mpr
    intro entry hmem
    simpa using h entry hmem
  simp [fieldCategory?, hfind]

/-- The label of an asset without a discriminant stands for an unknown one. -/
theorem stripValue_resolve_unknown (parent : Option String) :
  (Json.str (resolve "unknown" parent)).truthy = true
    ∧ stripValue (.str (resolve "unknown" parent)) = .ok (.str "unknown")
  := by
  rw [resolve]
  cases hc : fieldCategory? parent with
  | none =>
    constructor
    · decide
    · rfl
  | some c =>
    have hstrip := strip_withCategory (of_fieldCategory? hc).2 "unknown"
    constructor
    · have hne : withCategory c "unknown" ≠ "" := by
        intro hempty
        have hlist := toList_withCategory c "unknown"
        simp [hempty] at hlist
      simpa [Json.truthy] using hne
    · rw [stripValue, hstrip]

end Label

namespace Asset

variable {parent : Option String} {fields : Fields}

/-! ### Discriminants -/

/-- The discriminant that an asset is given. -/
def shownType (fields : Fields) : Json :=
  if (Json.field fields typeKey).isNull then .str "unknown" else Json.field fields typeKey

theorem isNull_shownType (fields : Fields) : (shownType fields).isNull = false
  := by
  rw [shownType]
  split
  · rfl
  · rename_i h
    simpa using h

theorem typeText_shownType (fields : Fields) :
  typeText (shownType fields) = typeText (Json.field fields typeKey)
  := by
  rw [shownType]
  split
  · rename_i h
    cases hv : Json.field fields typeKey with
    | null => rfl
    | _ => simp [hv, Json.isNull] at h
  · rfl

@[simp] theorem isSpellable_shownType (fields : Fields) :
  (shownType fields).isSpellable = (Json.field fields typeKey).isSpellable
  := by
  rw [shownType]
  split
  · rename_i h
    cases hv : Json.field fields typeKey with
    | null => rfl
    | _ => simp [hv, Json.isNull] at h
  · rfl

theorem shownType_eq_constant_iff (fields : Fields) :
  shownType fields = .str "Constant" ↔ Json.field fields typeKey = .str "Constant"
  := by
  rw [shownType]
  split
  · rename_i h
    constructor
    · intro hconstant
      simp at hconstant
    · intro hconstant
      simp [hconstant, Json.isNull] at h
  · rfl

theorem discriminant_content (parent : Option String) (fields : Fields) :
  (content parent fields).discriminant = .ok (shownType fields)
  := by
  have htype : (content parent fields).assetType = Json.field fields typeKey :=
    assetType_classify fields parent
  rw [Node.discriminant, htype, shownType]
  by_cases hnull : (Json.field fields typeKey).isNull = true
  · -- without a discriminant the label is that of an unknown one
    have hnone : Json.field fields typeKey = .null := by
      cases hv : Json.field fields typeKey with
      | null => rfl
      | _ => simp [hv, Json.isNull] at hnull
    have hvector : isVectorConstant fields = false := by
      rw [Bool.eq_false_iff, Ne, isVectorConstant, hnone]
      simp
    have hlabel : (content parent fields).label = .str (Label.resolve "unknown" parent) := by
      simp [content, classify, hvector, hnone, typeText, Json.text?]
    obtain ⟨htruthy, hstrip⟩ := Label.stripValue_resolve_unknown parent
    simp [hlabel, hnull, htruthy, hstrip]
  · simp [hnull]

/-- The discriminant that an asset is given allows the same named ports. -/
theorem names_shownType (fields : Fields) (field : Key) (label : String) :
  Slot.names (shownType fields) field label = Slot.names (Json.field fields typeKey) field label
  := by
  rw [shownType]
  split
  · rename_i h
    have hunknown : ∀ s, Slot.portNames "unknown" s = [] := by
      intro s
      have hnone : Entries.find? Slot.namedInputs "unknown" = none := by decide
      simp [Slot.portNames, hnone]
    cases hv : Json.field fields typeKey with
    | null =>
      cases field <;> simp [Slot.names, hunknown]
    | _ => simp [hv, Json.isNull] at h
  · rfl

/-! ### Values of fields -/

/-- The value of a plain field is a part of its own. -/
theorem valueParts_of_find?_plain (h : Mapping fields) {s : String} {v : Json}
    (hv : Entries.find? (plain fields) (.text s) = some v) :
  valueParts (.text s) v = [.plain (.text s) v]
  := valueParts_of_mem_plain (f := (.text s, v)) ((mapping_plain h).find?_eq_some_iff.mp hv)

theorem exists_obj_of_isAsset {v : Json} (h : v.isAsset = true) : ∃ t, v = .obj t
  := by
  cases v with
  | obj t => exact ⟨t, rfl⟩
  | _ => cases h

/-- An asset is the only part of its field. -/
theorem valueParts_asset {s : String} (hs : s ≠ typeKey) {t : Fields}
    (ht : (Json.obj t).isAsset = true) :
  valueParts (.text s) (.obj t) = [.child ⟨.text s, none, t⟩]
  := by
  replace ht : Entries.contains t (.text typeKey) = true := ht
  simp [valueParts, bne, hs, ht]

/-- The parts of an array of assets are the record of its field and its items. -/
theorem valueParts_assets {s : String} (hs : s ≠ typeKey) (hd : s ≠ disconnectedKey)
    {items : List Json} (hne : items ≠ []) (hassets : ∀ v ∈ items, v.isAsset = true) :
  valueParts (.text s) (.arr items) = .record (.text s) :: itemParts (.text s) 0 items
  := by
  have hkind : (Json.arr items).kind = .assetArray := by
    have hall : items.all Json.isAsset = true := List.all_eq_true.mpr hassets
    simp [Json.kind, hne, hall]
  simp [valueParts, bne, hs, hd, hkind]

/-- Where an asset has a child it has no plain field. -/
theorem find?_plain_of_child (h : Mapping fields) {c : Child} (hc : c ∈ children fields) :
  Entries.find? (plain fields) (.text c.name) = none
  := by
  obtain ⟨-, v, hv, ⟨-, -, hparts⟩ | ⟨i, ts, -, -, -, -, hparts⟩⟩ := exists_value h hc
  · rw [find?_plain h, hv, Option.bind_some, hparts]
    rfl
  · rw [find?_plain h, hv, Option.bind_some, hparts, List.filterMap_cons_none rfl,
      filterMap_plain?_itemParts]
    rfl

/-- A value that is neither an asset nor an array stands in an asset exactly if it stands among the
plain fields. -/
theorem find?_plain_eq_some_iff (h : Mapping fields) {s : String} (hs : s ≠ typeKey)
    {value : Fields} (hvalue : Entries.contains value (.text typeKey) = false) :
  Entries.find? (plain fields) (.text s) = some (.obj value)
    ↔ Entries.find? fields (.text s) = some (.obj value)
  := by
  constructor
  · intro hv
    apply h.find?_eq_some_iff.mpr
    apply (plain_sublist fields).subset
    apply (mapping_plain h).find?_eq_some_iff.mp hv
  · intro hv
    have hparts : valueParts (.text s) (.obj value) = [.plain (.text s) (.obj value)] := by
      simp [valueParts, hvalue]
    rw [find?_plain h, hv, Option.bind_some, hparts]
    simp [Part.plain?, hs, Entries.find?]

/-- Assets with the same discriminant for the eyes of a label and with the same plain `Value` have
the same label. -/
theorem label_congr {fields' : Fields} (h : Mapping fields) (h' : Mapping fields')
    (htype : Json.field fields' typeKey = shownType fields)
    (hvalue : Entries.find? (plain fields') (.text "Value")
      = Entries.find? (plain fields) (.text "Value"))
    (parent : Option String) :
  (classify fields' parent).label = (classify fields parent).label
  := by
  have hfield : ∀ {m value : Fields}, Json.field m "Value" = .obj value
      ↔ Entries.find? m (.text "Value") = some (.obj value) := by
    intro m value
    rw [Json.field]
    cases Entries.find? m (.text "Value") <;> simp
  have hvector : isVectorConstant fields' = isVectorConstant fields := by
    rw [Bool.eq_iff_iff, isVectorConstant_iff, isVectorConstant_iff, htype,
      shownType_eq_constant_iff]
    apply and_congr_right'
    apply exists_congr
    intro value
    apply and_congr_left
    rintro ⟨hplain, -⟩
    rw [hfield, hfield, ← find?_plain_eq_some_iff h (by decide) hplain,
      ← find?_plain_eq_some_iff h' (by decide) hplain, hvalue]
  rw [classify, classify, hvector, htype, typeText_shownType]
  split <;> rfl

/-! ### Composed assets -/

/-- The discriminant and the plain fields of an asset, with children written into slots. -/
def composed (fields : Fields) (writes : List Write) : Fields :=
  placed ((.text typeKey, shownType fields) :: plain fields) writes

/-- The number that an item of a field gets when the gaps are closed. -/
def rankIn (writes : List Write) (s : String) (index : Nat) : Nat :=
  (((Entries.ofList (itemsAt s writes)).mergeSort fun a b => a.1 ≤ b.1).map Prod.fst).idxOf index

/-- The child that is written into a slot. -/
def written (writes : List Write) (w : Write) : Child :=
  ⟨.text w.1.1, w.1.2.map (rankIn writes w.1.1), match w.2 with | .obj t => t | _ => []⟩

variable {writes : List Write}

theorem mapping_composed (h : Mapping fields) (writes : List Write) :
  Mapping (composed fields writes)
  := by
  apply mapping_placed
  apply mapping_own h

/-- Under a name where nothing is written stands what the asset has of its own. -/
theorem find?_composed_of_forall {s : String} (h : ∀ w ∈ writes, w.1.1 ≠ s) :
  Entries.find? (composed fields writes) (.text s)
    = Entries.find? ((.text typeKey, shownType fields) :: plain fields) (.text s)
  := find?_placed_of_forall _ h

/-- The sorted indices of the items of a field. -/
theorem pairwise_indices (writes : List Write) (s : String) :
  (((Entries.ofList (itemsAt s writes)).mergeSort fun a b => a.1 ≤ b.1).map Prod.fst).Pairwise
    (· < ·)
  := by
  have hdistinct : Entries.Distinct (Entries.ofList (itemsAt s writes)) := Entries.distinct_ofList _
  have hnodup : (((Entries.ofList (itemsAt s writes)).mergeSort fun a b => a.1 ≤ b.1).map
      Prod.fst).Nodup := by
    apply ((List.mergeSort_perm _ _).map Prod.fst).nodup_iff.mpr
    rw [Entries.distinct_iff_nodup] at hdistinct
    apply hdistinct
  have hsorted : (((Entries.ofList (itemsAt s writes)).mergeSort fun a b => a.1 ≤ b.1).map
      Prod.fst).Pairwise (· ≤ ·) := by
    rw [List.pairwise_map]
    have hpairwise : ((Entries.ofList (itemsAt s writes)).mergeSort fun a b => a.1 ≤ b.1).Pairwise
        fun a b => decide (a.1 ≤ b.1) :=
      List.pairwise_mergeSort (by simp; omega) (by simp; omega) _
    simpa using hpairwise
  apply (hsorted.and hnodup).imp
  rintro a b ⟨hle, hne⟩
  omega

/-- The indices of the items differ, so the first place of an index is its only one. -/
theorem rankIn_of_getElem? {s : String} {i index : Nat} {v : Json}
    (h : ((Entries.ofList (itemsAt s writes)).mergeSort fun a b => a.1 ≤ b.1)[i]? = some (index, v)) :
  rankIn writes s index = i
  := by
  have hnodup := (pairwise_indices writes s).imp Nat.ne_of_lt
  have hplace : (((Entries.ofList (itemsAt s writes)).mergeSort fun a b => a.1 ≤ b.1).map
      Prod.fst)[i]? = some index := by
    rw [List.getElem?_map, h]
    rfl
  obtain ⟨hlt, heq⟩ := List.getElem?_eq_some_iff.mp hplace
  rw [rankIn, ← heq, List.Nodup.idxOf_getElem hnodup]

/-- An item of a composed array is written into the field. -/
theorem exists_write_of_getElem? {s : String} {i : Nat} {v : Json}
    (h : (inOrder (Entries.ofList (itemsAt s writes)))[i]? = some v) :
  ∃ w ∈ writes, ∃ index, w.1 = (s, some index) ∧ i = rankIn writes s index ∧ v = w.2
  := by
  have hdistinct : Entries.Distinct (Entries.ofList (itemsAt s writes)) := Entries.distinct_ofList _
  rw [inOrder, List.getElem?_map] at h
  obtain ⟨⟨index, v'⟩, hitem, rfl⟩ := Option.map_eq_some_iff.mp h
  have hmem : (index, v') ∈ Entries.ofList (itemsAt s writes) := by
    apply List.mem_mergeSort.mp
    apply List.mem_of_getElem? hitem
  have hlast := hdistinct.find?_of_mem hmem
  rw [find?_ofList_itemsAt] at hlast
  exact ⟨_, mem_of_lastIn? hlast, index, rfl, (rankIn_of_getElem? hitem).symm, rfl⟩

/-- What stands under a name of a composed asset: an array of what is written into its items, what
is written there, or what the asset has there of its own. -/
theorem find?_composed_cases {s : String} {v : Json}
    (h : Entries.find? (composed fields writes) (.text s) = some v) :
  (∃ items, v = .arr items ∧ items ≠ [] ∧ ∀ (i : Nat) u, items[i]? = some u →
      ∃ w ∈ writes, ∃ index, w.1 = (s, some index) ∧ i = rankIn writes s index ∧ u = w.2)
    ∨ (∃ w ∈ writes, w.1 = (s, none) ∧ v = w.2)
    ∨ Entries.find? ((.text typeKey, shownType fields) :: plain fields) (.text s) = some v
  := by
  rw [composed, find?_placed] at h
  split at h
  · rcases Option.or_eq_some_iff.mp h with hchild | ⟨-, hown⟩
    · right; left
      rw [childAt?_eq] at hchild
      exact ⟨_, mem_of_lastIn? hchild, rfl, rfl⟩
    · right; right
      apply hown
  · rename_i hitems
    left
    exact ⟨_, (Option.some.inj h).symm, inOrder_ofList_ne_nil hitems,
      fun i u => exists_write_of_getElem?⟩

/-- A composed asset is an asset. -/
theorem isAsset_composed (fields : Fields) (writes : List Write) :
  (Json.obj (composed fields writes)).isAsset = true
  := by
  rw [Json.isAsset, Entries.contains, composed, find?_placed]
  split
  · simp [Entries.find?]
  · rfl

/-- The plain fields of a composed asset are those of the asset, if only assets are written, and not
where the asset has a plain field. -/
theorem find?_plain_composed (h : Mapping fields) {s : String} (hs : s ≠ typeKey)
    (hassets : ∀ w ∈ writes, w.2.isAsset = true)
    (hunowned : ∀ w ∈ writes, w.1.1 = s → Entries.find? (plain fields) (.text s) = none)
    (hlisted : ∀ w ∈ writes, w.1.1 = s → w.1.2.isSome = true → s ≠ disconnectedKey) :
  Entries.find? (plain (composed fields writes)) (.text s) = Entries.find? (plain fields) (.text s)
  := by
  rw [find?_plain (mapping_composed h writes)]
  by_cases hw : ∃ w ∈ writes, w.1.1 = s
  · obtain ⟨w, hw, heq⟩ := hw
    rw [hunowned w hw heq, Option.bind_eq_none_iff]
    intro v hv
    rcases find?_composed_cases hv with ⟨items, rfl, hne, hitems⟩ | ⟨w', hw', -, rfl⟩ | hown
    · have hall : ∀ u ∈ items, ∃ w ∈ writes, ∃ index, w.1 = (s, some index) ∧ u = w.2 := by
        intro u hu
        obtain ⟨i, hi⟩ := List.mem_iff_getElem?.mp hu
        obtain ⟨w, hw, index, hslot, -, heq⟩ := hitems i u hi
        exact ⟨w, hw, index, hslot, heq⟩
      obtain ⟨u, hu⟩ := List.exists_mem_of_ne_nil items hne
      obtain ⟨w', hw', index, hslot, -⟩ := hall u hu
      rw [valueParts_assets hs (hlisted w' hw' (by rw [hslot]) (by rw [hslot]; rfl)) hne,
        List.filterMap_cons_none rfl, filterMap_plain?_itemParts]
      · rfl
      · intro u hu
        obtain ⟨w, hw, -, -, rfl⟩ := hall u hu
        apply hassets w hw
    · have hasset := hassets w' hw'
      obtain ⟨t, hvalue⟩ := exists_obj_of_isAsset hasset
      rw [hvalue] at hasset ⊢
      rw [valueParts_asset hs hasset]
      rfl
    · rw [find?_own _ hs, hunowned w hw heq] at hown
      cases hown
  · rw [find?_composed_of_forall fun w hmem heq => hw ⟨w, hmem, heq⟩, find?_own _ hs]
    cases hv : Entries.find? (plain fields) (.text s) with
    | none => rfl
    | some v =>
      rw [Option.bind_some, valueParts_of_find?_plain h hv]
      simp [Part.plain?, hs, Entries.find?]

/-- The children of an asset that has under their names what a composed one has are written
there. -/
theorem exists_write (h : Mapping fields) (hobj : ∀ w ∈ writes, ∃ t, w.2 = .obj t)
    {fields' : Fields} (h' : Mapping fields') {c : Child} (hc : c ∈ children fields')
    (hfind : Entries.find? fields' (.text c.name)
      = Entries.find? (composed fields writes) (.text c.name)) :
  ∃ w ∈ writes, c = written writes w
  := by
  have hkey := key_eq_name h' hc
  obtain ⟨htype, v, hv, hcases⟩ := exists_value h' hc
  rw [hfind] at hv
  -- what is the asset's own is no child
  have hown : Entries.find? ((.text typeKey, shownType fields) :: plain fields) (.text c.name)
      = some v → valueParts (.text c.name) v = [.plain (.text c.name) v] := by
    intro hown
    rw [find?_own _ htype] at hown
    apply valueParts_of_find?_plain h hown
  rcases hcases with ⟨hi, rfl, hparts⟩ | ⟨i, ts, hi, -, rfl, hitem, hparts⟩
  · rcases find?_composed_cases hv with ⟨items, heq, -⟩ | ⟨w, hw, hslot, heq⟩ | hplain
    · cases heq
    · use w, hw
      obtain ⟨key, index, t⟩ := c
      simp only at hi hkey heq hslot
      rw [written, hslot, hkey, hi, ← heq]
      rfl
    · rw [hown hplain] at hparts
      cases hparts
  · rcases find?_composed_cases hv with ⟨items, heq, -, hitems⟩ | ⟨w, hw, -, heq⟩ | hplain
    · obtain rfl := Json.arr.inj heq
      obtain ⟨w, hw, index, hslot, hrank, heq⟩ := hitems i (.obj c.fields) (by simp [hitem])
      use w, hw
      obtain ⟨key, index', t⟩ := c
      simp only at hi hkey heq hslot hrank
      rw [written, hslot, hkey, hi, ← heq, hrank]
      rfl
    · obtain ⟨t, ht⟩ := hobj w hw
      rw [ht] at heq
      cases heq
    · rw [hown hplain] at hparts
      cases hparts

/-- A composed asset has no more children than are written. -/
theorem length_children_le_writes (h : Mapping fields) (hobj : ∀ w ∈ writes, ∃ t, w.2 = .obj t)
    {fields' : Fields} (h' : Mapping fields')
    (hfind : ∀ c ∈ children fields', Entries.find? fields' (.text c.name)
      = Entries.find? (composed fields writes) (.text c.name)) :
  (children fields').length ≤ writes.length
  := by
  have hnodup : (children fields').Nodup := List.Nodup.of_map _ (nodup_slots h')
  have hsubset : children fields' ⊆ writes.map (written writes) := by
    intro c hc
    obtain ⟨w, hw, rfl⟩ := exists_write h hobj h' hc (hfind c hc)
    apply List.mem_map_of_mem hw
  have hle := (List.subperm_of_subset hnodup hsubset).length_le
  rwa [List.length_map] at hle

/-- Increasing numbers that begin with `low, …, low + k` have `low + k` at the place `k`. -/
theorem idxOf_eq_of_pairwise {l : List Nat} (hl : l.Pairwise (· < ·)) {low k : Nat}
    (hlow : ∀ i ∈ l, low ≤ i) (h : ∀ i ≤ k, low + i ∈ l) :
  l.idxOf (low + k) = k
  := by
  induction l generalizing low k with
  | nil => simpa using h 0 (Nat.zero_le k)
  | cons first rest ih =>
    have hrest := List.pairwise_cons.mp hl
    obtain rfl : first = low := by
      rcases List.mem_cons.mp (h 0 (Nat.zero_le k)) with heq | hmem
      · omega
      · have hlt := hrest.1 _ hmem
        have hle := hlow first (by simp)
        omega
    cases k with
    | zero => simp
    | succ k =>
      have hne : first ≠ first + (k + 1) := by omega
      have hstep : rest.idxOf (first + 1 + k) = k := by
        apply ih hrest.2
        · intro i hi
          apply hrest.1 i hi
        · intro i hi
          rcases List.mem_cons.mp (h (i + 1) (by omega)) with heq | hmem
          · omega
          · rwa [show first + 1 + i = first + (i + 1) by omega]
      rw [List.idxOf_cons_ne _ hne, show first + (k + 1) = first + 1 + k by omega, hstep]

/-- An item keeps its index if every index below it is taken. -/
theorem rankIn_eq {s : String} {index : Nat} (h : ∀ i ≤ index, ∃ w ∈ writes, w.1 = (s, some i)) :
  rankIn writes s index = index
  := by
  have hplace := idxOf_eq_of_pairwise (pairwise_indices writes s) (k := index)
    (fun i _ => Nat.zero_le i) (by
      intro i hi
      obtain ⟨⟨slot, v⟩, hw, rfl⟩ := h i hi
      have hitem : (i, v) ∈ itemsAt s writes := mem_itemsAt_iff.mpr hw
      have hkey : i ∈ Entries.keys (Entries.ofList (itemsAt s writes)) := by
        rw [Entries.mem_keys_iff, Entries.find?_ofList]
        apply Option.isSome_iff_exists.mp
        by_contra hnone
        rw [Option.not_isSome_iff_eq_none, Entries.find?_eq_none_iff] at hnone
        simpa using hnone (i, v) (List.mem_reverse.mpr hitem)
      rw [Nat.zero_add]
      apply ((List.mergeSort_perm _ _).map Prod.fst).mem_iff.mpr hkey)
  rwa [Nat.zero_add] at hplace

/-! ### Orderly writes -/

/-- Writes of assets into slots of their own: no slot is written twice, none of them is a field with
items, and none is taken by what the asset has of its own. -/
structure Orderly (fields : Fields) (writes : List Write) : Prop where
  assets : ∀ w ∈ writes, w.2.isAsset = true
  nodup : (writes.map Prod.fst).Nodup
  unmixed : ∀ w ∈ writes, w.1.2 = none → ∀ w' ∈ writes, ∀ i, w'.1 ≠ (w.1.1, some i)
  unowned : ∀ w ∈ writes, Entries.find? (plain fields) (.text w.1.1) = none
  typed : ∀ w ∈ writes, w.1.1 ≠ typeKey
  listed : ∀ w ∈ writes, w.1.2.isSome = true → w.1.1 ≠ disconnectedKey

namespace Orderly

theorem exists_obj (ho : Orderly fields writes) {w : Write} (hw : w ∈ writes) :
  ∃ t, w.2 = .obj t ∧ (Json.obj t).isAsset = true
  := by
  obtain ⟨t, hvalue⟩ := exists_obj_of_isAsset (ho.assets w hw)
  use t, hvalue
  rw [← hvalue]
  apply ho.assets w hw

/-- The last write into a slot is the only one. -/
theorem lastIn?_eq (ho : Orderly fields writes) {w : Write} (hw : w ∈ writes) :
  lastIn? w.1 writes = some w.2
  := by
  cases hlast : (writes.filter fun w' => w'.1 = w.1).getLast? with
  | none =>
    rw [List.getLast?_eq_none_iff, List.filter_eq_nil_iff] at hlast
    exact (hlast w hw (by simp)).elim
  | some w' =>
    obtain ⟨hw', hslot⟩ := List.mem_filter.mp (List.mem_of_getLast? hlast)
    obtain rfl := List.inj_on_of_nodup_map ho.nodup hw' hw (by simpa using hslot)
    rw [lastIn?, hlast]
    rfl

/-- The array of a composed asset under a field into whose items something is written. -/
theorem find?_items (ho : Orderly fields writes) {w : Write} (hw : w ∈ writes) {index : Nat}
    (hi : w.1.2 = some index) :
  ∃ items, Entries.find? (composed fields writes) (.text w.1.1) = some (.arr items)
    ∧ items[rankIn writes w.1.1 index]? = some w.2
    ∧ valueParts (.text w.1.1) (.arr items) = .record (.text w.1.1) :: itemParts (.text w.1.1) 0 items
  := by
  have hslot : w.1 = (w.1.1, some index) := Prod.ext rfl hi
  have hitem : (index, w.2) ∈ itemsAt w.1.1 writes := by
    rw [mem_itemsAt_iff, ← hslot]
    exact hw
  have hne : itemsAt w.1.1 writes ≠ [] := List.ne_nil_of_mem hitem
  have hassets : ∀ v ∈ inOrder (Entries.ofList (itemsAt w.1.1 writes)), v.isAsset = true := by
    intro v hv
    obtain ⟨i, hi⟩ := List.mem_iff_getElem?.mp hv
    obtain ⟨w', hw', -, -, -, rfl⟩ := exists_write_of_getElem? hi
    apply ho.assets w' hw'
  refine ⟨inOrder (Entries.ofList (itemsAt w.1.1 writes)), ?_, ?_, ?_⟩
  · rw [composed, find?_placed, if_neg hne]
  · have hlast := ho.lastIn?_eq hw
    rw [hslot, ← find?_ofList_itemsAt] at hlast
    obtain ⟨i, hplace⟩ := List.mem_iff_getElem?.mp
      ((List.mergeSort_perm _ fun a b : Nat × Json => a.1 ≤ b.1).mem_iff.mpr
        (Entries.entry_mem_of_find? hlast))
    rw [rankIn_of_getElem? hplace, inOrder, List.getElem?_map, hplace]
    rfl
  · apply valueParts_assets (ho.typed w hw) _ (inOrder_ofList_ne_nil hne) hassets
    apply ho.listed w hw
    simp [hi]

/-- The value of a composed asset under a field into which something is written. -/
theorem find?_field (ho : Orderly fields writes) {w : Write} (hw : w ∈ writes)
    (hi : w.1.2 = none) :
  Entries.find? (composed fields writes) (.text w.1.1) = some w.2
  := by
  have hslot : w.1 = (w.1.1, none) := Prod.ext rfl hi
  have hnil : itemsAt w.1.1 writes = [] := itemsAt_eq_nil_iff.mpr (ho.unmixed w hw hi)
  have hlast := ho.lastIn?_eq hw
  rw [hslot, ← childAt?_eq] at hlast
  rw [composed, find?_placed, if_pos hnil, hlast]
  rfl

/-- Every write becomes a child. -/
theorem written_mem_children (ho : Orderly fields writes) (h : Mapping fields) {w : Write}
    (hw : w ∈ writes) :
  written writes w ∈ children (composed fields writes)
  := by
  have hcomposed := mapping_composed h writes
  obtain ⟨t, hvalue, hasset⟩ := ho.exists_obj hw
  cases hi : w.1.2 with
  | none =>
    apply mem_children.mpr
    apply mem_parts hcomposed (ho.find?_field hw hi)
    rw [hvalue, valueParts_asset (ho.typed w hw) hasset, List.mem_singleton, written, hi, hvalue]
    rfl
  | some index =>
    obtain ⟨items, hitems, hitem, hparts⟩ := ho.find?_items hw hi
    rw [hvalue] at hitem
    rw [written, hi, hvalue]
    apply item_mem_children hcomposed hitems hparts hitem

/-- The plain fields of a composed asset are those of the asset. -/
theorem find?_plain_eq (ho : Orderly fields writes) (h : Mapping fields) (s : String) :
  Entries.find? (plain (composed fields writes)) (.text s) = Entries.find? (plain fields) (.text s)
  := by
  by_cases hs : s = typeKey
  · have hnone : ∀ m : Fields, Entries.find? (plain m) (.text typeKey) = none := by
      intro m
      apply Entries.find?_eq_none_iff.mpr
      exact fun f hf => key_of_mem_plain hf
    rw [hs, hnone, hnone]
  · apply find?_plain_composed h hs ho.assets
    · rintro w hw rfl
      apply ho.unowned w hw
    · rintro w hw rfl
      apply ho.listed w hw

theorem find?_typeKey (ho : Orderly fields writes) :
  Entries.find? (composed fields writes) (.text typeKey) = some (shownType fields)
  := by
  rw [find?_composed_of_forall ho.typed]
  simp [Entries.find?]

theorem field_typeKey (ho : Orderly fields writes) :
  Json.field (composed fields writes) typeKey = shownType fields
  := by
  rw [Json.field, ho.find?_typeKey]
  rfl

/-- A composed asset has the label of the asset. -/
theorem label_composed (ho : Orderly fields writes) (h : Mapping fields)
    (parent : Option String) :
  (classify (composed fields writes) parent).label = (classify fields parent).label
  := by
  apply label_congr h (mapping_composed h writes) ho.field_typeKey
  apply ho.find?_plain_eq h

/-- A composed asset has no disconnected trees. -/
theorem exists_child_of_asset? (ho : Orderly fields writes) (h : Mapping fields) {part : Part}
    (hpart : part ∈ parts (composed fields writes)) {t : Fields} (ht : part.asset? = some t) :
  ∃ c, part = .child c
  := by
  cases part with
  | child c => exact ⟨c, rfl⟩
  | tree index t =>
    obtain ⟨⟨key, v⟩, hf, hv⟩ := List.mem_flatMap.mp hpart
    obtain ⟨rfl, items, rfl⟩ := tree_of_mem_valueParts hv
    rcases find?_composed_cases ((mapping_composed h writes).find?_eq_some_iff.mpr hf) with
      ⟨items, -, hne, hitems⟩ | ⟨w, hw, -, heq⟩ | hown
    · obtain ⟨u, hu⟩ : ∃ u, items[0]? = some u := by
        cases items with
        | nil => exact (hne rfl).elim
        | cons u rest => exact ⟨u, rfl⟩
      obtain ⟨w, hw, index, hslot, -⟩ := hitems 0 u hu
      have hlisted := ho.listed w hw (by simp [hslot])
      simp [hslot] at hlisted
    · obtain ⟨t, hvalue, -⟩ := ho.exists_obj hw
      rw [hvalue] at heq
      cases heq
    · rw [find?_own _ (by decide)] at hown
      rw [valueParts_of_find?_plain h hown, List.mem_singleton] at hv
      cases hv
  | _ => cases ht

/-- A composed asset has room where the asset has room, if it has no more children, and items only
if the asset has items. -/
theorem roomy_composed (ho : Orderly fields writes) (h : Mapping fields) {policy : LayoutPolicy}
    (hroom : Roomy policy parent fields) (hlength : writes.length ≤ (children fields).length)
    (hitems : ∀ w ∈ writes, w.1.2.isSome = true → ∃ c ∈ children fields, c.index.isSome = true) :
  Roomy policy parent (composed fields writes)
  := by
  have hcomposed := mapping_composed h writes
  have hobj : ∀ w ∈ writes, ∃ t, w.2 = .obj t := by
    intro w hw
    obtain ⟨t, hvalue, -⟩ := ho.exists_obj hw
    exact ⟨t, hvalue⟩
  constructor
  · intro i hi
    apply hroom.rows i
    apply Nat.lt_of_lt_of_le hi
    apply Nat.le_trans _ hlength
    apply length_children_le_writes h hobj hcomposed fun _ _ => rfl
  · intro i t hmem
    obtain ⟨c, heq⟩ := ho.exists_child_of_asset? h hmem rfl
    cases heq
  · intro c hmem hi
    obtain ⟨w, hw, rfl⟩ := exists_write h hobj hcomposed (mem_children.mpr hmem) rfl
    obtain ⟨c', hc', hi'⟩ := hitems w hw (by simpa [written] using hi)
    have hnameable := hroom.ports c' (mem_children.mp hc') hi'
    rw [assetType_classify] at hnameable ⊢
    rw [ho.label_composed h, ho.field_typeKey, shownType]
    split
    · rfl
    · apply hnameable
  · intro c hmem
    apply isSpellable_of_mapping hcomposed (mem_children.mpr hmem)

end Orderly

end Asset

end AssetCanvas
