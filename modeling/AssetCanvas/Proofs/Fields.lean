import AssetCanvas.Proofs.Parts
import AssetCanvas.Proofs.Placing
import Mathlib.Data.List.Nodup

/-!
# The parts of an asset by keys

The fields of an asset with distinct textual keys each have parts of their own: what an asset
holds under a key is told by the parts of the value of the key.  Putting the children of an
asset back into the slots from which they came gives the fields of the asset, in some order:
`Asset.find?_rebuilt`.
-/

namespace AssetCanvas

open Json

/-! ### Fields by keys -/

/-- What is made of the fields of a mapping, field by field, is told by keys. -/
theorem Json.Mapping.filter_flatMap {α : Type} {fields : Fields} (h : Mapping fields)
    (parts : Key × Json → List α) (key : α → Key) (hkey : ∀ f, ∀ a ∈ parts f, key a = f.1)
    (s : String) :
  (fields.flatMap parts).filter (fun a => key a == .text s)
    = ((Entries.find? fields (.text s)).map fun v => parts (.text s, v)).getD []
  := by
  induction fields with
  | nil => rfl
  | cons f rest ih =>
    obtain ⟨k, v⟩ := f
    obtain ⟨t, ht⟩ := h.textual (k, v) (by simp)
    obtain rfl : k = .text t := ht
    rw [List.flatMap_cons, List.filter_append, ih h.cons_inv]
    by_cases hs : t = s
    · subst hs
      have hrest : Entries.find? rest (.text t) = none := by
        apply Entries.find?_eq_none_iff.mpr
        intro other hmem
        rw [BEq.comm]
        apply (Entries.distinct_cons.mp h.distinct).1 other hmem
      have hall : (parts (.text t, v)).filter (fun a => key a == .text t) = parts (.text t, v) := by
        rw [List.filter_eq_self]
        intro a hmem
        simp [hkey _ a hmem]
      simp [hall, hrest, Entries.find?]
    · have hnone : (parts (.text t, v)).filter (fun a => key a == .text s) = [] := by
        rw [List.filter_eq_nil_iff]
        intro a hmem
        simp [hkey _ a hmem, hs]
      simp [hnone, Entries.find?, hs]

theorem Entries.find?_filter (fields : Fields) (k : Key) :
  find? (fields.filter fun f => f.1 == k) k = find? fields k
  := by
  induction fields with
  | nil => rfl
  | cons f rest ih =>
    by_cases h : f.1 == k
    · simp [find?, h]
    · simp [find?, h, ih]

namespace Asset

theorem key_of_mem_itemParts {key : Key} {index : Nat} {items : List Json} {part : Part}
    (h : part ∈ itemParts key index items) :
  ∃ i t, part = .child ⟨key, some i, t⟩
  := by
  induction items generalizing index with
  | nil => cases h
  | cons v rest ih =>
    cases v with
    | obj t =>
      rcases List.mem_cons.mp h with rfl | h
      · use index, t
      · apply ih h
    | _ => apply ih h

theorem mem_treeParts {index : Nat} {items : List Json} {part : Part}
    (h : part ∈ treeParts index items) :
  (∃ i t, part = .tree i t) ∨ ∃ i, part = .skipped i
  := by
  induction items generalizing index with
  | nil => cases h
  | cons v rest ih =>
    rcases List.mem_cons.mp h with rfl | h
    · cases v with
      | obj t =>
        by_cases hc : Entries.contains t (.text typeKey) = true
        · left
          use index, t
          simp [treePart, hc]
        · right
          use index
          simp [treePart, hc]
      | _ =>
        right
        use index
        rfl
    · apply ih h

/-- What the parts of a value are: a child, disconnected trees, the items of an array of assets,
or the value itself. -/
theorem valueParts_cases (key : Key) (v : Json) :
  (∃ t, v = .obj t ∧ (key == .text typeKey) = false ∧ valueParts key v = [.child ⟨key, none, t⟩])
    ∨ (∃ items, v = .arr items ∧ (key == .text disconnectedKey) = true
      ∧ valueParts key v = treeParts 0 items)
    ∨ (∃ items, v = .arr items ∧ (key == .text disconnectedKey) = false ∧ v.kind = .assetArray
      ∧ valueParts key v = .record key :: itemParts key 0 items)
    ∨ ((key == .text disconnectedKey) = true → ∀ items, v ≠ .arr items)
      ∧ valueParts key v = [.plain key v]
  := by
  cases v with
  | obj t =>
    by_cases h : (key != .text typeKey && Entries.contains t (.text typeKey)) = true
    · left
      have hkey := Bool.and_eq_true_iff.mp h
      use t, rfl, by simpa [bne] using hkey.1
      simp only [valueParts, h, if_true]
    · right; right; right
      simp [valueParts, h]
  | arr items =>
    by_cases hd : (key == .text disconnectedKey) = true
    · right; left
      use items, rfl, hd
      simp [valueParts, hd]
    · by_cases h : (key != .text typeKey && (Json.arr items).kind = .assetArray) = true
      · right; right; left
        have hkey := Bool.and_eq_true_iff.mp h
        use items, rfl, by simpa using hd, by simpa using hkey.2
        simp only [valueParts, h, hd]
        rfl
      · right; right; right
        simp [valueParts, hd, h]
  | _ =>
    right; right; right
    simp [valueParts]

theorem length_treeParts (index : Nat) (items : List Json) :
  (treeParts index items).length = items.length
  := by
  induction items generalizing index with
  | nil => rfl
  | cons v rest ih => rw [treeParts, List.length_cons, List.length_cons, ih]

/-- The parts of a value are parts of the field. -/
theorem key_of_mem_valueParts {key : Key} {v : Json} {part : Part} (h : part ∈ valueParts key v) :
  (∀ c, part.child? = some c → c.key = key) ∧ (∀ f, part.plain? = some f → f = (key, v))
    ∧ ∀ k, part.record? = some k → k = key
  := by
  rcases valueParts_cases key v with ⟨t, -, -, hp⟩ | ⟨items, -, -, hp⟩ | ⟨items, -, -, -, hp⟩
    | ⟨-, hp⟩
  · rw [hp, List.mem_singleton] at h
    subst h
    simp [Part.child?, Part.plain?, Part.record?]
  · rw [hp] at h
    rcases mem_treeParts h with ⟨i, t, rfl⟩ | ⟨i, rfl⟩
    · simp [Part.child?, Part.plain?, Part.record?]
    · simp [Part.child?, Part.plain?, Part.record?]
  · rw [hp] at h
    rcases List.mem_cons.mp h with rfl | h
    · simp [Part.child?, Part.plain?, Part.record?]
    · obtain ⟨i, t, rfl⟩ := key_of_mem_itemParts h
      simp [Part.child?, Part.plain?, Part.record?]
  · rw [hp, List.mem_singleton] at h
    subst h
    simp [Part.child?, Part.plain?, Part.record?]

/-! ### Items of arrays -/

/-- The items of an array of assets as children. -/
theorem itemParts_children (key : Key) (index : Nat) (ts : List Fields) :
  (itemParts key index (ts.map Json.obj)).filterMap Part.child?
    = (ts.zipIdx index).map fun p => ⟨key, some p.2, p.1⟩
  := by
  induction ts generalizing index with
  | nil => rfl
  | cons t rest ih =>
    have hfirst : (Part.child ⟨key, some index, t⟩).child? = some ⟨key, some index, t⟩ := rfl
    rw [List.map_cons, itemParts, List.filterMap_cons_some hfirst, ih, List.zipIdx_cons,
      List.map_cons]

theorem filterMap_plain?_itemParts (key : Key) (index : Nat) (items : List Json) :
  (itemParts key index items).filterMap Part.plain? = []
  := by
  rw [List.filterMap_eq_nil_iff]
  intro part hmem
  obtain ⟨i, t, rfl⟩ := key_of_mem_itemParts hmem
  rfl

theorem child_mem_itemParts (key : Key) (start : Nat) {items : List Json} {i : Nat} {t : Fields}
    (h : items[i]? = some (.obj t)) :
  .child ⟨key, some (start + i), t⟩ ∈ itemParts key start items
  := by
  induction items generalizing start i with
  | nil => simp at h
  | cons v rest ih =>
    cases i with
    | zero =>
      obtain rfl : v = .obj t := by simpa using h
      simp [itemParts]
    | succ i =>
      have hrest := ih (start + 1) (i := i) (by simpa using h)
      rw [show start + 1 + i = start + (i + 1) by omega] at hrest
      cases v <;> simp [itemParts, hrest]

theorem filterMap_child?_treeParts (index : Nat) (items : List Json) :
  (treeParts index items).filterMap Part.child? = []
  := by
  rw [List.filterMap_eq_nil_iff]
  intro part hmem
  rcases mem_treeParts hmem with ⟨i, t, rfl⟩ | ⟨i, rfl⟩ <;> rfl

theorem filterMap_plain?_treeParts (index : Nat) (items : List Json) :
  (treeParts index items).filterMap Part.plain? = []
  := by
  rw [List.filterMap_eq_nil_iff]
  intro part hmem
  rcases mem_treeParts hmem with ⟨i, t, rfl⟩ | ⟨i, rfl⟩ <;> rfl

/-- The items of an array of assets are objects. -/
theorem exists_objects {items : List Json} (h : ∀ v ∈ items, v.isAsset = true) :
  ∃ ts : List Fields, items = ts.map Json.obj
  := by
  induction items with
  | nil =>
    use []
    rfl
  | cons v rest ih =>
    obtain ⟨ts, rfl⟩ := ih fun w hw => h w (by simp [hw])
    have hv := h v (by simp)
    cases v with
    | obj t =>
      use t :: ts
      rfl
    | _ => simp [Json.isAsset] at hv

/-- A child in an array stands under an array field, at an index below the number of children. -/
theorem index_of_child {fields : Fields} {c : Child} (hc : c ∈ children fields) {i : Nat}
    (hi : c.index = some i) :
  c.key ∈ arrays fields ∧ i < (children fields).length
  := by
  obtain ⟨⟨key, v⟩, hf, hv⟩ := List.mem_flatMap.mp (mem_children.mp hc)
  have hlength : ((valueParts key v).filterMap Part.child?).length ≤ (children fields).length := by
    rw [children, parts, List.filterMap_flatMap, List.flatMap_def]
    apply List.Sublist.length_le
    apply List.sublist_flatten_of_mem
    apply List.mem_map_of_mem (f := fun f : Key × Json => (valueParts f.1 f.2).filterMap Part.child?) hf
  rcases valueParts_cases key v with ⟨t, -, -, hp⟩ | ⟨items, -, -, hp⟩ | ⟨items, rfl, -, hkind, hp⟩
    | ⟨-, hp⟩
  · rw [hp, List.mem_singleton] at hv
    obtain rfl := Part.child.inj hv
    cases hi
  · rw [hp] at hv
    rcases mem_treeParts hv with ⟨i, t, heq⟩ | ⟨i, heq⟩ <;> cases heq
  · constructor
    · rw [(key_of_mem_valueParts hv).1 c rfl]
      apply List.mem_filterMap.mpr
      use .record key
      constructor
      · apply List.mem_flatMap.mpr
        use (key, .arr items), hf
        simp [hp]
      · rfl
    · obtain ⟨ts, rfl⟩ := exists_objects (Json.isAsset_of_kind hkind).2
      have hmem : c ∈ (valueParts key (.arr (ts.map Json.obj))).filterMap Part.child? :=
        List.mem_filterMap.mpr ⟨.child c, hv, rfl⟩
      rw [hp, List.filterMap_cons_none rfl, itemParts_children] at hmem hlength
      obtain ⟨p, hp', rfl⟩ := List.mem_map.mp hmem
      obtain rfl := Option.some.inj hi
      have hlt := List.snd_lt_of_mem_zipIdx hp'
      rw [List.length_map, List.length_zipIdx] at hlength
      omega
  · rw [hp, List.mem_singleton] at hv
    cases hv

/-! ### Children, plain fields and records by keys -/

variable {fields : Fields}

theorem children_at (h : Mapping fields) (s : String) :
  (children fields).filter (fun c => c.key == .text s)
    = ((Entries.find? fields (.text s)).map fun v =>
      (valueParts (.text s) v).filterMap Part.child?).getD []
  := by
  rw [children, parts, List.filterMap_flatMap]
  apply h.filter_flatMap (fun f => (valueParts f.1 f.2).filterMap Part.child?) Child.key
  intro f c hmem
  obtain ⟨part, hpart, hc⟩ := List.mem_filterMap.mp hmem
  apply (key_of_mem_valueParts hpart).1 c hc

theorem find?_plain (h : Mapping fields) (s : String) :
  Entries.find? (plain fields) (.text s)
    = (Entries.find? fields (.text s)).bind fun v =>
      Entries.find? ((valueParts (.text s) v).filterMap Part.plain?) (.text s)
  := by
  have hfilter := h.filter_flatMap (fun f => (valueParts f.1 f.2).filterMap Part.plain?) Prod.fst
    (by
      intro f f' hmem
      obtain ⟨part, hpart, hf⟩ := List.mem_filterMap.mp hmem
      rw [(key_of_mem_valueParts hpart).2.1 f' hf]) s
  rw [plain, parts, List.filterMap_flatMap, ← Entries.find?_filter, hfilter]
  cases Entries.find? fields (.text s) <;> rfl

/-- A field is an array field if its value is an array of assets. -/
theorem mem_arrays (h : Mapping fields) (s : String) :
  Key.text s ∈ arrays fields
    ↔ ∃ v, Entries.find? fields (.text s) = some v ∧ Part.record (.text s) ∈ valueParts (.text s) v
  := by
  rw [arrays, List.mem_filterMap]
  constructor
  · rintro ⟨part, hmem, hpart⟩
    cases part <;> simp [Part.record?] at hpart
    subst hpart
    obtain ⟨⟨k, v⟩, hf, hv⟩ := List.mem_flatMap.mp hmem
    obtain rfl : Key.text s = k := (key_of_mem_valueParts hv).2.2 _ rfl
    use v, h.find?_eq_some_iff.mpr hf
  · rintro ⟨v, hv, hmem⟩
    use .record (.text s)
    constructor
    · apply List.mem_flatMap.mpr
      use (.text s, v), h.find?_eq_some_iff.mp hv
    · rfl

theorem mem_parts (h : Mapping fields) {s : String} {v : Json}
    (hv : Entries.find? fields (.text s) = some v) {part : Part}
    (hmem : part ∈ valueParts (.text s) v) :
  part ∈ parts fields
  := by
  apply List.mem_flatMap.mpr
  use (.text s, v), h.find?_eq_some_iff.mp hv

/-- The plain fields stand in the asset as they are. -/
theorem plain_sublist (fields : Fields) : (plain fields).Sublist fields
  := by
  have hvalue : ∀ f : Key × Json, ((valueParts f.1 f.2).filterMap Part.plain?).Sublist [f] := by
    rintro ⟨key, v⟩
    rcases valueParts_cases key v with ⟨t, -, -, hp⟩ | ⟨items, -, -, hp⟩ | ⟨items, -, -, -, hp⟩
      | ⟨-, hp⟩
    · simp [hp, Part.plain?]
    · rw [hp, filterMap_plain?_treeParts]
      apply List.nil_sublist
    · rw [hp, List.filterMap_cons_none rfl, filterMap_plain?_itemParts]
      apply List.nil_sublist
    · by_cases hk : (key == .text typeKey) = true
      · simp [hp, Part.plain?, hk]
      · simp [hp, Part.plain?, hk]
  rw [plain, parts, List.filterMap_flatMap]
  induction fields with
  | nil => simp
  | cons f rest ih =>
    rw [List.flatMap_cons]
    apply (hvalue f).append ih

/-- The plain fields of a mapping are a mapping. -/
theorem mapping_plain (h : Mapping fields) : Mapping (plain fields)
  := h.sublist (plain_sublist fields)

/-- The discriminant is no plain field. -/
theorem key_of_mem_plain {f : Key × Json} (h : f ∈ plain fields) : (f.1 == .text typeKey) = false
  := by
  obtain ⟨part, -, hpart⟩ := List.mem_filterMap.mp h
  cases part with
  | plain key v =>
    by_cases hk : (key == .text typeKey) = true
    · simp [Part.plain?, hk] at hpart
    · obtain rfl : (key, v) = f := by simpa [Part.plain?, hk] using hpart
      simpa using hk
  | _ => cases hpart

/-- A plain field is a part of its own. -/
theorem valueParts_of_mem_plain {f : Key × Json} (h : f ∈ plain fields) :
  valueParts f.1 f.2 = [.plain f.1 f.2]
  := by
  obtain ⟨part, hmem, hpart⟩ := List.mem_filterMap.mp h
  obtain ⟨⟨key, v⟩, -, hv⟩ := List.mem_flatMap.mp hmem
  obtain rfl : f = (key, v) := (key_of_mem_valueParts hv).2.1 f hpart
  rcases valueParts_cases key v with ⟨t, -, -, hp⟩ | ⟨items, -, -, hp⟩ | ⟨items, -, -, -, hp⟩
    | ⟨-, hp⟩
  · rw [hp, List.mem_singleton] at hv
    subst hv
    cases hpart
  · rw [hp] at hv
    rcases mem_treeParts hv with ⟨i, t, rfl⟩ | ⟨i, rfl⟩ <;> cases hpart
  · rw [hp] at hv
    rcases List.mem_cons.mp hv with rfl | hitem
    · cases hpart
    · obtain ⟨i, t, rfl⟩ := key_of_mem_itemParts hitem
      cases hpart
  · apply hp

theorem mapping_own (h : Mapping fields) (v : Json) : Mapping ((.text typeKey, v) :: plain fields)
  := by
  apply (mapping_plain h).cons
  intro f hmem
  apply key_of_mem_plain hmem

/-- A disconnected tree stands in the list under the reserved key. -/
theorem tree_of_mem_valueParts {key : Key} {v : Json} {index : Nat} {t : Fields}
    (h : Part.tree index t ∈ valueParts key v) :
  key = .text disconnectedKey ∧ ∃ items, v = .arr items
  := by
  rcases valueParts_cases key v with ⟨t, -, -, hp⟩ | ⟨items, rfl, hkey, -⟩
    | ⟨items, -, -, -, hp⟩ | ⟨-, hp⟩
  · simp [hp] at h
  · use Key.eq_of_beq_text hkey, items
  · rw [hp] at h
    rcases List.mem_cons.mp h with heq | h
    · cases heq
    · obtain ⟨i, t, heq⟩ := key_of_mem_itemParts h
      cases heq
  · simp [hp] at h

theorem filterMap_tree?_treeParts (index : Nat) {ts : List Fields}
    (h : ∀ v ∈ ts.map Json.obj, v.isAsset = true) :
  (treeParts index (ts.map Json.obj)).filterMap Part.tree? = ts
  := by
  induction ts generalizing index with
  | nil => rfl
  | cons t rest ih =>
    have ht : Entries.contains t (.text typeKey) = true := h (.obj t) (by simp)
    have hfirst : (treePart index (.obj t)).tree? = some t := by simp [treePart, ht, Part.tree?]
    rw [List.map_cons, treeParts, List.filterMap_cons_some hfirst,
      ih _ fun v hv => h v (List.mem_cons_of_mem _ hv)]

/-- The disconnected trees of a mapping are the assets in the list under the reserved key. -/
theorem trees_at (h : Mapping fields) :
  trees fields
    = ((Entries.find? fields (.text disconnectedKey)).map fun v =>
      (valueParts (.text disconnectedKey) v).filterMap Part.tree?).getD []
  := by
  have hfilter := h.filter_flatMap (fun f => (valueParts f.1 f.2).filterMap Part.tree?)
    (fun _ => .text disconnectedKey)
    (by
      intro f t hmem
      obtain ⟨part, hpart, ht⟩ := List.mem_filterMap.mp hmem
      cases part <;> simp [Part.tree?] at ht
      apply (tree_of_mem_valueParts hpart).1.symm) disconnectedKey
  rw [trees, parts, List.filterMap_flatMap, ← hfilter]
  apply Eq.symm
  rw [List.filter_eq_self]
  intro t _
  simp

theorem trees_eq (h : Mapping fields) {ts : List Fields}
    (ht : Entries.find? fields (.text disconnectedKey) = some (.arr (ts.map Json.obj)))
    (hassets : ∀ v ∈ ts.map Json.obj, v.isAsset = true) :
  trees fields = ts
  := by
  have hparts : valueParts (.text disconnectedKey) (.arr (ts.map Json.obj))
      = treeParts 0 (ts.map Json.obj) := by
    simp [valueParts]
  rw [trees_at h, ht, Option.map_some, Option.getD_some, hparts,
    filterMap_tree?_treeParts 0 hassets]

theorem trees_eq_nil (h : Mapping fields)
    (ht : Entries.find? fields (.text disconnectedKey) = none) :
  trees fields = []
  := by
  rw [trees_at h, ht]
  rfl

/-! ### Putting the children back -/

namespace Child

/-- The name of the field of a child. -/
def name (c : Child) : String := c.key.text?.getD ""

/-- The slot from which a child comes. -/
def slot (c : Child) : String × Option Nat := (c.name, c.index)

end Child

open Assembly

/-- The children of an asset in their slots, each with a value. -/
def writes (value : Child → Json) (fields : Fields) : List Write :=
  (children fields).map fun c => (c.slot, value c)

/-- What is read off the slots of textual children under one key is read off the children with
the key. -/
theorem filterMap_slots {α : Type} {cs : List Child} (h : ∀ c ∈ cs, ∃ t, c.key = .text t)
    {value : Child → Json} {s : String} {ofWrite : Write → Option α} {ofChild : Child → Option α}
    (hread : ∀ c t, c.key = .text t →
      ofWrite ((t, c.index), value c) = if t = s then ofChild c else none) :
  (cs.map fun c => (c.slot, value c)).filterMap ofWrite
    = (cs.filter fun c => c.key == .text s).filterMap ofChild
  := by
  rw [List.filterMap_map, List.filterMap_filter]
  apply List.filterMap_congr
  intro c hc
  obtain ⟨t, ht⟩ := h c hc
  have hslot : c.slot = (t, c.index) := by simp [Child.slot, Child.name, ht, Key.text?]
  rw [Function.comp_apply, hslot, hread c t ht, ht, Key.text_beq_text]
  simp only [decide_eq_true_eq]

theorem itemsAt_map {cs : List Child} (h : ∀ c ∈ cs, ∃ t, c.key = .text t) (value : Child → Json)
    (s : String) :
  itemsAt s (cs.map fun c => (c.slot, value c))
    = (cs.filter fun c => c.key == .text s).filterMap fun c => c.index.map fun i => (i, value c)
  := by
  rw [itemsAt]
  apply filterMap_slots h
  rintro ⟨key, index, fields⟩ t -
  cases index <;> simp [itemOf]

theorem childAt?_map {cs : List Child} (h : ∀ c ∈ cs, ∃ t, c.key = .text t)
    (value : Child → Json) (s : String) :
  childAt? s (cs.map fun c => (c.slot, value c))
    = ((cs.filter fun c => c.key == .text s).filterMap fun c =>
      if c.index.isNone then some (value c) else none).getLast?
  := by
  rw [childAt?]
  congr 1
  apply filterMap_slots h
  rintro ⟨key, index, fields⟩ t -
  cases index <;> simp [childOf]

theorem child_textual (h : Mapping fields) {c : Child} (hc : c ∈ children fields) :
  ∃ t, c.key = .text t
  := by
  obtain ⟨⟨k, v⟩, hf, hv⟩ := List.mem_flatMap.mp (mem_children.mp hc)
  obtain ⟨t, ht⟩ := h.textual _ hf
  use t
  rw [(key_of_mem_valueParts hv).1 c rfl]
  apply ht

theorem key_eq_name (h : Mapping fields) {c : Child} (hc : c ∈ children fields) :
  c.key = .text c.name
  := by
  obtain ⟨t, ht⟩ := child_textual h hc
  simp [Child.name, ht, Key.text?]

/-- The value under the key of the discriminant has no children. -/
theorem valueParts_typeKey (v : Json) : valueParts (.text typeKey) v = [.plain (.text typeKey) v]
  := by
  have hdisc : (Key.text typeKey == .text disconnectedKey) = false := by decide
  cases v <;> simp [valueParts, hdisc, bne]

/-- A child is the asset under its name, or an item of the array of assets under its name. -/
theorem exists_value (h : Mapping fields) {c : Child} (hc : c ∈ children fields) :
  c.name ≠ typeKey ∧ ∃ v, Entries.find? fields (.text c.name) = some v
    ∧ (c.index = none ∧ v = .obj c.fields ∧ valueParts (.text c.name) v = [.child c]
      ∨ ∃ (i : Nat) (ts : List Fields), c.index = some i ∧ c.name ≠ disconnectedKey ∧ v = .arr (ts.map Json.obj)
        ∧ ts[i]? = some c.fields
        ∧ valueParts (.text c.name) v = .record (.text c.name) :: itemParts (.text c.name) 0
          (ts.map Json.obj))
  := by
  obtain ⟨⟨key, v⟩, hf, hv⟩ := List.mem_flatMap.mp (mem_children.mp hc)
  have hkey : c.key = key := (key_of_mem_valueParts hv).1 c rfl
  obtain rfl : key = .text c.name := hkey.symm.trans (key_eq_name h hc)
  constructor
  · intro htype
    rw [htype, valueParts_typeKey, List.mem_singleton] at hv
    cases hv
  · use v, h.find?_eq_some_iff.mpr hf
    rcases valueParts_cases (.text c.name) v with ⟨t, rfl, -, hp⟩ | ⟨items, -, -, hp⟩
      | ⟨items, rfl, hdisc, hkind, hp⟩ | ⟨-, hp⟩
    · left
      rw [hp, List.mem_singleton] at hv
      have hchild := Part.child.inj hv
      rw [hp, ← hchild, hchild]
      exact ⟨rfl, rfl, rfl⟩
    · rw [hp] at hv
      rcases mem_treeParts hv with ⟨i, t, heq⟩ | ⟨i, heq⟩ <;> cases heq
    · right
      obtain ⟨ts, rfl⟩ := exists_objects (Json.isAsset_of_kind hkind).2
      have hmem : c ∈ (valueParts (.text c.name) (.arr (ts.map Json.obj))).filterMap Part.child? :=
        List.mem_filterMap.mpr ⟨.child c, hv, rfl⟩
      rw [hp, List.filterMap_cons_none rfl, itemParts_children] at hmem
      obtain ⟨p, hp', heq⟩ := List.mem_map.mp hmem
      have hindex := congrArg Child.index heq
      have hfields := congrArg Child.fields heq
      use p.2, ts, hindex.symm, by simpa using hdisc, rfl
      constructor
      · rw [← hfields]
        apply List.mk_mem_zipIdx_iff_getElem?.mp hp'
      · apply hp
    · rw [hp, List.mem_singleton] at hv
      cases hv

theorem nodup_slots_valueParts (key : Key) (v : Json) :
  (((valueParts key v).filterMap Part.child?).map Child.slot).Nodup
  := by
  rcases valueParts_cases key v with ⟨t, -, -, hp⟩ | ⟨items, -, -, hp⟩ | ⟨items, rfl, -, hkind, hp⟩
    | ⟨-, hp⟩
  · simp [hp, Part.child?]
  · rw [hp, filterMap_child?_treeParts]
    apply List.nodup_nil
  · obtain ⟨ts, rfl⟩ := exists_objects (Json.isAsset_of_kind hkind).2
    have hslots : (ts.zipIdx.map fun p => (⟨key, some p.2, p.1⟩ : Child)).map Child.slot
        = (ts.zipIdx.map Prod.snd).map fun i => (key.text?.getD "", some i) := by
      rw [List.map_map, List.map_map]
      rfl
    rw [hp, List.filterMap_cons_none rfl, itemParts_children, hslots]
    apply List.Nodup.map
    · intro i j hij
      simpa using hij
    · rw [List.zipIdx_map_snd]
      exact List.nodup_range'
  · have hnil : [Part.plain key v].filterMap Part.child? = [] := rfl
    rw [hp, hnil]
    apply List.nodup_nil

/-- Different children come from different slots. -/
theorem nodup_slots (h : Mapping fields) : ((children fields).map Child.slot).Nodup
  := by
  rw [children, parts, List.filterMap_flatMap, List.map_flatMap, List.nodup_flatMap]
  constructor
  · rintro ⟨key, v⟩ -
    apply nodup_slots_valueParts
  · have hkeys := List.pairwise_map.mp h.distinct
    apply (List.Pairwise.and_mem.mp hkeys).imp
    rintro f f' ⟨hf, hf', hne⟩ slot hslot hslot'
    obtain ⟨c, hc, rfl⟩ := List.mem_map.mp hslot
    obtain ⟨c', hc', heq⟩ := List.mem_map.mp hslot'
    obtain ⟨part, hpart, hchild⟩ := List.mem_filterMap.mp hc
    obtain ⟨part', hpart', hchild'⟩ := List.mem_filterMap.mp hc'
    obtain ⟨t, ht⟩ := h.textual f hf
    obtain ⟨t', ht'⟩ := h.textual f' hf'
    have hkey := ((key_of_mem_valueParts hpart).1 c hchild).trans ht
    have hkey' := ((key_of_mem_valueParts hpart').1 c' hchild').trans ht'
    have hnames := (Prod.mk.inj heq).1
    simp only [Child.name, hkey, hkey', Key.text?, Option.getD_some] at hnames
    simp [ht, ht', hnames] at hne

/-- The values of the items of an array of assets, put back, are the items in order. -/
theorem itemsAt_array (value : Child → Json) (key : Key) (ts : List Fields) :
  inOrder (Entries.ofList (((itemParts key 0 (ts.map Json.obj)).filterMap Part.child?).filterMap
      fun c => c.index.map fun i => (i, value c)))
    = ts.zipIdx.map fun p => value ⟨key, some p.2, p.1⟩
  := by
  have hitems : ((itemParts key 0 (ts.map Json.obj)).filterMap Part.child?).filterMap
      (fun c => c.index.map fun i => (i, value c))
      = ts.zipIdx.map fun p => (p.2, value ⟨key, some p.2, p.1⟩) := by
    rw [itemParts_children, List.filterMap_map, ← List.filterMap_eq_map]
    rfl
  rw [hitems, inOrder_ofList, List.map_map]
  · rfl
  · have hindices : (ts.zipIdx.map Prod.snd).Pairwise (· < ·) := by
      rw [List.zipIdx_map_snd]
      apply List.pairwise_lt_range' 1
    rw [List.pairwise_map] at hindices ⊢
    apply hindices

/-- What stands under a name after the children with the name have been put back: an array of the
items among them, or else the last of the others, or else what stood there. -/
def putBack (value : Child → Json) (own : Option Json) (cs : List Child) : Option Json :=
  if (cs.filterMap fun c => c.index.map fun i => (i, value c)) = [] then
    ((cs.filterMap fun c => if c.index.isNone then some (value c) else none).getLast?).or own
  else
    some (.arr (inOrder (Entries.ofList (cs.filterMap fun c => c.index.map fun i => (i, value c)))))

theorem find?_placed_writes (h : Mapping fields) (value : Child → Json) (own : Fields) (s : String) :
  Entries.find? (placed own (writes value fields)) (.text s)
    = putBack value (Entries.find? own (.text s))
      (((Entries.find? fields (.text s)).map fun v =>
        (valueParts (.text s) v).filterMap Part.child?).getD [])
  := by
  have htextual : ∀ c ∈ children fields, ∃ t, c.key = .text t := fun c hc => child_textual h hc
  rw [find?_placed, writes, itemsAt_map htextual, childAt?_map htextual, children_at h]
  rfl

theorem putBack_nil (value : Child → Json) (own : Option Json) : putBack value own [] = own := rfl

theorem putBack_child (value : Child → Json) (own : Option Json) (key : Key) (t : Fields) :
  putBack value own [⟨key, none, t⟩] = some (value ⟨key, none, t⟩)
  := rfl

/-- The items of an array of assets, put back, are the array of their values. -/
theorem putBack_items (value : Child → Json) (own : Option Json) (key : Key) {ts : List Fields}
    (hne : ts ≠ []) :
  putBack value own ((itemParts key 0 (ts.map Json.obj)).filterMap Part.child?)
    = some (.arr (ts.zipIdx.map fun p => value ⟨key, some p.2, p.1⟩))
  := by
  have hitems : ((itemParts key 0 (ts.map Json.obj)).filterMap Part.child?).filterMap
      (fun c => c.index.map fun i => (i, value c)) ≠ [] := by
    rw [itemParts_children]
    cases ts with
    | nil => exact (hne rfl).elim
    | cons t rest => simp
  rw [putBack, if_neg hitems, itemsAt_array]

/-- The items of an array of assets are children. -/
theorem item_mem_children (h : Mapping fields) {s : String} {items : List Json}
    (hv : Entries.find? fields (.text s) = some (.arr items))
    (hp : valueParts (.text s) (.arr items) = .record (.text s) :: itemParts (.text s) 0 items)
    {i : Nat} {t : Fields} (hi : items[i]? = some (.obj t)) :
  (⟨.text s, some i, t⟩ : Child) ∈ children fields
  := by
  have hchild := child_mem_itemParts (.text s) 0 hi
  rw [Nat.zero_add] at hchild
  apply mem_children.mpr
  apply mem_parts h hv
  rw [hp]
  apply List.mem_cons_of_mem _ hchild

/-- The items of an array of assets, put back, are the array. -/
theorem reordered_itemsAt_array (h : Mapping fields) {s : String} {ts : List Fields}
    (hv : Entries.find? fields (.text s) = some (.arr (ts.map Json.obj)))
    (hp : valueParts (.text s) (.arr (ts.map Json.obj))
      = .record (.text s) :: itemParts (.text s) 0 (ts.map Json.obj))
    {value : Child → Json} (hvalue : ∀ c ∈ children fields, Reordered (value c) (.obj c.fields)) :
  Reordered (.arr (ts.zipIdx.map fun p => value ⟨.text s, some p.2, p.1⟩)) (.arr (ts.map Json.obj))
  := by
  apply Reordered.arr
  rw [← List.zipIdx_map_fst 0 ts, List.map_map, List.zipIdx_map_fst]
  apply List.forall₂_map_left_iff.mpr
  apply List.forall₂_map_right_iff.mpr
  apply List.forall₂_same.mpr
  rintro ⟨t, i⟩ hmem
  apply hvalue
  apply item_mem_children h hv hp
  simp [List.mk_mem_zipIdx_iff_getElem?.mp hmem]

/-- Beside the discriminant an asset has its plain fields of its own. -/
theorem find?_own (type : Json) {s : String} (h : s ≠ typeKey) :
  Entries.find? ((.text typeKey, type) :: plain fields) (.text s)
    = Entries.find? (plain fields) (.text s)
  := by
  simp [Entries.find?, Ne.symm h]

/-- The children of an asset, put back into the slots from which they came, give the fields of
the asset. -/
theorem find?_rebuilt (h : Mapping fields) {type : Json}
    (ht : Entries.find? fields (.text typeKey) = some type)
    (hd : ∀ v, Entries.find? fields (.text disconnectedKey) = some v → ∃ items, v = .arr items)
    {value : Child → Json} (hvalue : ∀ c ∈ children fields, Reordered (value c) (.obj c.fields))
    (s : String) :
  Option.Rel Reordered
    (Entries.find? (placed ((.text typeKey, type) :: plain fields) (writes value fields))
      (.text s))
    (if s = disconnectedKey then none else Entries.find? fields (.text s))
  := by
  rw [find?_placed_writes h]
  cases hv : Entries.find? fields (.text s) with
  | none =>
    have hs : typeKey ≠ s := by
      rintro rfl
      rw [ht] at hv
      cases hv
    rw [Option.map_none, Option.getD_none, putBack_nil, find?_own _ hs.symm, find?_plain h, hv,
      ite_self]
    apply Option.Rel.none
  | some v =>
    rw [Option.map_some, Option.getD_some]
    rcases valueParts_cases (.text s) v with ⟨t, rfl, hkey, hp⟩ | ⟨items, rfl, hkey, hp⟩
      | ⟨items, rfl, hkey, hkind, hp⟩ | ⟨hkey, hp⟩
    · have hdisc : s ≠ disconnectedKey := by
        rintro rfl
        obtain ⟨items, hitems⟩ := hd _ hv
        cases hitems
      have hmem : (⟨.text s, none, t⟩ : Child) ∈ children fields := by
        apply mem_children.mpr
        apply mem_parts h hv
        simp [hp]
      have hchildren : [Part.child ⟨.text s, none, t⟩].filterMap Part.child?
          = [⟨.text s, none, t⟩] := rfl
      rw [hp, hchildren, putBack_child, if_neg hdisc]
      apply Option.Rel.some (hvalue _ hmem)
    · obtain rfl : s = disconnectedKey := by simpa using hkey
      rw [find?_own _ (by decide), find?_plain h, hv, Option.bind_some, hp,
        filterMap_child?_treeParts, filterMap_plain?_treeParts, putBack_nil, if_pos rfl]
      apply Option.Rel.none
    · have hdisc : s ≠ disconnectedKey := by simpa using hkey
      obtain ⟨hne, hassets⟩ := Json.isAsset_of_kind hkind
      obtain ⟨ts, rfl⟩ := exists_objects hassets
      have hts : ts ≠ [] := by simpa using hne
      rw [hp, List.filterMap_cons_none rfl, putBack_items value _ _ hts, if_neg hdisc]
      apply Option.Rel.some
      apply reordered_itemsAt_array h hv hp hvalue
    · have hdisc : s ≠ disconnectedKey := by
        rintro rfl
        obtain ⟨items, rfl⟩ := hd _ hv
        apply hkey _ items rfl
        simp
      have hchildren : [Part.plain (.text s) v].filterMap Part.child? = [] := rfl
      rw [hp, hchildren, putBack_nil, if_neg hdisc]
      by_cases htype : typeKey = s
      · subst htype
        obtain rfl : type = v := Option.some.inj (ht.symm.trans hv)
        apply Option.Rel.some (.refl _)
      · have hself : Entries.find? ([Part.plain (.text s) v].filterMap Part.plain?) (.text s)
            = some v := by
          simp [Part.plain?, Entries.find?, Ne.symm htype]
        rw [find?_own _ (Ne.symm htype), find?_plain h, hv, Option.bind_some, hp, hself]
        apply Option.Rel.some (.refl _)

end Asset

end AssetCanvas
