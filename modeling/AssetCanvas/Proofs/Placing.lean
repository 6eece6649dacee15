import AssetCanvas.Assembly
import AssetCanvas.Proofs.Reordering
import Mathlib.Data.List.Induction

/-!
# Placing children

The assembly of an asset puts children into slots, one after the other.  `Assembly.placed` is
the outcome for a list of slots with children, and `find?_placed` its law: under a field stands
the array of the items put there, in the order of their indices, or else the child put there
last, or else what the asset has of its own.
-/

namespace AssetCanvas.Assembly

/-- A slot with the child that is put there. -/
abbrev Write := (String × Option Nat) × Json

/-- The parts of an asset after some more children are put into their slots. -/
def Parts.putAll (parts : Parts) (writes : List Write) : Parts :=
  writes.foldl (fun parts w => parts.put w.1 w.2) parts

/-- The fields of an asset after some children are put into their slots. -/
def placed (own : Fields) (writes : List Write) : Fields :=
  (Parts.putAll ⟨own, []⟩ writes).toFields

/-- The item that a write puts into the array of a field. -/
def itemOf (field : String) (w : Write) : Option (Nat × Json) :=
  match w with
  | ((field', some index), child) => if field' = field then some (index, child) else none
  | _ => none

/-- The child that a write puts into a field. -/
def childOf (field : String) (w : Write) : Option Json :=
  match w with
  | ((field', none), child) => if field' = field then some child else none
  | _ => none

/-- The items that are put into the array of a field, with their indices. -/
def itemsAt (field : String) (writes : List Write) : List (Nat × Json) :=
  writes.filterMap (itemOf field)

/-- The child that is put into a field last. -/
def childAt? (field : String) (writes : List Write) : Option Json :=
  (writes.filterMap (childOf field)).getLast?

theorem mem_itemsAt_iff {field : String} {index : Nat} {v : Json} {writes : List Write} :
  (index, v) ∈ itemsAt field writes ↔ ((field, some index), v) ∈ writes
  := by
  rw [itemsAt, List.mem_filterMap]
  constructor
  · rintro ⟨⟨⟨field', index'⟩, v'⟩, hw, hitem⟩
    cases index' <;> simp [itemOf] at hitem
    obtain ⟨rfl, rfl, rfl⟩ := hitem
    exact hw
  · intro hw
    exact ⟨_, hw, by simp [itemOf]⟩

theorem itemsAt_eq_nil_iff {field : String} {writes : List Write} :
  itemsAt field writes = [] ↔ ∀ w ∈ writes, ∀ index, w.1 ≠ (field, some index)
  := by
  rw [itemsAt, List.filterMap_eq_nil_iff]
  apply forall₂_congr
  rintro ⟨⟨field', index⟩, child⟩ -
  cases index <;> simp [itemOf]

/-! ### Putting -/

theorem find?_fields_put (parts : Parts) (w : Write) (field : String) :
  Entries.find? (parts.put w.1 w.2).fields (.text field)
    = (childOf field w).or (Entries.find? parts.fields (.text field))
  := by
  obtain ⟨⟨field', index⟩, child⟩ := w
  cases index with
  | none =>
    simp only [Parts.put, childOf, Entries.find?_insert, Key.text_beq_text]
    by_cases h : field' = field <;> simp [h]
  | some index => rfl

theorem find?_items_put (parts : Parts) (w : Write) (field : String) :
  Entries.find? (parts.put w.1 w.2).items field
    = match itemOf field w with
      | some (index, child) =>
        some (Entries.insert ((Entries.find? parts.items field).getD []) index child)
      | none => Entries.find? parts.items field
  := by
  obtain ⟨⟨field', index⟩, child⟩ := w
  cases index with
  | none => rfl
  | some index =>
    simp only [Parts.put, itemOf, Entries.find?_insert]
    by_cases h : field' = field
    · subst h
      simp
    · simp [h]

theorem distinct_items_put {parts : Parts} (h : Entries.Distinct parts.items) (w : Write) :
  Entries.Distinct (parts.put w.1 w.2).items
  := by
  obtain ⟨⟨field, index⟩, child⟩ := w
  cases index with
  | none => apply h
  | some index => apply h.insert

theorem mapping_put {parts : Parts} (h : Json.Mapping parts.fields) (w : Write) :
  Json.Mapping (parts.put w.1 w.2).fields
  := by
  obtain ⟨⟨field, index⟩, child⟩ := w
  cases index with
  | none => apply h.insert
  | some index => apply h

/-- The parts of an asset after some children are put into their slots. -/
structure Reached (own : Fields) (writes : List Write) (parts : Parts) : Prop where
  fields : ∀ field, Entries.find? parts.fields (.text field)
    = (childAt? field writes).or (Entries.find? own (.text field))
  items : ∀ field, Entries.find? parts.items field
    = if itemsAt field writes = [] then none else some (Entries.ofList (itemsAt field writes))
  distinct : Entries.Distinct parts.items
  mapping : Json.Mapping own → Json.Mapping parts.fields

theorem reached_putAll (own : Fields) (writes : List Write) :
  Reached own writes (Parts.putAll ⟨own, []⟩ writes)
  := by
  induction writes using List.reverseRecOn with
  | nil =>
    constructor
    · intro field
      rfl
    · intro field
      rfl
    · apply List.Pairwise.nil
    · exact id
  | append_singleton before w ih =>
    rw [Parts.putAll, List.foldl_append, List.foldl_cons, List.foldl_nil, ← Parts.putAll]
    constructor
    · intro field
      rw [find?_fields_put, ih.fields, childAt?, childAt?, List.filterMap_append]
      cases h : childOf field w <;> simp [h]
    · intro field
      rw [find?_items_put, ih.items, itemsAt, itemsAt, List.filterMap_append]
      cases h : itemOf field w with
      | none => rw [List.filterMap_cons_none h, List.filterMap_nil, List.append_nil]
      | some item =>
        by_cases hb : before.filterMap (itemOf field) = []
        · simp [List.filterMap_cons_some h, hb, Entries.ofList]
        · simp [List.filterMap_cons_some h, hb, Entries.ofList]
    · apply distinct_items_put ih.distinct
    · intro hown
      apply mapping_put (ih.mapping hown)

/-! ### The outcome -/

/-- The arrays of an asset as fields. -/
theorem toFields_eq (parts : Parts) :
  parts.toFields
    = (parts.items.map fun entry => (Key.text entry.1, Json.arr (inOrder entry.2))).foldl
        (fun fields entry => Entries.insert fields entry.1 entry.2) parts.fields
  := by
  rw [Parts.toFields, List.foldl_map]

theorem find?_map_text {ν μ : Type} (f : ν → μ) (m : List (String × ν)) (field : String) :
  Entries.find? (m.map fun entry => (Key.text entry.1, f entry.2)) (.text field)
    = (Entries.find? m field).map f
  := by
  induction m with
  | nil => rfl
  | cons entry rest ih =>
    by_cases h : entry.1 = field
    · simp [Entries.find?, h]
    · simp [Entries.find?, h, ih]

theorem find?_toFields {parts : Parts} (h : Entries.Distinct parts.items) (field : String) :
  Entries.find? parts.toFields (.text field)
    = ((Entries.find? parts.items field).map fun items => .arr (inOrder items)).or
        (Entries.find? parts.fields (.text field))
  := by
  have hmap := find?_map_text (fun items : List (Nat × Json) => Json.arr (inOrder items))
    parts.items.reverse field
  rw [toFields_eq, Entries.find?_foldl_insert, ← List.map_reverse, hmap, h.find?_reverse]

/-- Under a field stands the array of the items put there, in the order of their indices, or else
the child put there last, or else what the asset has of its own. -/
theorem find?_placed (own : Fields) (writes : List Write) (field : String) :
  Entries.find? (placed own writes) (.text field)
    = if itemsAt field writes = [] then
        (childAt? field writes).or (Entries.find? own (.text field))
      else some (.arr (inOrder (Entries.ofList (itemsAt field writes))))
  := by
  have h := reached_putAll own writes
  rw [placed, find?_toFields h.distinct, h.items, h.fields]
  by_cases hitems : itemsAt field writes = []
  · simp [hitems]
  · simp [hitems]

/-- Under a field where nothing is put stands what the asset has of its own. -/
theorem find?_placed_of_forall (own : Fields) {writes : List Write} {field : String}
    (h : ∀ w ∈ writes, w.1.1 ≠ field) :
  Entries.find? (placed own writes) (.text field) = Entries.find? own (.text field)
  := by
  have hitems : itemsAt field writes = [] :=
    itemsAt_eq_nil_iff.mpr fun w hw index heq => h w hw (congrArg Prod.fst heq)
  have hchildren : writes.filterMap (childOf field) = [] := by
    rw [List.filterMap_eq_nil_iff]
    rintro ⟨⟨field', index⟩, child⟩ hmem
    cases index <;> simp [childOf, h _ hmem]
  rw [find?_placed, if_pos hitems, childAt?, hchildren]
  rfl

theorem mapping_placed {own : Fields} (hown : Json.Mapping own) (writes : List Write) :
  Json.Mapping (placed own writes)
  := by
  have h := reached_putAll own writes
  rw [placed, toFields_eq]
  generalize Parts.putAll ⟨own, []⟩ writes = parts at h
  have hfields := h.mapping hown
  generalize parts.fields = fields at hfields
  induction parts.items generalizing fields with
  | nil => apply hfields
  | cons entry rest ih =>
    apply ih
    apply hfields.insert

/-! ### Single slots -/

/-- The child in a slot of the parts of an asset: what stands under the field, or the item with
the index. -/
def Parts.child? (parts : Parts) : String × Option Nat → Option Json
  | (field, none) => Entries.find? parts.toFields (.text field)
  | (field, some index) =>
    (Entries.find? parts.items field).bind fun items => Entries.find? items index

/-- The child that is put into a slot last. -/
def lastIn? (slot : String × Option Nat) (writes : List Write) : Option Json :=
  ((writes.filter fun w => w.1 = slot).getLast?).map Prod.snd

theorem lastIn?_append_singleton (slot : String × Option Nat) (before : List Write) (w : Write) :
  lastIn? slot (before ++ [w]) = if w.1 = slot then some w.2 else lastIn? slot before
  := by
  by_cases h : w.1 = slot <;> simp [lastIn?, List.filter_append, h]

theorem childAt?_eq (field : String) (writes : List Write) :
  childAt? field writes = lastIn? (field, none) writes
  := by
  induction writes using List.reverseRecOn with
  | nil => rfl
  | append_singleton before w ih =>
    rw [lastIn?_append_singleton, ← ih, childAt?, childAt?, List.filterMap_append]
    obtain ⟨⟨field', index⟩, child⟩ := w
    cases index with
    | none => by_cases h : field' = field <;> simp [childOf, h]
    | some index => simp [childOf]

theorem lastIn?_eq_none_iff {slot : String × Option Nat} {writes : List Write} :
  lastIn? slot writes = none ↔ ∀ w ∈ writes, w.1 ≠ slot
  := by
  simp [lastIn?]

theorem mem_of_lastIn? {slot : String × Option Nat} {writes : List Write} {child : Json}
    (h : lastIn? slot writes = some child) :
  (slot, child) ∈ writes
  := by
  obtain ⟨w, hw, rfl⟩ := Option.map_eq_some_iff.mp h
  obtain ⟨hmem, hslot⟩ := List.mem_filter.mp (List.mem_of_getLast? hw)
  rw [← of_decide_eq_true hslot]
  exact hmem

/-- Under a field where something is put stands an array of items, or else a child that is put
there. -/
theorem find?_placed_of_mem (own : Fields) {writes : List Write} {w : Write} (hw : w ∈ writes) :
  (∃ items, Entries.find? (placed own writes) (.text w.1.1) = some (.arr items))
    ∨ ∃ child, ((w.1.1, none), child) ∈ writes
      ∧ Entries.find? (placed own writes) (.text w.1.1) = some child
  := by
  rw [find?_placed]
  by_cases hitems : itemsAt w.1.1 writes = []
  · right
    rw [if_pos hitems, childAt?_eq]
    cases hlast : lastIn? (w.1.1, none) writes with
    | some child => exact ⟨child, mem_of_lastIn? hlast, rfl⟩
    | none =>
      obtain ⟨⟨field, index⟩, child⟩ := w
      cases index with
      | none => exact (lastIn?_eq_none_iff.mp hlast _ hw rfl).elim
      | some index => exact (itemsAt_eq_nil_iff.mp hitems _ hw index rfl).elim
  · left
    rw [if_neg hitems]
    exact ⟨_, rfl⟩

theorem find?_ofList_itemsAt (field : String) (index : Nat) (writes : List Write) :
  Entries.find? (Entries.ofList (itemsAt field writes)) index = lastIn? (field, some index) writes
  := by
  rw [Entries.find?_ofList]
  induction writes using List.reverseRecOn with
  | nil => rfl
  | append_singleton before w ih =>
    rw [lastIn?_append_singleton, ← ih, itemsAt, itemsAt, List.filterMap_append]
    obtain ⟨⟨field', index'⟩, child⟩ := w
    cases index' with
    | none =>
      rw [List.filterMap_cons_none rfl, List.filterMap_nil, List.append_nil]
      simp
    | some index' =>
      by_cases hfield : field' = field <;> by_cases hindex : index' = index <;>
        simp [itemOf, Entries.find?, hfield, hindex]

/-- The item with an index is the child put there last. -/
theorem child?_putAll_item (own : Fields) (writes : List Write) (field : String) (index : Nat) :
  (Parts.putAll ⟨own, []⟩ writes).child? (field, some index) = lastIn? (field, some index) writes
  := by
  rw [Parts.child?, (reached_putAll own writes).items, ← find?_ofList_itemsAt]
  by_cases hitems : itemsAt field writes = []
  · simp [hitems, Entries.ofList, Entries.find?]
  · simp [hitems]

/-- Under a field stands the child put there last, unless items were put into the field. -/
theorem child?_putAll_field (own : Fields) (writes : List Write) (field : String) :
  (Parts.putAll ⟨own, []⟩ writes).child? (field, none)
    = if itemsAt field writes = [] then
        (lastIn? (field, none) writes).or (Entries.find? own (.text field))
      else some (.arr (inOrder (Entries.ofList (itemsAt field writes))))
  := by
  rw [← childAt?_eq]
  apply find?_placed

/-- A slot holds the object that is put there last, unless the slot is a field and items are put
into it as well. -/
theorem child?_putAll_iff {own : Fields} {writes : List Write} {slot : String × Option Nat}
    {last : Fields} (h : lastIn? slot writes = some (.obj last)) (fields : Fields) :
  (Parts.putAll ⟨own, []⟩ writes).child? slot = some (.obj fields)
    ↔ last = fields ∧ (slot.2 = none → ∀ w ∈ writes, ∀ index, w.1 ≠ (slot.1, some index))
  := by
  obtain ⟨field, index⟩ := slot
  cases index with
  | some index => simp [child?_putAll_item, h]
  | none =>
    rw [child?_putAll_field, h, forall_prop_of_true rfl, ← itemsAt_eq_nil_iff]
    by_cases hnil : itemsAt field writes = []
    · simp [hnil]
    · simp [hnil]

/-! ### Order -/

theorem inOrder_ofList_ne_nil {items : List (Nat × Json)} (h : items ≠ []) :
  inOrder (Entries.ofList items) ≠ []
  := by
  obtain ⟨item, hmem⟩ := List.exists_mem_of_ne_nil items h
  intro hnil
  have hempty : Entries.ofList items = [] := by
    have hlength := congrArg List.length hnil
    rw [inOrder, List.length_map, List.length_mergeSort] at hlength
    apply List.length_eq_zero_iff.mp hlength
  have hfind := Entries.find?_ofList items item.1
  rw [hempty] at hfind
  have hnone := Entries.find?_eq_none_iff.mp hfind.symm item (List.mem_reverse.mpr hmem)
  simp at hnone

/-- Items with increasing indices stay in order. -/
theorem inOrder_ofList {items : List (Nat × Json)} (h : items.Pairwise fun a b => a.1 < b.1) :
  inOrder (Entries.ofList items) = items.map Prod.snd
  := by
  have hdistinct : Entries.Distinct items := by
    rw [Entries.Distinct, Entries.keys, List.pairwise_map]
    apply h.imp
    intro a b hab
    simp
    omega
  rw [hdistinct.ofList_eq, inOrder, List.mergeSort_of_pairwise]
  apply h.imp
  intro a b hab
  simp
  omega

end AssetCanvas.Assembly
