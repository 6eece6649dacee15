import AssetCanvas.Proofs.Acyclic
import AssetCanvas.Proofs.RoundTrip

/-!
# The ports of children

A layout gives every child of an asset a port, `Asset.portOf`; the input map has the child under
`Asset.entryOf`, and the assembly puts it into the slot `Asset.slotAt`.  Two items of the arrays of
an asset never meet at one port, but a nested asset may have the port of another child.
-/

namespace AssetCanvas

open Json

namespace Asset

variable {parent : Option String} {fields : Fields}

/-- Whether no nested asset has the same image as another child. -/
def Apart {α : Type} (f : Child → α) (fields : Fields) : Prop :=
  ∀ c ∈ children fields, c.index = none → ∀ c' ∈ children fields, f c' = f c → c' = c

/-- Whether no nested asset feeds the port of another child. -/
def Uncontested (parent : Option String) (fields : Fields) : Prop :=
  Apart (portOf parent fields) fields

/-- The name under which the input map of a layout has a child. -/
def entryOf (parent : Option String) (fields : Fields) (c : Child) : String :=
  Port.inputName ((portOf parent fields c).text?.getD "")

/-- Whether no nested asset has the entry of another child in the input map. -/
def Unmasked (parent : Option String) (fields : Fields) : Prop :=
  Apart (entryOf parent fields) fields

/-- If items have images of their own, then all children have exactly if the nested assets have. -/
theorem nodup_map_children_iff {α : Type} (h : Mapping fields) {f : Child → α}
    (hitems : ∀ c ∈ children fields, ∀ c' ∈ children fields, ∀ i i', c.index = some i →
      c'.index = some i' → f c = f c' → c.slot = c'.slot) :
  ((children fields).map f).Nodup ↔ Apart f fields
  := by
  have hslots := nodup_slots h
  rw [List.nodup_map_iff_inj_on (List.Nodup.of_map _ hslots)]
  constructor
  · intro hinj c hc _ c' hc' heq
    apply hinj c' hc' c hc heq
  · intro hapart c hc c' hc' heq
    cases hi : c.index with
    | none => exact (hapart c hc hi c' hc' heq.symm).symm
    | some i =>
      cases hi' : c'.index with
      | none => exact hapart c' hc' hi' c hc heq
      | some i' =>
        apply List.inj_on_of_nodup_map hslots hc hc'
        apply hitems c hc c' hc' i i' hi hi' heq

/-- Different items feed different ports. -/
theorem slot_eq_of_portOf_eq (h : Mapping fields) {c c' : Child} (hc : c ∈ children fields)
    (hc' : c' ∈ children fields) {i i' : Nat} (hi : c.index = some i) (hi' : c'.index = some i')
    (hport : portOf parent fields c = portOf parent fields c') :
  c.slot = c'.slot
  := by
  rw [portOf_item h hc hi, portOf_item h hc' hi'] at hport
  obtain ⟨hname, hindex⟩ := Slot.current_itemPort_inj (Json.str.inj hport)
  rw [Child.slot, Child.slot, hi, hi', hname, hindex]

theorem nodup_ports_iff (h : Mapping fields) :
  ((children fields).map (portOf parent fields)).Nodup ↔ Uncontested parent fields
  := by
  apply nodup_map_children_iff h
  intro c hc c' hc' i i' hi hi' hport
  apply slot_eq_of_portOf_eq h hc hc' hi hi' hport

/-- The input map has an item under its port. -/
theorem entryOf_item (h : Mapping fields) {c : Child} (hc : c ∈ children fields) {i : Nat}
    (hi : c.index = some i) :
  portOf parent fields c = .str (entryOf parent fields c)
  := by
  have hne : Migration.current (classify fields parent).label
      (Slot.itemPort (classify fields parent).assetType (.text c.name) i
        (classify fields parent).label) ≠ "" := by
    apply Migration.current_ne_empty
    apply Slot.itemPort_ne_empty
  rw [entryOf, portOf_item h hc hi, Json.text?, Option.getD_some, Port.inputName, if_neg hne]

theorem nodup_entries_iff (h : Mapping fields) :
  ((children fields).map (entryOf parent fields)).Nodup ↔ Unmasked parent fields
  := by
  apply nodup_map_children_iff h
  intro c hc c' hc' i i' hi hi' hentry
  have hport : portOf parent fields c = portOf parent fields c' := by
    rw [entryOf_item h hc hi, entryOf_item h hc' hi', hentry]
  apply slot_eq_of_portOf_eq h hc hc' hi hi' hport

/-- Children feed ports with current names. -/
theorem exists_portOf (parent : Option String) (h : Mapping fields) {c : Child}
    (hc : c ∈ children fields) :
  ∃ name, portOf parent fields c = .str (Migration.current (classify fields parent).label name)
  := by
  cases hi : c.index with
  | none => exact ⟨_, portOf_nested h hc hi⟩
  | some i => exact ⟨_, portOf_item h hc hi⟩

theorem replacement?_entryOf (h : Mapping fields) {c : Child} (hc : c ∈ children fields) :
  Migration.replacement? (classify fields parent).label (.text (entryOf parent fields c)) = none
  := by
  obtain ⟨name, hport⟩ := exists_portOf parent h hc
  rw [entryOf, hport, Json.text?, Option.getD_some, Port.inputName]
  split
  · have hdefault : ∀ rename ∈ Migration.pairRenames, rename.1 ≠ Port.default := by decide
    cases hr : Migration.replacement? (classify fields parent).label (.text Port.default) with
    | none => rfl
    | some current => exact (hdefault _ (Migration.mem_pairRenames hr) rfl).elim
  · apply Migration.replacement?_current

/-- The slot of a child on the node of an asset. -/
def slotAt (parent : Option String) (fields : Fields) (c : Child) :
    Except Fault (String × Option Nat) :=
  (content parent fields).slot (portOf parent fields c)

/-- Whether the children of an asset are told apart by the slots of their ports, none of them a
field with items. -/
structure Separate (parent : Option String) (fields : Fields) : Prop where
  readable : ∀ c ∈ children fields, ∃ slot, slotAt parent fields c = .ok slot
  apart : ((children fields).map (slotAt parent fields)).Nodup
  field : ∀ c ∈ children fields, ∀ field, slotAt parent fields c = .ok (field, none) →
    ∀ c' ∈ children fields, ∀ index, slotAt parent fields c' ≠ .ok (field, some index)

end Asset

end AssetCanvas
