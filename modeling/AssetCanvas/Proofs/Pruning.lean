import AssetCanvas.Proofs.Children
import AssetCanvas.Proofs.Composition

/-!
# Assets without some of their children

An asset that comes back from its layout as it was, `Asset.Returns`, is told apart by its slots:
every child is read back into the slot from which it comes, `Asset.Returns.slot_eq`.  So the asset
without some of its children, `Asset.Pruned`, is what is put together from an outline without them.
-/

namespace AssetCanvas

open Json Assembly

namespace Asset

variable {parent : Option String} {fields : Fields}

/-- The assets in an asset are assets. -/
theorem isAsset_of_mem_children (h : Mapping fields) {c : Child} (hc : c ∈ children fields) :
  (Json.obj c.fields).isAsset = true
  := by
  obtain ⟨-, v, -, ⟨-, rfl, hparts⟩ | ⟨i, ts, -, hdisc, rfl, hitem, hparts⟩⟩ := exists_value h hc
  · by_contra hplain
    replace hplain : Entries.contains c.fields (.text typeKey) ≠ true := hplain
    simp [valueParts, hplain] at hparts
  · rcases valueParts_cases (.text c.name) (.arr (ts.map Json.obj)) with ⟨t, heq, -⟩
      | ⟨items, -, heq, -⟩ | ⟨items, -, -, hkind, -⟩ | ⟨-, hp⟩
    · cases heq
    · exact (hdisc (by simpa using heq)).elim
    · apply (Json.isAsset_of_kind hkind).2
      apply List.mem_map_of_mem
      apply List.mem_of_getElem? hitem
    · rw [hp] at hparts
      cases hparts

/-! ### Composing the children of an asset -/

/-- Some children of an asset are orderly in their slots. -/
theorem orderly_slots {κ : Type} (child : κ → Child) (h : Mapping fields) {ks : List κ}
    {value : κ → Json} (hsub : (ks.map child).Sublist (children fields))
    (hassets : ∀ k ∈ ks, (value k).isAsset = true) :
  Orderly fields (ks.map fun k => ((child k).slot, value k))
  := by
  have hmem : ∀ k ∈ ks, child k ∈ children fields :=
    fun k hk => hsub.subset (List.mem_map_of_mem hk)
  constructor
  · exact List.forall_mem_map.mpr hassets
  · rw [List.map_map]
    have hslots := (hsub.map Child.slot).nodup (nodup_slots h)
    rwa [List.map_map] at hslots
  · -- what stands under a name is a child or an array, not both
    rw [List.forall_mem_map]
    intro k hk hi
    rw [List.forall_mem_map]
    intro k' hk' i heq
    obtain ⟨hname, hindex⟩ := Prod.mk.inj heq
    obtain ⟨-, v, hv, ⟨-, rfl, -⟩ | ⟨j, ts, hj, -⟩⟩ := exists_value h (hmem k hk)
    · obtain ⟨-, v', hv', ⟨hi', -⟩ | ⟨j, ts, -, -, rfl, -⟩⟩ := exists_value h (hmem k' hk')
      · replace hindex : (child k').index = some i := hindex
        rw [hi'] at hindex
        cases hindex
      · replace hname : (child k').name = (child k).name := hname
        rw [hname, hv] at hv'
        cases hv'
    · replace hi : (child k).index = none := hi
      rw [hi] at hj
      cases hj
  · rw [List.forall_mem_map]
    intro k hk
    apply find?_plain_of_child h (hmem k hk)
  · rw [List.forall_mem_map]
    intro k hk
    apply (exists_value h (hmem k hk)).1
  · rw [List.forall_mem_map]
    intro k hk hi
    obtain ⟨-, v, -, ⟨hnone, -⟩ | ⟨j, ts, -, hdisc, -⟩⟩ := exists_value h (hmem k hk)
    · replace hi : (child k).index.isSome = true := hi
      rw [hnone] at hi
      cases hi
    · apply hdisc

/-! ### Assets that return -/

/-- An asset that is put together from its outline as it was, save for a list of disconnected
trees. -/
structure Returns (parent : Option String) (fields : Fields) : Prop where
  typed : Entries.contains fields (.text typeKey) = true
  again : ∃ fields', (outline parent fields).toAsset = .ok (some (.obj fields'))
    ∧ ∀ s v, Entries.find? fields (.text s) = some v →
      (s = disconnectedKey → ∀ items, v ≠ .arr items) →
        ∃ w, Entries.find? fields' (.text s) = some w ∧ w.Reordered v

theorem exists_asset_outline {found : Option Json} (h : (outline parent fields).toAsset = .ok found) :
  ∃ v, found = some v
  := by
  rw [outline_eq, Outline.toAsset] at h
  obtain ⟨discriminant, -, h⟩ := Fault.bind_eq_ok_iff.mp h
  obtain ⟨own, -, h⟩ := Fault.bind_eq_ok_iff.mp h
  obtain ⟨after, -, h⟩ := Fault.bind_eq_ok_iff.mp h
  exact ⟨_, (Except.ok.inj h).symm⟩

/-- What is put together from the outline of an asset is composed of its children. -/
theorem exists_writes {v : Json} (h : (outline parent fields).toAsset = .ok (some v)) :
  ∃ writes, v = .obj (composed fields writes)
    ∧ (∀ w ∈ writes, ∃ c ∈ children fields,
      (outline c.key.text? c.fields).toAsset = .ok (some w.2)
        ∧ slotOf (content parent fields) (shownType fields) (portOf parent fields c) = .ok w.1)
    ∧ ∀ c ∈ children fields, ∃ w : Write,
      (outline c.key.text? c.fields).toAsset = .ok (some w.2)
        ∧ slotOf (content parent fields) (shownType fields) (portOf parent fields c) = .ok w.1
  := by
  rw [outline_eq, Outline.toAsset] at h
  simp only [discriminant_content, ownFields_content (isNull_shownType fields), Fault.ok_bind] at h
  obtain ⟨after, hafter, h⟩ := Fault.bind_eq_ok_iff.mp h
  obtain rfl := Option.some.inj (Except.ok.inj h)
  obtain ⟨writes, rfl, hwrites⟩ := Outline.exists_writes hafter
  refine ⟨writes, rfl, ?_, ?_⟩
  · intro w hw
    obtain ⟨input, hinput, hw⟩ := (hwrites w).mp hw
    obtain ⟨c, hc, rfl⟩ := List.mem_map.mp hinput
    use c, hc
  · intro c hc
    have hall := (Outline.exists_putInputs_iff _ _ _).mp ⟨_, hafter⟩
    obtain ⟨found, hfound, hslot⟩ := List.forall_mem_map.mp hall c hc
    obtain ⟨v, rfl⟩ := exists_asset_outline hfound
    obtain ⟨slot, hslot⟩ := hslot rfl
    exact ⟨(slot, v), hfound, hslot⟩

/-- The port of a child is current, and is read as it stands. -/
theorem exists_current_portOf (h : Mapping fields) {c : Child} (hc : c ∈ children fields)
    {slot : String × Option Nat}
    (hslot : slotOf (content parent fields) (shownType fields) (portOf parent fields c) = .ok slot) :
  ∃ port, portOf parent fields c = .str port
    ∧ Migration.current (classify fields parent).label port = port
    ∧ Slot.ofCurrent (shownType fields) port (.str (classify fields parent).label)
      (content parent fields).arrayFields = .ok slot
  := by
  obtain ⟨name, hport⟩ := exists_portOf parent h hc
  use Migration.current (classify fields parent).label name, hport,
    Migration.current_current _ _
  rw [slotOf, hport] at hslot
  have hof := (Slot.ofPort_str _ _ _ _).symm.trans hslot
  rwa [Migration.current_current] at hof

namespace Returns

/-- A nested asset that comes back comes back in its own slot. -/
theorem slot_nested (hr : Returns parent fields) (h : Mapping fields) {c : Child}
    (hc : c ∈ children fields) (hi : c.index = none) :
  slotOf (content parent fields) (shownType fields) (portOf parent fields c) = .ok c.slot
  := by
  obtain ⟨fields', hasset, hagain⟩ := hr.again
  obtain ⟨writes, heq, hwrites, -⟩ := exists_writes hasset
  obtain rfl := Json.obj.inj heq
  obtain ⟨htype, v, hv, ⟨-, rfl, -⟩ | ⟨i, ts, hi', -⟩⟩ := exists_value h hc
  · obtain ⟨u, hu, hreordered⟩ := hagain c.name _ hv fun _ _ => by simp
    obtain ⟨-, t, rfl, -⟩ := hreordered.symm.obj_inv rfl
    rcases find?_composed_cases hu with ⟨items, heq, -⟩ | ⟨w, hw, hslot, -⟩ | hown
    · cases heq
    · -- the child that is read into the field feeds the same port
      obtain ⟨c', hc', -, hslot'⟩ := hwrites w hw
      rw [hslot] at hslot'
      obtain ⟨port, hport, hcurrent, hof⟩ := exists_current_portOf h hc' hslot'
      rcases Slot.ofCurrent_cases hof with ⟨rfl, -⟩ | ⟨-, hindex⟩
      · rw [portOf_nested h hc hi, hcurrent, ← hport, hslot', Child.slot, hi]
      · cases hindex
    · rw [find?_own _ htype, find?_plain_of_child h hc] at hown
      cases hown
  · rw [hi] at hi'
    cases hi'

/-- An item that comes back comes back in its own slot. -/
theorem slot_item (hr : Returns parent fields) (h : Mapping fields) {c : Child}
    (hc : c ∈ children fields) {i : Nat} (hi : c.index = some i) :
  slotOf (content parent fields) (shownType fields) (portOf parent fields c) = .ok c.slot
  := by
  obtain ⟨fields', hasset, hagain⟩ := hr.again
  obtain ⟨writes, heq, hwrites, hslots⟩ := exists_writes hasset
  obtain rfl := Json.obj.inj heq
  obtain ⟨htype, v, hv, ⟨hi', -⟩ | ⟨i', ts, -, hdisc, rfl, -⟩⟩ := exists_value h hc
  · rw [hi] at hi'
    cases hi'
  · obtain ⟨u, hu, hreordered⟩ := hagain c.name _ hv fun heq => (hdisc heq).elim
    obtain ⟨us, rfl, -⟩ := hreordered.symm.arr_inv rfl
    rcases find?_composed_cases hu with ⟨items, -, hne, hitems⟩ | ⟨w, hw, -, heq⟩ | hown
    · -- the field of the array is the field of a port that is read
      obtain ⟨u, hu⟩ := List.exists_mem_of_ne_nil items hne
      obtain ⟨k, hk⟩ := List.mem_iff_getElem?.mp hu
      obtain ⟨w, hw, index, hslot, -⟩ := hitems k u hk
      obtain ⟨c', hc', -, hslot'⟩ := hwrites w hw
      rw [hslot] at hslot'
      obtain ⟨port, -, -, hof⟩ := exists_current_portOf h hc' hslot'
      have hname : c.name ≠ "" ∧ '\n' ∉ c.name.toList := by
        rcases Slot.ofCurrent_cases hof with ⟨-, hnone, -⟩ | ⟨hname, -⟩
        · cases hnone
        · apply hname
      obtain ⟨w', -, hslot''⟩ := hslots c hc
      have hport : portOf parent fields c = .str (Migration.current (classify fields parent).label
          (Slot.itemPort (shownType fields) (.text c.name) i (classify fields parent).label)) := by
        rw [portOf_item h hc hi, Slot.itemPort, Slot.itemPort, names_shownType, assetType_classify]
      rw [hport] at hslot'' ⊢
      have hbound := Slot.lt_of_ofPort_itemPort hname.1 hname.2 hslot''
      rw [Child.slot, hi]
      apply Slot.ofPort_itemPort hname.1 hname.2 hbound
      right
      rw [content, Slot.contains_keys, Except.ok.injEq, Key.contains_text_iff, ← key_eq_name h hc]
      apply (index_of_child hc hi).1
    · obtain ⟨c', -, hvalue, -⟩ := hwrites w hw
      obtain ⟨t, ht⟩ := Outline.exists_obj hvalue
      rw [ht] at heq
      cases heq
    · rw [find?_own _ htype, find?_plain_of_child h hc] at hown
      cases hown

/-- Every child is read back into the slot from which it comes. -/
theorem slot_eq (hr : Returns parent fields) (h : Mapping fields) {c : Child}
    (hc : c ∈ children fields) :
  slotOf (content parent fields) (shownType fields) (portOf parent fields c) = .ok c.slot
  := by
  cases hi : c.index with
  | none => apply hr.slot_nested h hc hi
  | some i => apply hr.slot_item h hc hi

/-- An asset that comes back has a discriminant. -/
theorem isNull_type (hr : Returns parent fields) (h : Mapping fields) :
  (Json.field fields typeKey).isNull = false
  := by
  obtain ⟨fields', hasset, hagain⟩ := hr.again
  obtain ⟨writes, heq, hwrites, -⟩ := exists_writes hasset
  obtain rfl := Json.obj.inj heq
  have huntyped : ∀ w ∈ writes, w.1.1 ≠ typeKey := by
    intro w hw
    obtain ⟨c, hc, -, hslot⟩ := hwrites w hw
    rw [← Except.ok.inj ((hr.slot_eq h hc).symm.trans hslot)]
    apply (exists_value h hc).1
  obtain ⟨v, hv⟩ := Option.isSome_iff_exists.mp hr.typed
  obtain ⟨u, hu, hreordered⟩ := hagain typeKey v hv fun heq => absurd heq (by decide)
  rw [find?_composed_of_forall huntyped, Entries.find?, if_pos (beq_self_eq_true _),
    Option.some.injEq] at hu
  rw [Json.field, hv, Option.getD_some]
  cases v with
  | null =>
    -- a missing discriminant comes back as a text
    have hunknown : shownType fields = .str "unknown" := by
      rw [shownType, Json.field, hv]
      rfl
    rw [← hu, hunknown] at hreordered
    have hnull := hreordered.eq_of_key? rfl
    cases hnull
  | _ => rfl

/-- An asset that comes back is composed of what comes back of its children. -/
theorem toAsset_eq (hr : Returns parent fields) (h : Mapping fields) :
  (outline parent fields).toAsset
      = .ok (some (.obj (composed fields (writes (fun c => raised c.key.text? c.fields) fields))))
    ∧ ∀ c ∈ children fields,
      (outline c.key.text? c.fields).toAsset = .ok (some (raised c.key.text? c.fields))
  := by
  obtain ⟨fields', hasset, -⟩ := hr.again
  obtain ⟨-, -, -, hslots⟩ := exists_writes hasset
  have hvalue : ∀ c ∈ children fields,
      (outline c.key.text? c.fields).toAsset = .ok (some (raised c.key.text? c.fields)) := by
    intro c hc
    obtain ⟨w, hvalue, -⟩ := hslots c hc
    rw [raised_eq hvalue, hvalue]
  use toAsset_outline (discriminant_content parent fields) (isNull_shownType fields)
    (fun c hc => hr.slot_eq h hc) hvalue

/-- What comes back of a child is the child. -/
theorem reordered_raised (hr : Returns parent fields) (h : Mapping fields) {c : Child}
    (hc : c ∈ children fields) :
  (raised c.key.text? c.fields).Reordered (.obj c.fields)
  := by
  obtain ⟨hasset, hvalue⟩ := hr.toAsset_eq h
  obtain ⟨fields', hasset', hagain⟩ := hr.again
  obtain rfl := Json.obj.inj (Option.some.inj (Except.ok.inj (hasset'.symm.trans hasset)))
  have ho : Orderly fields (writes (fun c => raised c.key.text? c.fields) fields) := by
    apply orderly_slots id h (by simp)
    intro c hc
    obtain ⟨ws, heq, -⟩ := exists_writes (hvalue c hc)
    rw [heq]
    apply isAsset_composed
  have hwrite : ∀ c ∈ children fields, (c.slot, raised c.key.text? c.fields)
      ∈ writes (fun c => raised c.key.text? c.fields) fields := fun c hc => List.mem_map_of_mem hc
  obtain ⟨-, v, hv, ⟨hi, rfl, -⟩ | ⟨i, ts, hi, hdisc, rfl, hitem, hparts⟩⟩ := exists_value h hc
  · obtain ⟨u, hu, hreordered⟩ := hagain c.name _ hv fun _ _ => by simp
    have hfield := ho.find?_field (hwrite c hc) hi
    obtain rfl := Option.some.inj (hu.symm.trans hfield)
    apply hreordered
  · obtain ⟨u, hu, hreordered⟩ := hagain c.name _ hv fun heq => (hdisc heq).elim
    obtain ⟨items, hitems, hraised, -⟩ := ho.find?_items (hwrite c hc) hi
    obtain rfl := Option.some.inj (hu.symm.trans hitems)
    obtain ⟨us, hus, hall⟩ := hreordered.arr_inv rfl
    obtain rfl := Json.arr.inj hus
    have hrank : rankIn (writes (fun c => raised c.key.text? c.fields) fields) c.name i = i := by
      apply rankIn_eq
      intro j hj
      obtain ⟨hlt, -⟩ := List.getElem?_eq_some_iff.mp hitem
      have hchild : (⟨.text c.name, some j, ts[j]⟩ : Child) ∈ children fields :=
        item_mem_children h hv hparts (by simp)
      exact ⟨_, hwrite _ hchild, rfl⟩
    rw [show ((c.slot, raised c.key.text? c.fields) : Write).1.1 = c.name from rfl, hrank] at hraised
    apply Fault.forall₂_getElem? hall hraised
    simp [hitem]

/-- The children of an asset that comes back come back. -/
theorem child (hr : Returns parent fields) (h : Everywhere (fun _ => Mapping) parent fields)
    {c : Child} (hc : c ∈ children fields) :
  Returns c.key.text? c.fields
  where
  typed := isAsset_of_mem_children h.here hc
  again := by
    have hvalue := (hr.toAsset_eq h.here).2 c hc
    have hreordered := hr.reordered_raised h.here hc
    obtain ⟨t, ht⟩ := Outline.exists_obj hvalue
    rw [ht] at hvalue hreordered
    use t, hvalue
    intro s v hv _
    obtain ⟨w, hw, hvw⟩ := (h.child (mem_children.mp hc)).here.exists_of_reordered
      hreordered.symm hv
    exact ⟨w, hw, hvw.symm⟩

/-- A tree comes back if the graph of its layout is put together as it was. -/
theorem of_toAsset {stem : String} {g : Graph}
    (hg : g.Realizes (Layout.placeRoot stem parent fields)) (h : Mapping fields) {v : Json}
    (hasset : g.toAsset .null = .ok (some v)) (hv : v.Reordered (.obj fields)) :
  Returns parent fields
  := by
  rw [hg.toAsset_eq] at hasset
  obtain ⟨found, hfound, hasset⟩ := Fault.bind_eq_ok_iff.mp hasset
  obtain ⟨asset, rfl⟩ := exists_asset_outline hfound
  obtain ⟨trees, -, hasset⟩ := Fault.bind_eq_ok_iff.mp hasset
  obtain ⟨v', hcounted, hasset⟩ := Fault.bind_eq_ok_iff.mp hasset
  obtain rfl : v' = v := Option.some.inj (Except.ok.inj hasset)
  obtain ⟨writes, rfl, -⟩ := exists_writes hfound
  obtain ⟨fields', rfl, hfind⟩ := Graph.find?_of_counted hcounted
  constructor
  · rw [← hv.contains_eq, Entries.contains, hfind typeKey fun heq => absurd heq (by decide)]
    apply isAsset_composed
  · use composed fields writes, hfound
    intro s w hw hlist
    obtain ⟨u, hu, hwu⟩ := h.exists_of_reordered hv.symm hw
    use u
    constructor
    · rw [← hfind s, hu]
      rintro hdisc items heq
      obtain rfl := Option.some.inj (hu.symm.trans heq)
      obtain ⟨items', rfl, -⟩ := hwu.symm.arr_inv rfl
      exact hlist hdisc items' rfl
    · apply hwu.symm

end Returns

/-! ### Pruning -/

/-- Some children of an asset in their slots, each with what is left of it. -/
def prunedWrites (kept : List (Child × Fields)) : List Write :=
  kept.map fun k => (k.1.slot, .obj k.2)

/-- An asset without some of its children, and the children without some of theirs. -/
inductive Pruned : Fields → Fields → Prop
  | mk {fields : Fields} {kept : List (Child × Fields)} :
    (kept.map Prod.fst).Sublist (children fields) → (∀ k ∈ kept, Pruned k.1.fields k.2) →
    Pruned fields (composed fields (prunedWrites kept))

theorem Pruned.isAsset {left : Fields} (hp : Pruned fields left) : (Json.obj left).isAsset = true
  := by
  cases hp with
  | mk _ _ => apply isAsset_composed

section Kept

variable {kept : List (Child × Fields)} (h : Mapping fields)
  (hsub : (kept.map Prod.fst).Sublist (children fields))
  (hassets : ∀ k ∈ kept, (Json.obj k.2).isAsset = true)

include hsub in
theorem mem_children_of_kept {k : Child × Fields} (hk : k ∈ kept) : k.1 ∈ children fields
  := hsub.subset (List.mem_map_of_mem hk)

include h hsub hassets

theorem orderly_prunedWrites : Orderly fields (prunedWrites kept)
  := orderly_slots Prod.fst h hsub hassets

/-- The children of a pruned asset are the children that are kept. -/
theorem exists_kept {c : Child} (hc : c ∈ children (composed fields (prunedWrites kept))) :
  ∃ k ∈ kept, c = written (prunedWrites kept) (k.1.slot, .obj k.2)
  := by
  have ho := orderly_prunedWrites h hsub hassets
  obtain ⟨w, hw, rfl⟩ := exists_write h (fun w hw => exists_obj_of_isAsset (ho.assets w hw))
    (mapping_composed h _) hc rfl
  obtain ⟨k, hk, rfl⟩ := List.mem_map.mp hw
  exact ⟨k, hk, rfl⟩

end Kept

/-- What passes from assets to pruned ones, children aside, holds everywhere in a pruned asset. -/
theorem Pruned.everywhere {P Q : Option String → Fields → Prop}
    (hstep : ∀ {parent : Option String} {fields : Fields} {kept : List (Child × Fields)},
      Mapping fields → (kept.map Prod.fst).Sublist (children fields) →
      Orderly fields (prunedWrites kept) → P parent fields →
        Q parent (composed fields (prunedWrites kept)))
    {left : Fields} (hp : Pruned fields left) (h : Everywhere (fun _ => Mapping) parent fields)
    (hP : Everywhere P parent fields) :
  Everywhere Q parent left
  := by
  induction hp generalizing parent with
  | @mk fields kept hsub hbelow ih =>
    have hassets : ∀ k ∈ kept, (Json.obj k.2).isAsset = true := fun k hk => (hbelow k hk).isAsset
    have ho := orderly_prunedWrites h.here hsub hassets
    apply Everywhere.of_parts (hstep h.here hsub ho hP.here)
    intro part hpart t ht
    obtain ⟨c, rfl⟩ := ho.exists_child_of_asset? h.here hpart ht
    obtain ⟨k, hk, rfl⟩ := exists_kept h.here hsub hassets (mem_children.mpr hpart)
    obtain rfl : k.2 = t := Option.some.inj ht
    have hc := mem_children.mp (mem_children_of_kept hsub hk)
    have hkey := key_eq_name h.here (mem_children.mpr hc)
    have hchild := ih k hk (h.child hc) (hP.child hc)
    rw [hkey] at hchild
    apply hchild

/-- A pruned asset is a mapping everywhere. -/
theorem Pruned.mapping {left : Fields} (hp : Pruned fields left)
    (h : Everywhere (fun _ => Mapping) parent fields) :
  Everywhere (fun _ => Mapping) parent left
  := hp.everywhere (fun hm _ _ _ => mapping_composed hm _) h h

/-- A pruned asset shows the discriminant of the asset. -/
theorem Pruned.field_typeKey {left : Fields} (hp : Pruned fields left) (h : Mapping fields) :
  Json.field left typeKey = shownType fields
  := by
  cases hp with
  | @mk fields kept hsub hbelow =>
    apply (orderly_prunedWrites h hsub fun k hk => (hbelow k hk).isAsset).field_typeKey

/-- There is room for a pruned asset where there is room for the asset. -/
theorem Pruned.roomy {policy : LayoutPolicy} {left : Fields} (hp : Pruned fields left)
    (h : Everywhere (fun _ => Mapping) parent fields) (hroom : Everywhere (Roomy policy) parent fields) :
  Everywhere (Roomy policy) parent left
  := by
  refine hp.everywhere (P := Roomy policy) ?_ h hroom
  intro parent fields kept hm hsub ho hroom
  apply ho.roomy_composed hm hroom
  · have hle := hsub.length_le
    rwa [List.length_map, ← List.length_map (f := fun k => (k.1.slot, Json.obj k.2))] at hle
  · intro w hw hi
    obtain ⟨k, hk, rfl⟩ := List.mem_map.mp hw
    exact ⟨k.1, mem_children_of_kept hsub hk, hi⟩

end Asset

end AssetCanvas
