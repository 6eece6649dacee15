import AssetCanvas.Proofs.Descent
import AssetCanvas.Proofs.Placement
import AssetCanvas.Proofs.Slots

/-!
# The round trip of an asset

An asset tree that is laid out and put together again is the tree that it was, up to the order
of keys, if it is `Asset.Canonical`: every name of a field with children can be read back from
the ports of the children, and disconnected trees stand at the root only.  The argument goes by
induction on the tree: every child is put back into the slot from which it came,
`Asset.slotOf_portOf`, and the children in their slots are the fields of the asset,
`Asset.find?_rebuilt`.
-/

namespace AssetCanvas

open Json Assembly

namespace Graph

theorem counted_withDisconnected_nil {fields : Fields}
    (h : Entries.find? fields (.text Asset.disconnectedKey) = none) :
  counted (withDisconnected (.obj fields) []) = .ok (.obj fields)
  := by
  simp [withDisconnected, counted, h]

theorem counted_withDisconnected (fields : Fields) {trees : List Json} (h : trees ≠ []) :
  counted (withDisconnected (.obj fields) trees)
    = .ok (.obj (Entries.insert fields (.text Asset.disconnectedKey) (.arr trees)))
  := by
  have hne : trees.isEmpty = false := by simpa using h
  simp [withDisconnected, hne, counted, Entries.find?_insert, countable]

theorem eq_of_counted {v w : Json} (h : counted v = .ok w) : w = v
  := by
  unfold counted at h
  split at h
  · split at h
    · split at h
      · exact (Except.ok.inj h).symm
      · cases h
    · exact (Except.ok.inj h).symm
  · exact (Except.ok.inj h).symm

/-- An asset with disconnected trees has the fields of the asset, but for a list of trees. -/
theorem find?_of_counted {fields : Fields} {trees : List Json} {v : Json}
    (h : counted (withDisconnected (.obj fields) trees) = .ok v) :
  ∃ fields', v = .obj fields' ∧ ∀ s : String,
    (s = Asset.disconnectedKey → ∀ items, Entries.find? fields' (.text s) ≠ some (.arr items)) →
      Entries.find? fields' (.text s) = Entries.find? fields (.text s)
  := by
  by_cases hnil : trees = []
  · rw [hnil] at h
    use fields, eq_of_counted h
    exact fun _ _ => rfl
  · rw [counted_withDisconnected fields hnil] at h
    refine ⟨_, (Except.ok.inj h).symm, ?_⟩
    intro s hs
    apply find?_insert_of_ne
    rintro rfl
    apply hs rfl trees
    rw [Entries.find?_insert, if_pos (beq_self_eq_true _)]

end Graph

namespace Asset

theorem capacity_le : capacity ≤ 10 ^ Numeral.maxIntDigits
  := by
  have hpow : 10 ^ 19 ≤ 10 ^ Numeral.maxIntDigits :=
    Nat.pow_le_pow_right (by decide) (by decide)
  apply Nat.le_trans _ hpow
  decide

/-- An asset whose children are read back from their ports: it has a textual discriminant; no
field with children has an empty name, and no array of assets one with a line feed; and the
name of a nested asset is not read as an indexed port, is no legacy port of the label, and is no
named port of the array `Inputs` if the asset has that array. -/
structure Readable (parent : Option String) (fields : Fields) : Prop where
  mapping : Mapping fields
  discriminant : ∃ type, Entries.find? fields (.text typeKey) = some (.str type)
  named : ∀ c ∈ children fields, c.name ≠ ""
  unbroken : ∀ c ∈ children fields, c.index.isSome = true → '\n' ∉ c.name.toList
  plain : ∀ c ∈ children fields, c.index = none → Port.parse c.name = .ok (c.name, none)
  current : ∀ c ∈ children fields, c.index = none →
    Migration.replacement? (classify fields parent).label (.text c.name) = none
  free : ∀ c ∈ children fields, c.index = none → .text Slot.arrayField ∈ arrays fields →
    c.name ∉ Slot.names (classify fields parent).assetType (.text Slot.arrayField)
      (classify fields parent).label
  size : (parts fields).length ≤ capacity

/-- An asset whose children stay in their slots: what is asked of a readable asset, but of any
discriminant, and of names only where they are read. -/
structure Stable (parent : Option String) (fields : Fields) : Prop where
  mapping : Mapping fields
  discriminant : ∃ v, Entries.find? fields (.text typeKey) = some v ∧ v.isNull = false
  indexed : ∀ c ∈ children fields, c.index.isSome = true → c.name ≠ "" ∧ '\n' ∉ c.name.toList
  plain : ∀ c ∈ children fields, c.index = none → Port.parse c.name = .ok (c.name, none)
  current : ∀ c ∈ children fields, c.index = none →
    Migration.replacement? (classify fields parent).label (.text c.name) = none
  free : ∀ c ∈ children fields, c.index = none → .text Slot.arrayField ∈ arrays fields →
    c.name ∉ Slot.names (classify fields parent).assetType (.text Slot.arrayField)
      (classify fields parent).label
  bounded : ∀ c ∈ children fields, ∀ i, c.index = some i → i < capacity

theorem Readable.stable {parent : Option String} {fields : Fields} (h : Readable parent fields) :
  Stable parent fields
  where
  mapping := h.mapping
  discriminant := by
    obtain ⟨type, ht⟩ := h.discriminant
    use .str type, ht
    rfl
  indexed c hc hi := ⟨h.named c hc, h.unbroken c hc hi⟩
  plain := h.plain
  current := h.current
  free := h.free
  bounded c hc i hi := by
    apply Nat.lt_of_lt_of_le (index_of_child hc hi).2
    apply Nat.le_trans _ h.size
    apply List.length_filterMap_le

/-- An asset without a list of disconnected trees. -/
def Connected (fields : Fields) : Prop :=
  Entries.find? fields (.text disconnectedKey) = none

/-- An asset tree that is read back from its layout: every asset in it is readable, and only the
root may have disconnected trees, as a list of assets that is not empty. -/
structure Canonical (parent : Option String) (fields : Fields) : Prop where
  readable : Everywhere Readable parent fields
  connected : ∀ part ∈ parts fields, ∀ t, part.asset? = some t →
    Everywhere (fun _ => Connected) part.parent? t
  rooted : ∀ v, Entries.find? fields (.text disconnectedKey) = some v →
    ∃ items, v = .arr items ∧ items ≠ [] ∧ ∀ item ∈ items, item.isAsset = true

/-- An asset tree that is a fixed point of laying out and putting together: every asset in it is
stable, and only the root may have disconnected trees, as a list of assets that is not empty. -/
structure Fixed (parent : Option String) (fields : Fields) : Prop where
  stable : Everywhere Stable parent fields
  connected : ∀ part ∈ parts fields, ∀ t, part.asset? = some t →
    Everywhere (fun _ => Connected) part.parent? t
  rooted : ∀ v, Entries.find? fields (.text disconnectedKey) = some v →
    ∃ items, v = .arr items ∧ items ≠ [] ∧ ∀ item ∈ items, item.isAsset = true

theorem Canonical.fixed {parent : Option String} {fields : Fields} (h : Canonical parent fields) :
  Fixed parent fields
  where
  stable := fun parent' t hreach => (h.readable parent' t hreach).stable
  connected := h.connected
  rooted := h.rooted

/-! ### Slots of children -/

variable {parent : Option String} {fields : Fields}

/-- A nested asset feeds the port with the current name of its field. -/
theorem portOf_nested (h : Mapping fields) {c : Child} (hc : c ∈ children fields)
    (hi : c.index = none) :
  portOf parent fields c = .str (Migration.current (classify fields parent).label c.name)
  := by
  rw [portOf, Layout.childPort, hi, key_eq_name h hc]
  apply Migration.currentOf_text

/-- An item of an array feeds the current port of the item. -/
theorem portOf_item (h : Mapping fields) {c : Child} (hc : c ∈ children fields) {i : Nat}
    (hi : c.index = some i) :
  portOf parent fields c
    = .str (Migration.current (classify fields parent).label
      (Slot.itemPort (classify fields parent).assetType (.text c.name) i
        (classify fields parent).label))
  := by
  rw [portOf, Layout.childPort, hi, key_eq_name h hc]

/-- The port of a child is read back as the slot from which the child comes. -/
theorem slotOf_portOf (h : Stable parent fields) {c : Child} (hc : c ∈ children fields) :
  slotOf (content parent fields) (classify fields parent).assetType (portOf parent fields c)
    = .ok c.slot
  := by
  cases hi : c.index with
  | none =>
    have hport : portOf parent fields c = .str c.name := by
      rw [portOf_nested h.mapping hc hi, Migration.current_eq, h.current c hc hi]
      rfl
    rw [hport, Child.slot, hi]
    apply Slot.ofPort_text (h.current c hc hi) (h.plain c hc hi) (Slot.recordAdmits_keys _)
    intro hadmits
    apply h.free c hc hi
    apply Key.contains_text_iff.mp hadmits
  | some i =>
    obtain ⟨hname, hline⟩ := h.indexed c hc (by simp [hi])
    have hbound := Nat.lt_of_lt_of_le (h.bounded c hc i hi) capacity_le
    rw [portOf_item h.mapping hc hi, Child.slot, hi]
    apply Slot.ofPort_itemPort hname hline hbound
    right
    rw [content, Slot.contains_keys, Except.ok.injEq, Key.contains_text_iff,
      ← key_eq_name h.mapping hc]
    apply (index_of_child hc hi).1

/-! ### Assets of outlines -/

theorem ownFields_content {type : Json} (hnull : type.isNull = false) :
  ownFields (content parent fields) type = .ok ((.text typeKey, type) :: plain fields)
  := by
  have hplain : (plain fields).filter (fun field => field.1 != .text typeKey) = plain fields := by
    rw [List.filter_eq_self]
    intro f hmem
    simp [bne, key_of_mem_plain hmem]
  simp [ownFields, content, Json.members, hnull, hplain]

/-- The asset of an outline with the node of an asset: the discriminant, the plain fields, and the
assets of the inputs in the slots of their ports. -/
theorem toAsset_node {type : Json}
    (ht : (content parent fields).discriminant = .ok type) (hnull : type.isNull = false)
    {inputs : List (Json × Outline)} {writes : List Write}
    (hinputs : List.Forall₂ (fun input w => input.2.toAsset = .ok (some w.2)
      ∧ slotOf (content parent fields) type input.1 = .ok w.1) inputs writes) :
  (Outline.node (content parent fields) inputs).toAsset
    = .ok (some (.obj (placed ((.text typeKey, type) :: plain fields) writes)))
  := by
  rw [Outline.toAsset]
  simp only [ht, Fault.ok_bind, ownFields_content hnull, Outline.putInputs_eq _ _ hinputs]
  rfl

/-- The asset of the outline of an asset: the discriminant, the plain fields, and the children in
the slots of their ports. -/
theorem toAsset_outline {type : Json}
    (ht : (content parent fields).discriminant = .ok type) (hnull : type.isNull = false)
    {slot : Child → String × Option Nat}
    (hslot : ∀ c ∈ children fields,
      slotOf (content parent fields) type (portOf parent fields c) = .ok (slot c))
    {value : Child → Json}
    (hvalue : ∀ c ∈ children fields,
      (outline c.key.text? c.fields).toAsset = .ok (some (value c))) :
  (outline parent fields).toAsset
    = .ok (some (.obj (placed ((.text typeKey, type) :: plain fields)
        ((children fields).map fun c => (slot c, value c)))))
  := by
  rw [outline_eq]
  apply toAsset_node ht hnull
  apply List.forall₂_map_left_iff.mpr
  apply List.forall₂_map_right_iff.mpr
  apply List.forall₂_same.mpr
  intro c hc
  use hvalue c hc
  apply hslot c hc

/-- The value that is put together from the outline of an asset. -/
def raised (parent : Option String) (fields : Fields) : Json :=
  match (outline parent fields).toAsset with
  | .ok (some v) => v
  | _ => .null

theorem raised_eq {v : Json} (h : (outline parent fields).toAsset = .ok (some v)) :
  raised parent fields = v
  := by
  rw [raised, h]

/-- An asset that is put together from its outline, without its disconnected trees, has under
every key the value that it had. -/
theorem find?_raised (h : Everywhere Stable parent fields)
    (htrees : ∀ v, Entries.find? fields (.text disconnectedKey) = some v →
      ∃ items, v = .arr items)
    (hchildren : ∀ c ∈ children fields, ∃ v,
      (outline c.key.text? c.fields).toAsset = .ok (some v) ∧ v.Reordered (.obj c.fields)) :
  ∃ fields', (outline parent fields).toAsset = .ok (some (.obj fields')) ∧ Mapping fields'
    ∧ ∀ s, Option.Rel Reordered (Entries.find? fields' (.text s))
        (if s = disconnectedKey then none else Entries.find? fields (.text s))
  := by
  obtain ⟨type, ht, hnull⟩ := h.here.discriminant
  have htype : (classify fields parent).assetType = type := by
    rw [assetType_classify, Json.field, ht]
    rfl
  have hdiscriminant : (content parent fields).discriminant = .ok type := by
    simp [Node.discriminant, content, htype, hnull]
  have hvalue : ∀ c ∈ children fields,
      (outline c.key.text? c.fields).toAsset = .ok (some (raised c.key.text? c.fields))
        ∧ (raised c.key.text? c.fields).Reordered (.obj c.fields) := by
    intro c hc
    obtain ⟨v, hv, hr⟩ := hchildren c hc
    rw [raised_eq hv]
    exact ⟨hv, hr⟩
  use placed ((.text typeKey, type) :: plain fields)
    (writes (fun c => raised c.key.text? c.fields) fields)
  refine ⟨?_, ?_, ?_⟩
  · apply toAsset_outline hdiscriminant hnull
    · intro c hc
      rw [← htype]
      apply slotOf_portOf h.here hc
    · exact fun c hc => (hvalue c hc).1
  · apply mapping_placed (mapping_own h.here.mapping type)
  · apply find?_rebuilt h.here.mapping ht htrees fun c hc => (hvalue c hc).2

/-- What has under every key what is put together of an asset, and the trees of the asset under
theirs, is the asset. -/
theorem reordered_of_find?_raised {fields' raised : Fields} (hraised : Mapping raised)
    (h : Mapping fields)
    (hfind : ∀ s, Option.Rel Reordered (Entries.find? fields' (.text s))
      (if s = disconnectedKey then none else Entries.find? fields (.text s)))
    (hsame : ∀ s, s ≠ disconnectedKey →
      Entries.find? raised (.text s) = Entries.find? fields' (.text s))
    (htrees : Option.Rel Reordered (Entries.find? raised (.text disconnectedKey))
      (Entries.find? fields (.text disconnectedKey))) :
  (Json.obj raised).Reordered (.obj fields)
  := by
  apply (Mapping.reordered_iff hraised h).mpr
  intro s
  by_cases hdisc : s = disconnectedKey
  · rw [hdisc]
    apply htrees
  · have hs := hfind s
    rw [if_neg hdisc] at hs
    rw [hsame s hdisc]
    apply hs

/-- A tree of stable assets without disconnected trees is put together again from its outline. -/
theorem toAsset_outline_reordered (h : Everywhere Stable parent fields)
    (hconnected : Everywhere (fun _ => Connected) parent fields) :
  ∃ v, (outline parent fields).toAsset = .ok (some v) ∧ v.Reordered (.obj fields)
  := by
  induction fields using Asset.induction generalizing parent with
  | step fields ih =>
    obtain ⟨fields', hasset, hmapping, hfind⟩ := find?_raised h
      (by
        intro v hv
        rw [hconnected.here] at hv
        cases hv)
      (by
        intro c hc
        apply ih (.child c) (mem_children.mp hc) c.fields rfl (h.child (mem_children.mp hc))
        apply hconnected.child (mem_children.mp hc))
    use .obj fields', hasset
    apply reordered_of_find?_raised hmapping h.here.mapping hfind fun _ _ => rfl
    have hnone := hfind disconnectedKey
    rw [if_pos rfl] at hnone
    rw [hconnected.here]
    apply hnone

/-! ### Disconnected trees -/

/-- Connected assets have no disconnected trees below. -/
theorem loose_eq_nil (h : Everywhere Stable parent fields)
    (hconnected : Everywhere (fun _ => Connected) parent fields) :
  loose fields = []
  := by
  induction fields using Asset.induction generalizing parent with
  | step fields ih =>
    rw [loose_eq, List.flatMap_eq_nil_iff]
    intro part hmem
    cases part with
    | child c => apply ih _ hmem c.fields rfl (h.child hmem) (hconnected.child hmem)
    | tree i t =>
      have hnil := trees_eq_nil h.here.mapping hconnected.here
      have htree : t ∈ trees fields := mem_trees.mpr ⟨i, hmem⟩
      rw [hnil] at htree
      cases htree
    | _ => rfl

/-- The disconnected trees of a fixed point are those of its root. -/
theorem Fixed.loose_eq_trees (h : Fixed parent fields) : loose fields = trees fields
  := by
  have hlist : ∀ ps : List Part, (∀ part ∈ ps, part ∈ parts fields) →
      ps.flatMap Part.loose = ps.filterMap Part.tree? := by
    intro ps hps
    induction ps with
    | nil => rfl
    | cons part rest ih =>
      have hpart := hps part (by simp)
      rw [List.flatMap_cons, ih fun part' hmem => hps part' (by simp [hmem])]
      cases part with
      | child c =>
        have hnil := loose_eq_nil (h.stable.child hpart) (h.connected _ hpart c.fields rfl)
        rw [Part.loose, hnil, List.filterMap_cons_none rfl]
        rfl
      | tree i t =>
        have hnil := loose_eq_nil (h.stable.tree hpart) (h.connected _ hpart t rfl)
        have hfirst : (Part.tree i t).tree? = some t := rfl
        rw [Part.loose, hnil, List.filterMap_cons_some hfirst]
        rfl
      | _ => rfl
  rw [loose_eq, trees]
  apply hlist
  exact fun part hmem => hmem

/-- A disconnected tree of a fixed point is put together again from its outline. -/
theorem Fixed.tree_reordered (h : Fixed parent fields) {t : Fields} (ht : t ∈ trees fields) :
  (outline none t).toAsset = .ok (some (raised none t)) ∧ (raised none t).Reordered (.obj t)
  := by
  obtain ⟨i, hmem⟩ := mem_trees.mp ht
  obtain ⟨v, hv, hr⟩ := toAsset_outline_reordered (h.stable.tree hmem)
    (h.connected (.tree i t) hmem t rfl)
  rw [raised_eq hv]
  exact ⟨hv, hr⟩

/-- What is put together of the root of a fixed point, with what is put together of its
disconnected trees, is the fixed point. -/
theorem Fixed.counted_reordered (h : Fixed parent fields) {fields' : Fields}
    (hmapping' : Mapping fields')
    (hfind : ∀ s, Option.Rel Reordered (Entries.find? fields' (.text s))
      (if s = disconnectedKey then none else Entries.find? fields (.text s))) :
  ∃ v, Graph.counted (Graph.withDisconnected (.obj fields') ((trees fields).map (raised none)))
      = .ok v
    ∧ v.Reordered (.obj fields)
  := by
  have hmapping := h.stable.here.mapping
  cases hv : Entries.find? fields (.text disconnectedKey) with
  | none =>
    have hat := hfind disconnectedKey
    rw [if_pos rfl] at hat
    rw [trees_eq_nil hmapping hv]
    use .obj fields'
    constructor
    · apply Graph.counted_withDisconnected_nil
      cases hnone : Entries.find? fields' (.text disconnectedKey) with
      | none => rfl
      | some w =>
        rw [hnone] at hat
        cases hat
    · apply reordered_of_find?_raised hmapping' hmapping hfind fun _ _ => rfl
      rw [hv]
      apply hat
  | some v =>
    obtain ⟨items, rfl, hne, hassets⟩ := h.rooted v hv
    obtain ⟨ts, rfl⟩ := exists_objects hassets
    have htrees := trees_eq hmapping hv hassets
    rw [htrees]
    use .obj (Entries.insert fields' (.text disconnectedKey) (.arr (ts.map (raised none))))
    constructor
    · apply Graph.counted_withDisconnected
      simpa using hne
    · apply reordered_of_find?_raised (hmapping'.insert _ _) hmapping hfind
      · intro s hdisc
        apply find?_insert_of_ne fields' hdisc
      · rw [Entries.find?_insert, hv, if_pos (beq_self_eq_true _)]
        apply Option.Rel.some
        apply Reordered.arr
        rw [List.forall₂_map_left_iff, List.forall₂_map_right_iff, List.forall₂_same]
        intro t ht
        apply (h.tree_reordered (htrees ▸ ht)).2

/-- A fixed point is put together again from its outline and the outlines of its disconnected
trees. -/
theorem Fixed.toAsset_reordered (h : Fixed parent fields) :
  ∃ asset trees', (outline parent fields).toAsset = .ok (some asset)
    ∧ (loose fields).mapM (fun t => (outline none t).toAsset) = .ok (trees'.map some)
    ∧ ∃ v, Graph.counted (Graph.withDisconnected asset trees') = .ok v
      ∧ v.Reordered (.obj fields)
  := by
  obtain ⟨fields', hasset, hmapping', hfind⟩ := find?_raised h.stable
    (by
      intro v hv
      obtain ⟨items, hitems, -⟩ := h.rooted v hv
      use items)
    (by
      intro c hc
      apply toAsset_outline_reordered (h.stable.child (mem_children.mp hc))
      apply h.connected (.child c) (mem_children.mp hc) c.fields rfl)
  use .obj fields', (trees fields).map (raised none), hasset
  constructor
  · rw [h.loose_eq_trees, Fault.mapM_eq_ok_iff, List.map_map, List.forall₂_map_right_iff,
      List.forall₂_same]
    intro t ht
    apply (h.tree_reordered ht).1
  · apply h.counted_reordered hmapping' hfind

theorem Readable.placeable (h : Readable parent fields) : Placeable fields
  := ⟨h.discriminant, fun _ hc => isSpellable_of_mapping h.mapping hc, h.size⟩

/-- The children of a readable asset feed ports with names. -/
theorem Readable.exists_portOf (h : Readable parent fields) {c : Child} (hc : c ∈ children fields) :
  ∃ port, portOf parent fields c = .str port ∧ port ≠ ""
  := by
  cases hi : c.index with
  | none =>
    use Migration.current (classify fields parent).label c.name, portOf_nested h.mapping hc hi
    apply Migration.current_ne_empty (h.named c hc)
  | some i =>
    refine ⟨_, portOf_item h.mapping hc hi, ?_⟩
    apply Migration.current_ne_empty
    apply Slot.itemPort_ne_empty

/-! ### The round trip -/

/-- The graph of a layout of a fixed point, or what is read from what is written of it, is put
together as the tree. -/
theorem Fixed.toAsset_of_realizes (h : Fixed parent fields) {stem : String} {g : Graph}
    (hg : g.Realizes (Layout.placeRoot stem parent fields)) :
  ∃ v, g.toAsset .null = .ok (some v) ∧ v.Reordered (.obj fields)
  := by
  obtain ⟨asset, trees', hasset, htrees, v, hv, hr⟩ := h.toAsset_reordered
  use v
  constructor
  · have hsome : (trees'.map some).filterMap id = trees' := by simp
    rw [hg.toAsset_eq, hasset, htrees]
    simp only [Fault.ok_bind, hsome, hv]
    rfl
  · apply hr

/-- Every layout of a canonical tree is put together as the tree again, up to the order of keys,
and so is the graph that is read from what is written of the layout.  There is such a layout
whenever the distances of the policy are numbers and the stem of the ids has a spelling. -/
theorem Canonical.round_trip (h : Canonical parent fields) (stem : Json) (start : Float × Float)
    (policy : LayoutPolicy) :
  (policy.Spaced → (Layout.stemValue policy stem).isSpellable = true →
      ∃ l, Layout.ofAsset (.obj fields) stem start (Json.ofOption parent) policy = .ok l)
    ∧ ∀ l, Layout.ofAsset (.obj fields) stem start (Json.ofOption parent) policy = .ok l →
      (∃ v, l.toGraph.toAsset .null = .ok (some v) ∧ v.Reordered (.obj fields))
        ∧ ∃ g, (l.toGraph.toJson >>= Graph.ofJson) = .ok g
          ∧ ∃ v, g.toAsset .null = .ok (some v) ∧ v.Reordered (.obj fields)
  := by
  constructor
  · intro hp hstem
    apply Layout.exists_ofAsset start hp hstem
    intro parent' fields' hreach
    apply (h.readable parent' fields' hreach).placeable
  · intro l hl
    have hg := Layout.realizes_of_ofAsset hl
    use h.fixed.toAsset_of_realizes hg
    obtain ⟨g, hrestored, hg'⟩ := hg.restored
      (by
        intro n hmem
        apply Layout.sectionTag_of_ofAsset hl hmem)
      (by
        intro e hmem
        obtain ⟨parent', t, hreach, c, hc, heq⟩ := Layout.port_of_mem_edges hmem
        rw [heq]
        apply (h.readable parent' t hreach).exists_portOf hc)
    use g, hrestored
    apply h.fixed.toAsset_of_realizes hg'

/-! ### A canonical tree -/

/-- The asset with a discriminant and no fields. -/
def bare (type : String) : Fields := [(.text typeKey, .str type)]

theorem everywhere_bare {P : Option String → Fields → Prop} {parent : Option String}
    {type : String} (h : P parent (bare type)) :
  Everywhere P parent (bare type)
  := by
  have hparts : parts (bare type) = [.plain (.text typeKey) (.str type)] := rfl
  apply Everywhere.leaf h
  intro part hmem
  rw [hparts] at hmem
  obtain rfl := List.mem_singleton.mp hmem
  rfl

/-- A property holds everywhere in an asset over assets without fields if it holds of all of
them. -/
theorem everywhere_over_bare {P : Option String → Fields → Prop} {parent : Option String}
    {fields : Fields} (here : P parent fields)
    (hbare : ∀ part ∈ parts fields, ∀ t, part.asset? = some t → ∃ type, t = bare type)
    (below : ∀ parent type, P parent (bare type)) :
  Everywhere P parent fields
  := by
  apply Everywhere.of_parts here
  intro part hmem t ht
  obtain ⟨type, rfl⟩ := hbare part hmem t ht
  apply everywhere_bare (below _ type)

theorem readable_bare (parent : Option String) (type : String) : Readable parent (bare type)
  := by
  have hparts : parts (bare type) = [.plain (.text typeKey) (.str type)] := rfl
  have hchildren : children (bare type) = [] := rfl
  constructor
  · constructor
    · simp [bare]
    · simp [bare, Entries.Distinct, Entries.keys]
  · use type
    rfl
  all_goals try simp [hchildren]
  rw [hparts, List.length_singleton]
  decide

/-- A sum with a curve and one input, beside a disconnected tree. -/
def sumOfOne : Fields :=
  [("Type", .str "Sum"), ("Curve", .obj (bare "Manual")),
    ("Inputs", .arr [.obj (bare "Constant")]), ("$DisconnectedTrees", .arr [.obj (bare "Abs")])]

theorem canonical_sumOfOne : Canonical none sumOfOne
  := by
  have hreadable : Readable none sumOfOne := by
    have hcurve : ∀ c ∈ children sumOfOne, c.index = none → c.name = "Curve" := by decide
    constructor
    · constructor
      · simp [sumOfOne]
      · unfold Entries.Distinct
        decide
    · use "Sum"
      rfl
    · decide
    · decide
    · decide
    · decide
    · intro c hc hi _
      rw [hcurve c hc hi]
      decide
    · decide
  have hbare : ∀ part ∈ parts sumOfOne, ∀ t, part.asset? = some t → ∃ type, t = bare type := by
    have hparts : parts sumOfOne = [.plain "Type" (.str "Sum"), .child ⟨"Curve", none, bare "Manual"⟩,
        .record "Inputs", .child ⟨"Inputs", some 0, bare "Constant"⟩, .tree 0 (bare "Abs")] := rfl
    rw [hparts]
    simp [Part.asset?]
  constructor
  · apply everywhere_over_bare hreadable hbare readable_bare
  · intro part hmem t ht
    obtain ⟨type, rfl⟩ := hbare part hmem t ht
    apply everywhere_bare
    rfl
  · intro v hv
    obtain rfl : Json.arr [.obj (bare "Abs")] = v := Option.some.inj hv
    exact ⟨_, rfl, by decide, by decide⟩

/-- The sum is laid out with the standard policy, and put together again. -/
theorem round_trip_sumOfOne :
  ∃ l v, Layout.ofAsset (.obj sumOfOne) .null (0.0, 0.0) .null {} = .ok l
    ∧ l.toGraph.toAsset .null = .ok (some v) ∧ v.Reordered (.obj sumOfOne)
  := by
  have hpolicy : LayoutPolicy.Spaced {} :=
    ⟨⟨_, rfl, trivial⟩, ⟨_, rfl, trivial⟩, ⟨_, rfl, trivial⟩, ⟨_, rfl, trivial⟩⟩
  obtain ⟨hexists, hround⟩ := Canonical.round_trip canonical_sumOfOne .null (0.0, 0.0) {}
  obtain ⟨l, hl⟩ := hexists hpolicy rfl
  obtain ⟨⟨v, hv, hr⟩, -⟩ := hround l hl
  use l, v, hl, hv

end Asset

end AssetCanvas
