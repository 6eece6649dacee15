import AssetCanvas.Proofs.Acyclic

/-!
# Children in any order

What children leave behind depends only on the last child in every slot,
`Assembly.reordered_placed`: arrays follow the indices of their items, and of a field and its
array the array stays.  So a node has the same asset, up to the order of keys, in whatever order
edges into distinct slots bring its children, `Outline.related_toAsset_perm`.
-/

namespace AssetCanvas

open Assembly Json

/-! ### Values that may be missing -/

namespace Json.Reordered

variable {x y : Option Json}

theorem isSome_of_rel (h : Option.Rel Reordered x y) : x.isSome = y.isSome
  := by
  cases h <;> rfl

theorem getD_of_rel (h : Option.Rel Reordered x y) (v : Json) : (x.getD v).Reordered (y.getD v)
  := by
  cases h with
  | none => apply refl
  | some hv => apply hv

theorem rel_refl (x : Option Json) : Option.Rel Reordered x x
  := by
  cases x with
  | none => apply Option.Rel.none
  | some v => apply Option.Rel.some (refl v)

theorem or_of_rel (h : Option.Rel Reordered x y) {x' y' : Option Json}
    (h' : Option.Rel Reordered x' y') :
  Option.Rel Reordered (x.or x') (y.or y')
  := by
  cases h with
  | none => apply h'
  | some hv => apply Option.Rel.some hv

end Json.Reordered

/-! ### Children in slots -/

namespace Assembly

/-- The items of an array are found under their sorted indices. -/
theorem inOrder_eq {items : List (Nat × Json)} (h : Entries.Distinct items) :
  inOrder items = ((Entries.keys items).mergeSort fun a b => a ≤ b).map fun index =>
    (Entries.find? items index).getD .null
  := by
  have hkeys : (Entries.keys items).mergeSort (fun a b => a ≤ b)
      = (items.mergeSort fun a b => a.1 ≤ b.1).map Prod.fst := by
    apply Eq.symm
    apply List.map_mergeSort
    intro a _ b _
    rfl
  rw [hkeys, inOrder, List.map_map]
  apply List.map_congr_left
  intro item hitem
  rw [Function.comp_apply, h.find?_of_mem (List.mem_mergeSort.mp hitem)]
  rfl

/-- Arrays with reordered items under the same indices have reordered items in order. -/
theorem forall₂_inOrder {items items' : List (Nat × Json)} (h : Entries.Distinct items)
    (h' : Entries.Distinct items')
    (hitems : ∀ index,
      Option.Rel Reordered (Entries.find? items index) (Entries.find? items' index)) :
  List.Forall₂ Reordered (inOrder items) (inOrder items')
  := by
  have hkeys : (Entries.keys items).Perm (Entries.keys items') := by
    rw [List.perm_ext_iff_of_nodup (Entries.distinct_iff_nodup.mp h)
      (Entries.distinct_iff_nodup.mp h')]
    intro index
    rw [Entries.mem_keys_iff, Entries.mem_keys_iff, ← Option.isSome_iff_exists,
      ← Option.isSome_iff_exists, Reordered.isSome_of_rel (hitems index)]
  have hsorted : (Entries.keys items).mergeSort (fun a b => a ≤ b)
      = (Entries.keys items').mergeSort fun a b => a ≤ b := by
    have hle (l : List Nat) : (l.mergeSort fun a b => a ≤ b).Pairwise (· ≤ ·) := by
      have hpairwise : (l.mergeSort fun a b => a ≤ b).Pairwise fun a b => decide (a ≤ b) := by
        apply List.pairwise_mergeSort
        · simp only [decide_eq_true_iff]
          intro a b c
          apply Nat.le_trans
        · simp only [Bool.or_eq_true, decide_eq_true_iff]
          apply Nat.le_total
      simpa using hpairwise
    apply List.Perm.eq_of_pairwise (fun a b _ _ => Nat.le_antisymm) (hle _) (hle _)
    apply (List.mergeSort_perm _ _).trans
    apply hkeys.trans (List.mergeSort_perm _ _).symm
  rw [inOrder_eq h, inOrder_eq h', hsorted, List.forall₂_map_left_iff,
    List.forall₂_map_right_iff, List.forall₂_same]
  intro index _
  apply Reordered.getD_of_rel (hitems index)

theorem itemsAt_eq_nil_iff_lastIn? {field : String} {writes : List Write} :
  itemsAt field writes = [] ↔ ∀ index, lastIn? (field, some index) writes = none
  := by
  rw [itemsAt_eq_nil_iff]
  simp only [lastIn?_eq_none_iff]
  constructor
  · exact fun h index w hw => h w hw index
  · exact fun h w hw index => h index w hw

/-- The outcome of putting children into slots depends only on the last child in every slot. -/
theorem reordered_placed {own : Fields} (hown : Mapping own) {writes writes' : List Write}
    (h : ∀ slot, Option.Rel Reordered (lastIn? slot writes) (lastIn? slot writes')) :
  (Json.obj (placed own writes)).Reordered (.obj (placed own writes'))
  := by
  apply (Mapping.reordered_iff (mapping_placed hown writes) (mapping_placed hown writes')).mpr
  intro field
  have hnil : itemsAt field writes = [] ↔ itemsAt field writes' = [] := by
    rw [itemsAt_eq_nil_iff_lastIn?, itemsAt_eq_nil_iff_lastIn?]
    apply forall_congr'
    intro index
    rw [← Option.not_isSome_iff_eq_none, ← Option.not_isSome_iff_eq_none,
      Reordered.isSome_of_rel (h (field, some index))]
  rw [find?_placed, find?_placed]
  by_cases hitems : itemsAt field writes = []
  · rw [if_pos hitems, if_pos (hnil.mp hitems), childAt?_eq, childAt?_eq]
    apply Reordered.or_of_rel (h (field, none)) (Reordered.rel_refl _)
  · rw [if_neg hitems, if_neg fun hitems' => hitems (hnil.mpr hitems')]
    apply Option.Rel.some
    apply Reordered.arr
    apply forall₂_inOrder (Entries.distinct_ofList _) (Entries.distinct_ofList _)
    intro index
    rw [find?_ofList_itemsAt, find?_ofList_itemsAt]
    apply h

/-- In a slot that is used once stands the child that is put there. -/
theorem lastIn?_eq_some_iff {writes : List Write} (h : (writes.map Prod.fst).Nodup)
    {slot : String × Option Nat} {child : Json} :
  lastIn? slot writes = some child ↔ (slot, child) ∈ writes
  := by
  have hmem : ∀ {child'}, lastIn? slot writes = some child' → (slot, child') ∈ writes := by
    intro child' hchild
    obtain ⟨w, hlast, rfl⟩ := Option.map_eq_some_iff.mp hchild
    obtain ⟨hw, hslot⟩ := List.mem_filter.mp (List.mem_of_getLast? hlast)
    obtain rfl := decide_eq_true_iff.mp hslot
    apply hw
  constructor
  · apply hmem
  · intro hw
    obtain ⟨child', hchild⟩ : ∃ child', lastIn? slot writes = some child' := by
      apply Option.ne_none_iff_exists'.mp
      intro hnone
      apply lastIn?_eq_none_iff.mp hnone _ hw rfl
    have hsame := List.inj_on_of_nodup_map h (hmem hchild) hw rfl
    rw [hchild, (Prod.mk.inj hsame).2]

/-- Permuting children in distinct slots does not change what is in a slot. -/
theorem lastIn?_of_perm {writes writes' : List Write} (h : (writes.map Prod.fst).Nodup)
    (hp : writes.Perm writes') (slot : String × Option Nat) :
  lastIn? slot writes = lastIn? slot writes'
  := by
  apply Option.ext
  intro child
  rw [lastIn?_eq_some_iff h, lastIn?_eq_some_iff ((hp.map Prod.fst).nodup_iff.mp h), hp.mem_iff]

/-- Two writes of reordered children into one slot. -/
def Write.Reordered (w w' : Write) : Prop := w.1 = w'.1 ∧ w.2.Reordered w'.2

theorem lastIn?_cons (slot : String × Option Nat) (w : Write) (rest : List Write) :
  lastIn? slot (w :: rest) = (lastIn? slot rest).or (if w.1 = slot then some w.2 else none)
  := by
  rw [lastIn?, lastIn?, List.filter_cons]
  by_cases h : w.1 = slot
  · rw [if_pos (decide_eq_true h), if_pos h, List.getLast?_cons]
    cases (rest.filter fun w => w.1 = slot).getLast? <;> rfl
  · rw [if_neg (by simpa using h), if_neg h, Option.or_none]

theorem rel_lastIn? {writes writes' : List Write} (h : List.Forall₂ Write.Reordered writes writes')
    (slot : String × Option Nat) :
  Option.Rel Reordered (lastIn? slot writes) (lastIn? slot writes')
  := by
  induction h with
  | nil => apply Option.Rel.none
  | @cons w w' rest rest' hw _ ih =>
    rw [lastIn?_cons, lastIn?_cons, hw.1]
    apply Reordered.or_of_rel ih
    split
    · apply Option.Rel.some hw.2
    · apply Option.Rel.none

end Assembly

theorem mapping_ownFields {n : Node} {discriminant : Json} {own : Fields}
    (h : ∀ fields, n.fields = .obj fields → Mapping fields)
    (hown : ownFields n discriminant = .ok own) :
  Mapping own
  := by
  rw [ownFields] at hown
  obtain ⟨fields, hfields, hown⟩ := Fault.bind_eq_ok_iff.mp hown
  obtain rfl := Except.ok.inj hown
  have hmapping : Mapping fields := by
    cases hn : n.fields with
    | obj fields' =>
      rw [hn] at hfields
      obtain rfl := Except.ok.inj hfields
      apply h fields' hn
    | _ =>
      rw [hn] at hfields
      cases hfields
  have hplain := hmapping.sublist (List.filter_sublist (p := fun f => f.1 != .text Asset.typeKey))
  split
  · apply hplain
  · apply hplain.cons
    intro f hmem
    simpa [bne] using (List.mem_filter.mp hmem).2

/-! ### Inputs of outlines -/

namespace Outline

/-- What an input of a node writes: the asset of the source, if there is one, into the slot of
the port. -/
def write? (n : Node) (discriminant : Json) (input : Json × Outline) : Option Write :=
  match input.2.toAsset, slotOf n discriminant input.1 with
  | .ok (some child), .ok slot => some (slot, child)
  | _, _ => none

theorem write?_eq_some_iff {n : Node} {discriminant : Json} {input : Json × Outline}
    {slot : String × Option Nat} {child : Json} :
  write? n discriminant input = some (slot, child)
    ↔ input.2.toAsset = .ok (some child) ∧ slotOf n discriminant input.1 = .ok slot
  := by
  rw [write?]
  split
  next child' slot' hchild hslot => simp [hchild, hslot, and_comm]
  next hnone =>
    simp only [reduceCtorEq, false_iff, not_and]
    intro hchild hslot
    exact hnone child slot hchild hslot

theorem rel_write? (n : Node) (discriminant port : Json) {o o' : Outline}
    (h : Fault.Related (Option.Rel Reordered) o.toAsset o'.toAsset) :
  Option.Rel Write.Reordered (write? n discriminant (port, o)) (write? n discriminant (port, o'))
  := by
  rw [write?, write?]
  generalize o.toAsset = x at h
  generalize o'.toAsset = x' at h
  cases h with
  | error _ _ => apply Option.Rel.none
  | ok h =>
    cases h with
    | none => apply Option.Rel.none
    | some hv =>
      cases slotOf n discriminant port with
      | error _ => apply Option.Rel.none
      | ok slot => exact .some ⟨rfl, hv⟩

/-- The parts that are put together of some inputs are what the inputs write. -/
theorem eq_putAll_of_putInputs {n : Node} {discriminant : Json} {inputs : List (Json × Outline)}
    {before after : Parts} (h : putInputs n discriminant before inputs = .ok after) :
  after = before.putAll (inputs.filterMap (write? n discriminant))
  := by
  induction inputs generalizing before with
  | nil => exact (Except.ok.inj h).symm
  | cons input rest ih =>
    rw [putInputs] at h
    obtain ⟨found, hfound, h⟩ := Fault.bind_eq_ok_iff.mp h
    cases found with
    | none =>
      have hnone : write? n discriminant input = none := by simp [write?, hfound]
      rw [List.filterMap_cons_none hnone]
      apply ih h
    | some child =>
      obtain ⟨slot, hslot, h⟩ := Fault.bind_eq_ok_iff.mp h
      rw [List.filterMap_cons_some (write?_eq_some_iff.mpr ⟨hfound, hslot⟩)]
      apply ih h

/-- The inputs that the edges into a node make. -/
abbrev inputsOf (outlineOf : String → Outline) (edges : List Edge) : List (Json × Outline) :=
  edges.map fun e => (e.targetPort, outlineOf e.source)

section Permuted

variable {n : Node} {discriminant : Json} {o o' : String → Outline} {edges edges' : List Edge}
  (hp : edges.Perm edges')
  (ho : ∀ source, Fault.Related (Option.Rel Reordered) (o source).toAsset (o' source).toAsset)

include hp ho

theorem exists_putInputs_perm (before : Parts) :
  (∃ parts, putInputs n discriminant before (inputsOf o edges) = .ok parts)
    ↔ ∃ parts, putInputs n discriminant before (inputsOf o' edges') = .ok parts
  := by
  rw [exists_putInputs_iff, exists_putInputs_iff, List.forall_mem_map, List.forall_mem_map]
  simp only [← hp.mem_iff]
  apply forall₂_congr
  intro e _
  have hsource := ho e.source
  generalize (o e.source).toAsset = x at hsource
  generalize (o' e.source).toAsset = x' at hsource
  cases hsource with
  | error _ _ => simp
  | ok h => simp [Reordered.isSome_of_rel h]

/-- What edges into distinct slots put together does not depend on their order. -/
theorem reordered_putInputs_perm
    (hslots : edges.Pairwise fun e e' => ∀ slot, slotOf n discriminant e.targetPort = .ok slot →
      slotOf n discriminant e'.targetPort ≠ .ok slot)
    {own : Fields} (hown : Mapping own) {parts parts' : Parts}
    (hparts : putInputs n discriminant ⟨own, []⟩ (inputsOf o edges) = .ok parts)
    (hparts' : putInputs n discriminant ⟨own, []⟩ (inputsOf o' edges') = .ok parts') :
  (Json.obj parts.toFields).Reordered (.obj parts'.toFields)
  := by
  rw [eq_putAll_of_putInputs hparts, eq_putAll_of_putInputs hparts', List.filterMap_map,
    List.filterMap_map]
  apply reordered_placed hown
  intro slot
  have hnodup : ((edges.filterMap (write? n discriminant ∘ fun e =>
      (e.targetPort, o e.source))).map Prod.fst).Nodup := by
    rw [List.Nodup, List.pairwise_map, List.pairwise_filterMap]
    apply hslots.imp
    rintro e e' hne ⟨slot, child⟩ hw ⟨slot', child'⟩ hw' rfl
    apply hne slot (write?_eq_some_iff.mp hw).2 (write?_eq_some_iff.mp hw').2
  rw [lastIn?_of_perm hnodup (hp.filterMap _)]
  apply rel_lastIn?
  apply List.rel_filterMap (R := Eq)
  · rintro e _ rfl
    apply rel_write? n discriminant e.targetPort (ho e.source)
  · rw [List.forall₂_eq_eq_eq]

/-- The asset of a node does not depend on the order of edges into distinct slots. -/
theorem related_toAsset_perm (hfields : ∀ fields, n.fields = .obj fields → Mapping fields)
    (hslots : edges.Pairwise fun e e' => ∀ slot, n.slot e.targetPort = .ok slot →
      n.slot e'.targetPort ≠ .ok slot) :
  Fault.Related (Option.Rel Reordered) (toAsset (.node n (inputsOf o edges)))
    (toAsset (.node n (inputsOf o' edges')))
  := by
  rw [toAsset, toAsset]
  cases hdiscriminant : n.discriminant with
  | error fault => apply Fault.Related.error
  | ok discriminant =>
    simp only [Node.slot, hdiscriminant, Fault.ok_bind] at hslots
    simp only [Fault.ok_bind]
    cases hown : ownFields n discriminant with
    | error fault => apply Fault.Related.error
    | ok own =>
      simp only [Fault.ok_bind]
      apply Fault.Related.bind (Fault.Related.of_exists (exists_putInputs_perm hp ho ⟨own, []⟩)
        fun parts parts' => reordered_putInputs_perm hp ho hslots (mapping_ownFields hfields hown))
      intro parts parts' hparts
      exact .ok (.some hparts)

end Permuted

end Outline

end AssetCanvas
