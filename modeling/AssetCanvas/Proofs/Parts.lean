import AssetCanvas.Layout
import AssetCanvas.Proofs.Entries

/-!
# The parts of an asset

A layout visits an asset part by part: plain fields, the records of array fields, children,
and disconnected trees.  `Asset.parts` lists the parts in the order of the visit, and
`Layout.placeFields_eq` lays an asset out part by part, so that what holds of every part and of
appended fragments holds of a layout.  Children and trees are smaller than the asset, which is
the induction on assets, `Asset.induction`.
-/

namespace AssetCanvas

/-- The items of an array of assets are assets. -/
theorem Json.isAsset_of_kind {items : List Json} (h : (Json.arr items).kind = .assetArray) :
  items ≠ [] ∧ ∀ v ∈ items, v.isAsset = true
  := by
  simpa [Json.kind] using h

namespace Asset

/-! ### Parts -/

/-- A child of an asset: the asset in a field, or an item of an array of assets. -/
structure Child where
  key : Key
  index : Option Nat
  fields : Fields

/-- A part of an asset. -/
inductive Part where
  | plain (key : Key) (v : Json)
  | record (key : Key)
  | child (c : Child)
  | tree (index : Nat) (fields : Fields)
  | skipped (index : Nat)

/-- The parts of the items of an array of assets, from the item at `index` on. -/
def itemParts (key : Key) (index : Nat) : List Json → List Part
  | [] => []
  | .obj fields :: rest => .child ⟨key, some index, fields⟩ :: itemParts key (index + 1) rest
  | _ :: rest => itemParts key (index + 1) rest

/-- The part of an item of a list of disconnected trees. -/
def treePart (index : Nat) : Json → Part
  | .obj fields => if Entries.contains fields typeKey then .tree index fields else .skipped index
  | _ => .skipped index

/-- The parts of a list of disconnected trees, from the tree at `index` on. -/
def treeParts (index : Nat) : List Json → List Part
  | [] => []
  | v :: rest => treePart index v :: treeParts (index + 1) rest

/-- The parts of the value of a field. -/
def valueParts (key : Key) : Json → List Part
  | .obj fields =>
    if key != typeKey && Entries.contains fields typeKey then [.child ⟨key, none, fields⟩]
    else [.plain key (.obj fields)]
  | .arr items =>
    if key == disconnectedKey then treeParts 0 items
    else if key != typeKey && (Json.arr items).kind = .assetArray then
      .record key :: itemParts key 0 items
    else [.plain key (.arr items)]
  | v => [.plain key v]

/-- The parts of an asset. -/
def parts (fields : Fields) : List Part := fields.flatMap fun f => valueParts f.1 f.2

namespace Part

/-- The plain field of a part; the discriminant is none. -/
def plain? : Part → Option (Key × Json)
  | .plain key v => if key == typeKey then none else some (key, v)
  | _ => none

/-- The name of the array field that a part records. -/
def record? : Part → Option Key
  | .record key => some key
  | _ => none

/-- The child that a part is. -/
def child? : Part → Option Child
  | .child c => some c
  | _ => none

/-- The disconnected tree that a part is. -/
def tree? : Part → Option Fields
  | .tree _ fields => some fields
  | _ => none

/-- The asset below a part. -/
def asset? : Part → Option Fields
  | .child c => some c.fields
  | .tree _ fields => some fields
  | _ => none

/-- The field that holds the asset below a part; none for a disconnected tree. -/
def parent? : Part → Option String
  | .child c => c.key.text?
  | _ => none

end Part

/-- The plain fields of an asset. -/
def plain (fields : Fields) : Fields := (parts fields).filterMap Part.plain?

/-- The names of the array fields of an asset. -/
def arrays (fields : Fields) : List Key := (parts fields).filterMap Part.record?

/-- The children of an asset. -/
def children (fields : Fields) : List Child := (parts fields).filterMap Part.child?

/-- The disconnected trees of an asset. -/
def trees (fields : Fields) : List Fields := (parts fields).filterMap Part.tree?

/-- The assets that a descent from an asset reaches, with the fields that hold them. -/
inductive Reaches : Option String → Fields → Option String → Fields → Prop
  | here (parent : Option String) (fields : Fields) : Reaches parent fields parent fields
  | step {parent parent' : Option String} {fields t fields' : Fields} {part : Part} :
    part ∈ parts fields → part.asset? = some t → Reaches part.parent? t parent' fields' →
      Reaches parent fields parent' fields'

/-- Whether every asset that a descent reaches has a property. -/
def Everywhere (P : Option String → Fields → Prop) (parent : Option String) (fields : Fields) :
    Prop :=
  ∀ parent' fields', Reaches parent fields parent' fields' → P parent' fields'

namespace Everywhere

variable {P : Option String → Fields → Prop} {parent : Option String} {fields : Fields}

theorem here (h : Everywhere P parent fields) : P parent fields := h _ _ (.here parent fields)

/-- A property holds everywhere if the asset has it and it holds everywhere below its parts. -/
theorem of_parts (here : P parent fields)
    (below : ∀ part ∈ parts fields, ∀ t, part.asset? = some t → Everywhere P part.parent? t) :
  Everywhere P parent fields
  := by
  intro parent' fields' h
  cases h with
  | here => apply here
  | step hmem ht hreach => apply below _ hmem _ ht _ _ hreach

/-- A property holds everywhere in an asset without assets below it if the asset has it. -/
theorem leaf (here : P parent fields) (h : ∀ part ∈ parts fields, part.asset? = none) :
  Everywhere P parent fields
  := by
  apply of_parts here
  intro part hmem t ht
  rw [h part hmem] at ht
  cases ht

theorem below (h : Everywhere P parent fields) {part : Part} (hmem : part ∈ parts fields)
    {t : Fields} (ht : part.asset? = some t) :
  Everywhere P part.parent? t
  := fun _ _ hreach => h _ _ (.step hmem ht hreach)

theorem child (h : Everywhere P parent fields) {c : Child} (hmem : Part.child c ∈ parts fields) :
  Everywhere P c.key.text? c.fields
  := h.below hmem rfl

theorem tree (h : Everywhere P parent fields) {index : Nat} {t : Fields}
    (hmem : Part.tree index t ∈ parts fields) :
  Everywhere P none t
  := h.below hmem rfl

end Everywhere

/-! ### Induction on assets -/

theorem mem_children {fields : Fields} {c : Child} :
  c ∈ children fields ↔ Part.child c ∈ parts fields
  := by
  rw [children, List.mem_filterMap]
  constructor
  · rintro ⟨part, hmem, hpart⟩
    cases part <;> simp [Part.child?] at hpart
    rw [← hpart]
    apply hmem
  · intro hmem
    use .child c, hmem
    rfl

theorem mem_trees {fields t : Fields} :
  t ∈ trees fields ↔ ∃ index, Part.tree index t ∈ parts fields
  := by
  rw [trees, List.mem_filterMap]
  constructor
  · rintro ⟨part, hmem, hpart⟩
    cases part <;> simp [Part.tree?] at hpart
    rename_i index t'
    use index
    rw [← hpart]
    apply hmem
  · rintro ⟨index, hmem⟩
    use .tree index t, hmem
    rfl

/-- The assets of the parts of an array are items of it. -/
theorem asset_mem_itemParts {key : Key} {index : Nat} {items : List Json} {part : Part}
    {t : Fields} (h : part ∈ itemParts key index items) (ht : part.asset? = some t) :
  Json.obj t ∈ items
  := by
  induction items generalizing index with
  | nil => cases h
  | cons v rest ih =>
    cases v with
    | obj fields =>
      rcases List.mem_cons.mp h with rfl | hrest
      · obtain rfl : fields = t := by simpa [Part.asset?] using ht
        simp
      · simp [ih hrest]
    | _ => simp [ih h]

theorem asset_mem_treeParts {index : Nat} {items : List Json} {part : Part} {t : Fields}
    (h : part ∈ treeParts index items) (ht : part.asset? = some t) :
  Json.obj t ∈ items
  := by
  induction items generalizing index with
  | nil => cases h
  | cons v rest ih =>
    rcases List.mem_cons.mp h with rfl | hrest
    · cases v with
      | obj fields =>
        by_cases hc : Entries.contains fields (.text typeKey) = true
        · obtain rfl : fields = t := by simpa [treePart, hc, Part.asset?] using ht
          simp
        · simp [treePart, hc, Part.asset?] at ht
      | _ => simp [treePart, Part.asset?] at ht
    · simp [ih hrest]

/-- The asset of a part is smaller than the value whose part it is. -/
theorem sizeOf_asset_lt {key : Key} {v : Json} {part : Part} {t : Fields}
    (h : part ∈ valueParts key v) (ht : part.asset? = some t) :
  sizeOf t < sizeOf v
  := by
  cases v with
  | obj fields =>
    simp only [valueParts] at h
    split at h
    · obtain rfl := List.mem_singleton.mp h
      obtain rfl : fields = t := by simpa [Part.asset?] using ht
      simp
    · obtain rfl := List.mem_singleton.mp h
      cases ht
  | arr items =>
    have hitem : Json.obj t ∈ items → sizeOf t < sizeOf (Json.arr items) := by
      intro hmem
      have hlt := List.sizeOf_lt_of_mem hmem
      simp only [Json.obj.sizeOf_spec, Json.arr.sizeOf_spec] at hlt ⊢
      omega
    simp only [valueParts] at h
    split at h
    · apply hitem (asset_mem_treeParts h ht)
    · split at h
      · rcases List.mem_cons.mp h with rfl | h
        · cases ht
        · apply hitem (asset_mem_itemParts h ht)
      · obtain rfl := List.mem_singleton.mp h
        cases ht
  | _ =>
    obtain rfl := List.mem_singleton.mp h
    cases ht

/-- The asset of a part is smaller than the asset whose part it is. -/
theorem sizeOf_lt_of_mem_parts {fields t : Fields} {part : Part} (h : part ∈ parts fields)
    (ht : part.asset? = some t) :
  sizeOf t < sizeOf fields
  := by
  obtain ⟨⟨key, v⟩, hmem, hpart⟩ := List.mem_flatMap.mp h
  have hv : sizeOf t < sizeOf v := sizeOf_asset_lt hpart ht
  have hf := List.sizeOf_lt_of_mem hmem
  simp only [Prod.mk.sizeOf_spec] at hf
  omega

/-- Induction on assets: what holds of an asset if it holds of its children and its
disconnected trees holds of every asset. -/
theorem induction {P : Fields → Prop}
    (step : ∀ fields, (∀ part ∈ parts fields, ∀ t, part.asset? = some t → P t) → P fields)
    (fields : Fields) :
  P fields
  := step fields fun _ hmem t ht =>
    have := sizeOf_lt_of_mem_parts hmem ht
    induction step t
termination_by sizeOf fields

/-- Induction on lists of parts: the parts of the asset below the first part come before the
list. -/
theorem parts_induction {P : List Part → Prop} (nil : P [])
    (cons : ∀ part rest, (∀ t, part.asset? = some t → P (parts t)) → P rest → P (part :: rest))
    (ps : List Part) :
  P ps
  := by
  have list : ∀ ps : List Part, (∀ part ∈ ps, ∀ t, part.asset? = some t → P (parts t)) → P ps := by
    intro ps h
    induction ps with
    | nil => apply nil
    | cons part rest ih =>
      apply cons
      · apply h part (by simp)
      · apply ih
        intro part' hmem
        apply h part' (by simp [hmem])
  have asset : ∀ fields, P (parts fields) := by
    intro fields
    induction fields using Asset.induction with
    | step fields ih => apply list (parts fields) ih
  apply list ps
  intro part _ t _
  apply asset t

end Asset

/-! ### Layout part by part -/

namespace Layout

open Asset

theorem Fragment.append_def (a b : Fragment) : a ++ b = a.append b := rfl

theorem Fragment.append_assoc (a b c : Fragment) : a ++ b ++ c = a ++ (b ++ c)
  := by
  simp [append_def, append, Nat.add_assoc]

@[simp] theorem Fragment.empty_append (a : Fragment) : ({} : Fragment) ++ a = a
  := by
  simp [append_def, append]

@[simp] theorem Fragment.append_empty (a : Fragment) : a ++ ({} : Fragment) = a
  := by
  simp [append_def, append]

@[simp] theorem Fragment.plain_append (a b : Fragment) : (a ++ b).plain = a.plain ++ b.plain := rfl

@[simp] theorem Fragment.arrays_append (a b : Fragment) :
  (a ++ b).arrays = a.arrays ++ b.arrays
  := rfl

@[simp] theorem Fragment.children_append (a b : Fragment) :
  (a ++ b).children = a.children + b.children
  := rfl

@[simp] theorem Fragment.nodes_append (a b : Fragment) : (a ++ b).nodes = a.nodes ++ b.nodes := rfl

@[simp] theorem Fragment.edges_append (a b : Fragment) : (a ++ b).edges = a.edges ++ b.edges := rfl

@[simp] theorem Fragment.checks_append (a b : Fragment) :
  (a ++ b).checks = a.checks ++ b.checks
  := rfl

/-- The port that a child of an asset feeds. -/
def childPort (assetType : Json) (label : String) (c : Child) : Json :=
  match c.index with
  | none => Migration.currentOf label c.key
  | some index => .str (Migration.current label (Slot.itemPort assetType c.key index label))

/-- The warnings for a child. -/
def childWarnings (owner : Owner) (c : Child) : List String :=
  match c.index with
  | none => movedWarnings owner c.key
  | some _ => []

/-- The checks for a child. -/
def childChecks (owner : Owner) (c : Child) : List Check :=
  match c.index with
  | none => [.name c.key]
  | some _ => [.ports owner.assetType owner.label, .name c.key]

/-- The node of a child that is laid out after `n` assets, as the child with a number. -/
def childOwner (stem : String) (owner : Owner) (n index : Nat) (c : Child) : Owner :=
  .ofAsset stem n (.child owner.place index) c.key.text? c.fields

/-- The root of a disconnected tree that is laid out after `n` assets. -/
def treeOwner (stem : String) (owner : Owner) (n position : Nat) (fields : Fields) : Owner :=
  .ofAsset stem n (.tree owner.place position) none fields

/-- The fragment of a part of an asset, after `n` assets and `index` children. -/
def placePart (stem : String) (owner : Owner) (n index : Nat) : Part → Fragment
  | .plain key v => .ofPlain key v
  | .record key => { arrays := [key] }
  | .child c =>
    let child := childOwner stem owner n index c
    .ofChild owner child (childPort owner.assetType owner.label c) (childWarnings owner c)
      (childChecks owner c) (placeFields stem child (n + 1) 0 c.fields)
  | .tree position fields =>
    let root := treeOwner stem owner n position fields
    .ofTree root (placeFields stem root (n + 1) 0 fields)
  | .skipped position => skipped position

/-- The fragment of parts of an asset, after `n` assets and `index` children. -/
def placeParts (stem : String) (owner : Owner) (n index : Nat) : List Part → Fragment
  | [] => {}
  | part :: rest =>
    let first := placePart stem owner n index part
    first ++ placeParts stem owner (n + first.nodes.length) (index + first.children) rest

variable (stem : String) (owner : Owner)

theorem placeParts_append (n index : Nat) (before after : List Part) :
  placeParts stem owner n index (before ++ after)
    = placeParts stem owner n index before
      ++ placeParts stem owner (n + (placeParts stem owner n index before).nodes.length)
        (index + (placeParts stem owner n index before).children) after
  := by
  induction before generalizing n index with
  | nil => simp [placeParts]
  | cons part rest ih =>
    simp only [List.cons_append, placeParts, ih, Fragment.append_assoc, Fragment.nodes_append,
      Fragment.children_append, List.length_append, Nat.add_assoc]

theorem placeParts_singleton (n index : Nat) (part : Part) :
  placeParts stem owner n index [part] = placePart stem owner n index part
  := by
  simp [placeParts]

/-- The plain fields of a layout are those of the asset. -/
theorem placeParts_plain (n index : Nat) (ps : List Part) :
  (placeParts stem owner n index ps).plain = ps.filterMap Part.plain?
  := by
  induction ps generalizing n index with
  | nil => rfl
  | cons part rest ih =>
    have hfirst : (placePart stem owner n index part).plain = part.plain?.toList := by
      cases part with
      | plain key v =>
        simp only [placePart, Fragment.ofPlain, Part.plain?]
        split <;> rfl
      | _ => rfl
    rw [placeParts, Fragment.plain_append, hfirst, ih]
    cases h : part.plain? <;> simp [h]

/-- The array fields of a layout are those of the asset. -/
theorem placeParts_arrays (n index : Nat) (ps : List Part) :
  (placeParts stem owner n index ps).arrays = ps.filterMap Part.record?
  := by
  induction ps generalizing n index with
  | nil => rfl
  | cons part rest ih =>
    have hfirst : (placePart stem owner n index part).arrays = part.record?.toList := by
      cases part <;> rfl
    rw [placeParts, Fragment.arrays_append, hfirst, ih]
    cases h : part.record? <;> simp [h]

theorem filterMap_record?_itemParts (key : Key) (index : Nat) (items : List Json) :
  (itemParts key index items).filterMap Part.record? = []
  := by
  induction items generalizing index with
  | nil => rfl
  | cons v rest ih =>
    cases v with
    | obj fields =>
      rw [itemParts, List.filterMap_cons_none rfl]
      apply ih
    | _ => apply ih

/-- Items of an array of assets are laid out part by part. -/
theorem placeItems_eq (n index : Nat) (key : Key) (position : Nat) (items : List Json)
    (h : ∀ v ∈ items, v.isAsset = true) :
  placeItems stem owner n index key position items
    = placeParts stem owner n index (itemParts key position items)
  := by
  induction items generalizing n index position with
  | nil => rfl
  | cons v rest ih =>
    cases v with
    | obj fields =>
      simp only [itemParts, placeItems, placeParts]
      rw [ih _ _ _ fun w hw => h w (by simp [hw])]
      rfl
    | _ => simp [Json.isAsset] at h

/-- Disconnected trees are laid out part by part. -/
theorem placeTrees_eq (n index position : Nat) (items : List Json) :
  placeTrees stem owner n position items
    = placeParts stem owner n index (treeParts position items)
  := by
  induction items generalizing n position with
  | nil => rfl
  | cons v rest ih =>
    have hfirst : placeTree stem owner n position v
        = placePart stem owner n index (treePart position v) := by
      cases v with
      | obj fields =>
        by_cases hc : Entries.contains fields (.text typeKey) = true
        · simp [placeTree, treePart, hc, placePart, treeOwner]
        · simp [placeTree, treePart, hc, placePart]
      | _ => rfl
    have hchildren : (placePart stem owner n index (treePart position v)).children = 0 := by
      rw [← hfirst]
      cases v with
      | obj fields =>
        simp only [placeTree]
        split <;> rfl
      | _ => rfl
    simp only [treeParts, placeTrees, placeParts, hfirst, hchildren, Nat.add_zero]
    rw [ih]

/-- A field is laid out part by part. -/
theorem placeValue_eq (n index : Nat) (key : Key) (v : Json) :
  placeValue stem owner n index key v = placeParts stem owner n index (valueParts key v)
  := by
  cases v with
  | obj fields =>
    simp only [placeValue, valueParts]
    split
    · rw [placeParts_singleton]
      rfl
    · rw [placeParts_singleton]
      rfl
  | arr items =>
    simp only [placeValue, valueParts]
    split
    · apply placeTrees_eq
    · split
      · rename_i ha
        have hitems : ∀ v ∈ items, v.isAsset = true := by
          simp only [Bool.and_eq_true, decide_eq_true_eq] at ha
          apply (Json.isAsset_of_kind ha.2).2
        have harrays : (placeParts stem owner n index (itemParts key 0 items)).arrays = [] := by
          rw [placeParts_arrays]
          apply filterMap_record?_itemParts
        rw [placeItems_eq stem owner n index key 0 items hitems, placeParts]
        simp [placePart, Fragment.append_def, Fragment.append, harrays]
      · rw [placeParts_singleton]
        rfl
  | _ => simp [placeValue, valueParts, placeParts_singleton, placePart]

/-- An asset is laid out part by part. -/
theorem placeFields_eq (n index : Nat) (fields : Fields) :
  placeFields stem owner n index fields = placeParts stem owner n index (parts fields)
  := by
  induction fields generalizing n index with
  | nil => rfl
  | cons f rest ih =>
    obtain ⟨key, v⟩ := f
    simp only [placeFields, parts, List.flatMap_cons, placeParts_append, placeValue_eq, ih]

end Layout

end AssetCanvas
