import AssetCanvas.Proofs.Placement

/-!
# The parts of reordered assets

An asset that is equal to another one up to the order of keys has the same parts in another
order: every part has a counterpart of the same kind, under the same key, with a reordered value
or a reordered asset, `Asset.exists_alike_parts`.  So its node has the same label and the same
array fields, and reordered plain fields, and its children feed the same ports.
-/

namespace AssetCanvas

open Json

/-! ### Reordered values -/

namespace Json.Reordered

/-- A value without parts is not reordered. -/
theorem eq_of_key? {v w : Json} (h : Reordered v w) (hv : v.key?.isSome = true) : w = v
  := by
  induction h with
  | refl v => rfl
  | trans _ _ ih ih' =>
    obtain rfl := ih hv
    apply ih' hv
  | _ => cases hv

/-- What a reordered value is: the value itself, an array of reordered items, or an object. -/
theorem cases_eq {v w : Json} (h : Reordered v w) :
  v = w ∨ (∃ items items', v = .arr items ∧ w = .arr items' ∧ List.Forall₂ Reordered items items')
    ∨ ∃ fields fields', v = .obj fields ∧ w = .obj fields'
  := by
  cases v with
  | arr items =>
    obtain ⟨items', hw, hitems⟩ := h.arr_inv rfl
    right; left
    exact ⟨items, items', rfl, hw, hitems⟩
  | obj fields =>
    obtain ⟨-, fields', hw, -, -⟩ := h.obj_inv rfl
    right; right
    exact ⟨fields, fields', rfl, hw⟩
  | _ =>
    left
    exact (h.eq_of_key? rfl).symm

/-- Reordered objects have the same keys. -/
theorem perm_keys {fields fields' : Fields} (h : Reordered (.obj fields) (.obj fields')) :
  (Entries.keys fields).Perm (Entries.keys fields')
  := by
  obtain ⟨between, fields'', hw, hp, hf⟩ := h.obj_inv rfl
  obtain rfl : fields' = fields'' := by simpa using hw
  have hsame : Entries.keys between = Entries.keys fields' := by
    apply Fault.map_eq_map_of_forall₂
    apply hf.imp
    rintro f f' ⟨hk, -⟩
    apply hk
  rw [← hsame]
  apply hp.map

theorem contains_eq {fields fields' : Fields} (h : Reordered (.obj fields) (.obj fields'))
    (k : Key) :
  Entries.contains fields k = Entries.contains fields' k
  := by
  have hkeys : ∀ m : Fields, Entries.contains m k = (Entries.keys m).any fun k' => k' == k := by
    intro m
    induction m with
    | nil => rfl
    | cons f rest ih =>
      rw [Entries.contains] at ih
      by_cases hk : f.1 == k
      · simp [Entries.contains, Entries.find?, Entries.keys, hk]
      · simp only [Entries.keys] at ih
        simp [Entries.contains, Entries.find?, Entries.keys, hk, ih]
  rw [hkeys, hkeys]
  apply h.perm_keys.any_eq

theorem isAsset_eq {v w : Json} (h : Reordered v w) : v.isAsset = w.isAsset
  := by
  rcases h.cases_eq with rfl | ⟨items, items', rfl, rfl, -⟩ | ⟨fields, fields', rfl, rfl⟩
  · rfl
  · rfl
  · apply h.contains_eq

theorem text?_eq {v w : Json} (h : Reordered v w) : v.text? = w.text?
  := by
  rcases h.cases_eq with rfl | ⟨items, items', rfl, rfl, -⟩ | ⟨fields, fields', rfl, rfl⟩ <;> rfl

theorem key?_eq {v w : Json} (h : Reordered v w) : v.key? = w.key?
  := by
  rcases h.cases_eq with rfl | ⟨items, items', rfl, rfl, -⟩ | ⟨fields, fields', rfl, rfl⟩ <;> rfl

/-- Whether a value has a spelling does not depend on the order of keys. -/
theorem isSpellable_eq {v w : Json} (h : Reordered v w) : v.isSpellable = w.isSpellable
  := by
  induction h with
  | refl v => rfl
  | trans _ _ ih ih' => exact ih.trans ih'
  | permute hperm => simp only [isSpellable, haveSpelling_eq, hperm.all_eq]
  | item before after _ ih => simp only [isSpellable, areSpellable_eq, List.all_append, List.all_cons, ih]
  | field before after key _ ih =>
    simp only [isSpellable, haveSpelling_eq, List.all_append, List.all_cons, ih]

/-- Arrays of reordered items are of one kind. -/
theorem kind_eq {items items' : List Json} (h : List.Forall₂ Reordered items items') :
  (Json.arr items).kind = (Json.arr items').kind
  := by
  have hall : items.all isAsset = items'.all isAsset := by
    induction h with
    | nil => rfl
    | cons hv _ ih => rw [List.all_cons, List.all_cons, hv.isAsset_eq, ih]
  have hempty : items.isEmpty = items'.isEmpty := by
    cases h <;> rfl
  rw [kind, kind, hall, hempty]

end Json.Reordered

/-- A reordered mapping is a mapping. -/
theorem Json.Mapping.reordered {fields fields' : Fields} (h : Mapping fields)
    (hr : Reordered (.obj fields) (.obj fields')) :
  Mapping fields'
  where
  textual f hmem := by
    have hkey : f.1 ∈ Entries.keys fields := by
      rw [hr.perm_keys.mem_iff]
      apply List.mem_map_of_mem hmem
    obtain ⟨f', hmem', hsame⟩ := List.mem_map.mp hkey
    rw [← hsame]
    apply h.textual f' hmem'
  distinct := by
    apply hr.perm_keys.pairwise h.distinct
    intro k k' hk
    rw [BEq.comm, hk]

namespace Asset

/-! ### Counterparts -/

/-- A part and its counterpart in a reordered asset. -/
inductive Part.Alike : Part → Part → Prop
  | plain (key : Key) {v w : Json} : Reordered v w → Alike (.plain key v) (.plain key w)
  | record (key : Key) : Alike (.record key) (.record key)
  | child (key : Key) (index : Option Nat) {t t' : Fields} : Reordered (.obj t) (.obj t') →
    Alike (.child ⟨key, index, t⟩) (.child ⟨key, index, t'⟩)
  | tree (index : Nat) {t t' : Fields} : Reordered (.obj t) (.obj t') →
    Alike (.tree index t) (.tree index t')
  | skipped (index : Nat) : Alike (.skipped index) (.skipped index)

theorem forall₂_itemParts {items items' : List Json} (h : List.Forall₂ Reordered items items')
    (key : Key) (index : Nat) :
  List.Forall₂ Part.Alike (itemParts key index items) (itemParts key index items')
  := by
  induction h generalizing index with
  | nil => apply List.Forall₂.nil
  | @cons v w _ _ hv _ ih =>
    rcases hv.cases_eq with rfl | ⟨_, _, rfl, rfl, -⟩ | ⟨t, t', rfl, rfl⟩
    · cases v with
      | obj t => apply List.Forall₂.cons (.child key (some index) hv) (ih (index + 1))
      | _ => apply ih
    · apply ih
    · apply List.Forall₂.cons (.child key (some index) hv) (ih (index + 1))

theorem alike_treePart {v w : Json} (h : Reordered v w) (index : Nat) :
  (treePart index v).Alike (treePart index w)
  := by
  have hobj : ∀ {t t' : Fields}, Reordered (.obj t) (.obj t') →
      (treePart index (.obj t)).Alike (treePart index (.obj t')) := by
    intro t t' ht
    rw [treePart, treePart, ht.contains_eq]
    split
    · apply Part.Alike.tree index ht
    · apply Part.Alike.skipped
  rcases h.cases_eq with rfl | ⟨_, _, rfl, rfl, -⟩ | ⟨t, t', rfl, rfl⟩
  · cases v with
    | obj t => apply hobj h
    | _ => apply Part.Alike.skipped
  · apply Part.Alike.skipped
  · apply hobj h

theorem forall₂_treeParts {items items' : List Json} (h : List.Forall₂ Reordered items items')
    (index : Nat) :
  List.Forall₂ Part.Alike (treeParts index items) (treeParts index items')
  := by
  induction h generalizing index with
  | nil => apply List.Forall₂.nil
  | cons hv _ ih => apply List.Forall₂.cons (alike_treePart hv index) (ih (index + 1))

/-- A reordered value has the counterparts of the parts of the value. -/
theorem forall₂_valueParts {v w : Json} (h : Reordered v w) (key : Key) :
  List.Forall₂ Part.Alike (valueParts key v) (valueParts key w)
  := by
  have hplain : List.Forall₂ Part.Alike [.plain key v] [.plain key w] :=
    .cons (.plain key h) .nil
  cases v with
  | obj t =>
    obtain ⟨-, t', rfl, -, -⟩ := h.obj_inv rfl
    rw [valueParts, valueParts, h.contains_eq]
    split
    · apply List.Forall₂.cons (.child key none h) .nil
    · apply hplain
  | arr items =>
    obtain ⟨items', rfl, hitems⟩ := h.arr_inv rfl
    rw [valueParts, valueParts, Reordered.kind_eq hitems]
    split
    · apply forall₂_treeParts hitems
    · split
      · apply List.Forall₂.cons (.record key) (forall₂_itemParts hitems key 0)
      · apply hplain
  | _ =>
    obtain rfl := h.eq_of_key? rfl
    apply hplain

/-- The parts of a reordered asset are the counterparts of the parts of the asset, in another
order. -/
theorem exists_alike_parts {fields fields' : Fields} (h : Reordered (.obj fields) (.obj fields')) :
  ∃ between, (parts fields).Perm between ∧ List.Forall₂ Part.Alike between (parts fields')
  := by
  obtain ⟨between, fields'', hw, hp, hf⟩ := h.obj_inv rfl
  obtain rfl : fields' = fields'' := by simpa using hw
  use parts between, hp.flatMap_right _
  clear h hw hp
  induction hf with
  | nil => apply List.Forall₂.nil
  | @cons f f' _ _ hf _ ih =>
    obtain ⟨key, v⟩ := f
    obtain ⟨key', w⟩ := f'
    obtain ⟨hk, hv⟩ := hf
    obtain rfl : key = key' := hk
    rw [parts, parts, List.flatMap_cons, List.flatMap_cons]
    apply List.rel_append (forall₂_valueParts hv key) ih

/-- What is found in parts by their kinds is found in their counterparts. -/
theorem exists_perm_filterMap {α : Type} {R : α → α → Prop} {f : Part → Option α}
    (hf : ∀ part part', part.Alike part' → Option.Rel R (f part) (f part')) {fields fields' : Fields}
    (h : Reordered (.obj fields) (.obj fields')) :
  ∃ between, ((parts fields).filterMap f).Perm between
    ∧ List.Forall₂ R between ((parts fields').filterMap f)
  := by
  obtain ⟨between, hperm, halike⟩ := exists_alike_parts h
  use between.filterMap f, hperm.filterMap f
  apply List.rel_filterMap _ halike
  apply hf

/-! ### Nodes -/

section Reordered

variable {fields fields' : Fields}

/-- Reordered assets have reordered plain fields. -/
theorem reordered_plain (h : Reordered (.obj fields) (.obj fields')) :
  Reordered (.obj (plain fields)) (.obj (plain fields'))
  := by
  obtain ⟨between, hperm, hfields⟩ := exists_perm_filterMap (R := Reordered.Field)
    (f := Part.plain?) (by
      intro part part' hpart
      cases hpart with
      | plain key hv =>
        simp only [Part.plain?]
        split
        · apply Option.Rel.none
        · apply Option.Rel.some ⟨rfl, hv⟩
      | _ => apply Option.Rel.none) h
  apply Reordered.trans (.permute hperm) (.obj hfields)

/-- Reordered assets have the same array fields. -/
theorem perm_arrays (h : Reordered (.obj fields) (.obj fields')) :
  (arrays fields).Perm (arrays fields')
  := by
  obtain ⟨between, hperm, hsame⟩ := exists_perm_filterMap (R := Eq) (f := Part.record?) (by
    intro part part' hpart
    cases hpart with
    | record key => apply Option.Rel.some rfl
    | _ => apply Option.Rel.none) h
  rw [List.forall₂_eq_eq_eq] at hsame
  rw [arrays, arrays, ← hsame]
  apply hperm

/-- Reordered assets have as many children. -/
theorem length_children_eq (h : Reordered (.obj fields) (.obj fields')) :
  (children fields).length = (children fields').length
  := by
  obtain ⟨between, hperm, hsame⟩ := exists_perm_filterMap (R := fun _ _ => True)
    (f := Part.child?) (by
      intro part part' hpart
      cases hpart with
      | child key index _ => apply Option.Rel.some trivial
      | _ => apply Option.Rel.none) h
  rw [children, hperm.length_eq, hsame.length_eq, children]

theorem reordered_field (hm : Mapping fields) (h : Reordered (.obj fields) (.obj fields'))
    (s : String) :
  Reordered (Json.field fields s) (Json.field fields' s)
  := by
  have hrel := hm.find?_reordered h s
  rw [Json.field, Json.field]
  cases hv : Entries.find? fields (.text s) <;> cases hw : Entries.find? fields' (.text s) <;>
    rw [hv, hw] at hrel
  · apply Reordered.refl
  · cases hrel
  · cases hrel
  · cases hrel with
    | some hvw => apply hvw

theorem isVectorConstant_iff (fields : Fields) :
  isVectorConstant fields = true ↔ Json.field fields typeKey = .str "Constant"
    ∧ ∃ value, Json.field fields "Value" = .obj value
      ∧ Entries.contains value (.text typeKey) = false ∧ Entries.contains value (.text "x") = true
  := by
  rw [isVectorConstant]
  split
  · rename_i value htype hvalue
    simp [htype, hvalue]
  · rename_i hnone
    simp only [Bool.false_eq_true, false_iff]
    rintro ⟨htype, value, hvalue, -⟩
    apply hnone value htype hvalue

/-- A reordered constant vector is one. -/
theorem isVectorConstant_of_reordered (hm : Mapping fields)
    (h : Reordered (.obj fields) (.obj fields')) (hv : isVectorConstant fields = true) :
  isVectorConstant fields' = true
  := by
  obtain ⟨htype, value, hvalue, hplain, hx⟩ := (isVectorConstant_iff fields).mp hv
  have htype' := reordered_field hm h typeKey
  have hvalue' := reordered_field hm h "Value"
  rw [htype] at htype'
  rw [hvalue] at hvalue'
  obtain ⟨-, value', hw, -, -⟩ := hvalue'.obj_inv rfl
  rw [hw] at hvalue'
  apply (isVectorConstant_iff fields').mpr
  refine ⟨htype'.eq_of_key? rfl, value', hw, ?_, ?_⟩
  · rw [← hvalue'.contains_eq, hplain]
  · rw [← hvalue'.contains_eq, hx]

/-- Reordered assets under a field have the same label. -/
theorem label_eq (hm : Mapping fields) (h : Reordered (.obj fields) (.obj fields'))
    (parent : Option String) :
  (classify fields parent).label = (classify fields' parent).label
  := by
  have htype := reordered_field hm h typeKey
  have hvector : isVectorConstant fields = isVectorConstant fields' := by
    rw [Bool.eq_iff_iff]
    constructor
    · apply isVectorConstant_of_reordered hm h
    · apply isVectorConstant_of_reordered (hm.reordered h) h.symm
  rw [classify, classify, hvector, typeText, typeText, htype.text?_eq]
  split <;> rfl

theorem reordered_assetType (hm : Mapping fields) (h : Reordered (.obj fields) (.obj fields'))
    (parent : Option String) :
  Reordered (classify fields parent).assetType (classify fields' parent).assetType
  := by
  rw [assetType_classify, assetType_classify]
  apply reordered_field hm h

/-- There is room for a reordered asset if there is room for the asset. -/
theorem Roomy.reordered {policy : LayoutPolicy} {parent : Option String} (hm : Mapping fields)
    (hr : Reordered (.obj fields) (.obj fields')) (h : Roomy policy parent fields) :
  Roomy policy parent fields'
  := by
  obtain ⟨between, hperm, halike⟩ := exists_alike_parts hr
  have hcounterpart : ∀ part' ∈ parts fields', ∃ part ∈ parts fields, part.Alike part' := by
    intro part' hmem
    obtain ⟨part, hpart, hsame⟩ := Fault.exists_of_mem_right halike hmem
    use part, hperm.mem_iff.mpr hpart
  constructor
  · intro i hi
    apply h.rows i
    rw [← children, length_children_eq hr]
    apply hi
  · intro i t' hmem
    obtain ⟨part, hpart, hsame⟩ := hcounterpart _ hmem
    cases hsame with
    | tree _ ht => apply h.trees i _ hpart
  · intro c' hmem hitem
    obtain ⟨part, hpart, hsame⟩ := hcounterpart _ hmem
    cases hsame with
    | child key index ht =>
      have hnameable := h.ports _ hpart hitem
      rw [Slot.nameable] at hnameable ⊢
      rw [← (reordered_assetType hm hr parent).key?_eq, ← label_eq hm hr parent]
      apply hnameable
  · intro c' hmem
    obtain ⟨part, hpart, hsame⟩ := hcounterpart _ hmem
    cases hsame with
    | child key index ht => apply h.names _ hpart

end Reordered

/-- What holds everywhere in an asset holds everywhere in the reordered asset, if it holds of
reordered assets together. -/
theorem Everywhere.reordered {P : Option String → Fields → Prop}
    (hP : ∀ parent t t', Mapping t → Reordered (.obj t) (.obj t') → P parent t → P parent t')
    {parent : Option String} {fields fields' : Fields}
    (hm : Everywhere (fun _ => Mapping) parent fields)
    (hr : Reordered (.obj fields) (.obj fields')) (h : Everywhere P parent fields) :
  Everywhere P parent fields'
  := by
  induction fields using Asset.induction generalizing parent fields' with
  | step fields ih =>
    apply Everywhere.of_parts
    · apply hP parent fields fields' hm.here hr h.here
    · intro part' hmem t' ht'
      obtain ⟨between, hperm, halike⟩ := exists_alike_parts hr
      obtain ⟨part, hpart, hsame⟩ := Fault.exists_of_mem_right halike hmem
      replace hpart := hperm.mem_iff.mpr hpart
      cases hsame with
      | child key index ht =>
        obtain rfl := Option.some.inj ht'
        apply ih _ hpart _ rfl (hm.below hpart rfl) ht (h.below hpart rfl)
      | tree index ht =>
        obtain rfl := Option.some.inj ht'
        apply ih _ hpart _ rfl (hm.below hpart rfl) ht (h.below hpart rfl)
      | _ => cases ht'

/-- A child and its counterpart feed the same port. -/
theorem childPort_congr {assetType assetType' : Json} (h : Reordered assetType assetType')
    (label : String) (key : Key) (index : Option Nat) (t t' : Fields) :
  Layout.childPort assetType label ⟨key, index, t⟩
    = Layout.childPort assetType' label ⟨key, index, t'⟩
  := by
  have hnames : ∀ field, Slot.names assetType field label = Slot.names assetType' field label := by
    intro field
    rcases h.cases_eq with rfl | ⟨_, _, rfl, rfl, -⟩ | ⟨_, _, rfl, rfl⟩ <;> rfl
  cases index with
  | none => rfl
  | some index => simp only [Layout.childPort, Slot.itemPort, hnames]

end Asset

end AssetCanvas
