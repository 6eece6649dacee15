import AssetCanvas.Proofs.Counterparts
import AssetCanvas.Proofs.ExactValues

/-!
# Sameness

`Json.same` compares two values part by part: scalars by their exact values, arrays item by item,
and objects key by key, `Json.same_iff`.  A value without a NaN whose objects have distinct keys is
`Json.NaNFree`.  On these values sameness is an equivalence, and it does not depend on the order of
keys at any depth, `Json.same_reordered`; so it is the equality of the values with sorted keys,
`Json.equal_eq_same`.
-/

namespace AssetCanvas.Json

/-! ### Values without a NaN -/

/-- What a scalar stands for. -/
inductive Scalar where
  | null
  | text (s : String)
  | number (v : Exact)

/-- What a value without parts stands for; a NaN stands for nothing. -/
def scalar? : Json → Option Scalar
  | .null => some .null
  | .str s => some (.text s)
  | v => (v.number?.bind Number.value?).map .number

@[simp] theorem scalar?_arr (items : List Json) : (Json.arr items).scalar? = none := rfl

@[simp] theorem scalar?_obj (fields : Fields) : (Json.obj fields).scalar? = none := rfl

/-- A value whose scalars are no NaN and whose objects have distinct texts as keys, at any depth. -/
inductive NaNFree : Json → Prop
  | scalar {v : Json} (h : v.scalar?.isSome = true) : NaNFree v
  | arr {items : List Json} (h : ∀ v ∈ items, NaNFree v) : NaNFree (.arr items)
  | obj {fields : Fields} (hfields : Mapping fields) (h : ∀ field ∈ fields, NaNFree field.2) :
    NaNFree (.obj fields)

theorem NaNFree.items {items : List Json} (h : NaNFree (.arr items)) : ∀ v ∈ items, NaNFree v
  := by
  cases h with
  | scalar h => simp at h
  | arr h => exact h

theorem NaNFree.mapping {fields : Fields} (h : NaNFree (.obj fields)) : Mapping fields
  := by
  cases h with
  | scalar h => simp at h
  | obj hfields h => exact hfields

theorem NaNFree.values {fields : Fields} (h : NaNFree (.obj fields)) :
  ∀ field ∈ fields, NaNFree field.2
  := by
  cases h with
  | scalar h => simp at h
  | obj hfields h => exact h

/-! ### Keys of mappings -/

namespace Mapping

variable {fields fields' : Fields}

theorem nodup_keys (h : Mapping fields) : (Entries.keys fields).Nodup
  := by
  apply h.distinct.imp
  rintro k k' hk rfl
  simp at hk

/-- A key of a mapping has one value. -/
theorem eq_of_mem (h : Mapping fields) {k : Key} {v w : Json} (hv : (k, v) ∈ fields)
    (hw : (k, w) ∈ fields) :
  v = w
  := by
  obtain ⟨s, hs⟩ := h.textual _ hv
  obtain rfl : k = .text s := hs
  rw [← h.find?_eq_some_iff] at hv hw
  exact Option.some.inj (hv.symm.trans hw)

/-- Two mappings have the same keys if one has those of the other and they have as many fields. -/
theorem mem_keys_of_length (h : Mapping fields) (hlength : fields.length = fields'.length)
    (hsub : ∀ k ∈ Entries.keys fields, k ∈ Entries.keys fields') :
  ∀ k ∈ Entries.keys fields', k ∈ Entries.keys fields
  := by
  have hperm : (Entries.keys fields).Perm (Entries.keys fields') := by
    apply (h.nodup_keys.subperm hsub).perm_of_length_le
    rw [Entries.keys, Entries.keys, List.length_map, List.length_map, hlength]
  intro k hk
  apply hperm.mem_iff.mpr hk

/-- Two mappings with the same keys have as many fields. -/
theorem length_eq (h : Mapping fields) (h' : Mapping fields')
    (hkeys : ∀ k, k ∈ Entries.keys fields ↔ k ∈ Entries.keys fields') :
  fields.length = fields'.length
  := by
  have hperm : (Entries.keys fields).Perm (Entries.keys fields') :=
    (List.perm_ext_iff_of_nodup h.nodup_keys h'.nodup_keys).mpr hkeys
  simpa [Entries.keys] using hperm.length_eq

end Mapping

/-! ### Part by part -/

theorem sameAtom_iff_of_number {v w : Json} {a b : Number} (hv : v.number? = some a)
    (hw : w.number? = some b) :
  sameAtom false v w = true ↔ ∃ s, v.scalar? = some s ∧ w.scalar? = some s
  := by
  have hscalar : ∀ {u : Json} {c : Number}, u.number? = some c →
      u.scalar? = c.value?.map Scalar.number := by
    intro u c hu
    cases u <;> simp [number?] at hu <;> simp [scalar?, number?, hu]
  have hatom : sameAtom false v w = true ↔ a.same b = true := by
    cases v <;> simp [number?] at hv <;> cases w <;> simp [number?] at hw <;> subst hv hw
    case float.float x y =>
      rw [Number.same, beq_iff_eq, Number.compare_float_eq_iff]
      simp [sameAtom]
    all_goals rfl
  rw [hatom, hscalar hv, hscalar hw, Number.same_iff]
  constructor
  · rintro ⟨c, ha, hb⟩
    use .number c
    rw [ha, hb]
    exact ⟨rfl, rfl⟩
  · rintro ⟨s, hs, hs'⟩
    obtain ⟨c, ha, rfl⟩ := Option.map_eq_some_iff.mp hs
    obtain ⟨c', hb, hc⟩ := Option.map_eq_some_iff.mp hs'
    obtain rfl := Scalar.number.inj hc
    exact ⟨c', ha, hb⟩

/-- Two scalars are the same if they stand for the same. -/
theorem sameAtom_iff (v w : Json) :
  sameAtom false v w = true ↔ ∃ s, v.scalar? = some s ∧ w.scalar? = some s
  := by
  cases hv : v.number? with
  | some a =>
    cases hw : w.number? with
    | some b => apply sameAtom_iff_of_number hv hw
    | none =>
      -- a number and a value that is none
      cases v <;> simp [number?] at hv <;> cases w <;> simp [number?] at hw <;>
        simp [sameAtom, scalar?, number?]
  | none =>
    cases v <;> simp [number?] at hv <;> cases w <;> simp [sameAtom, scalar?, number?, eq_comm]

/-- It makes no difference inside an array or an object that a NaN agrees with a NaN. -/
theorem agrees_eq_same {v : Json} (hv : NaNFree v) (nested : Bool) (w : Json) :
  agrees nested v w = v.same w
  := by
  cases v with
  | float x =>
    cases w with
    | float y =>
      have hnan : x.isNaN = false := by
        cases hv with
        | scalar h =>
          rw [← Bool.not_eq_true, ← Number.value?_eq_none_iff]
          intro hnone
          simp [scalar?, number?, hnone] at h
      calc agrees nested (.float x) (.float y)
        _ = (x == y || (nested && x.isNaN && y.isNaN)) := rfl
        _ = (x == y || (false && x.isNaN && y.isNaN)) := by rw [hnan]; simp
        _ = (Json.float x).same (.float y) := rfl
    | _ => rfl
  | arr items => cases w <;> rfl
  | obj fields => cases w <;> rfl
  | _ => cases w <;> rfl

theorem itemsAgree_iff {items : List Json} (h : ∀ v ∈ items, NaNFree v) (items' : List Json) :
  itemsAgree items items' = true ↔ List.Forall₂ (fun v w => v.same w = true) items items'
  := by
  induction items generalizing items' with
  | nil => cases items' <;> simp [itemsAgree]
  | cons v rest ih =>
    cases items' with
    | nil => simp [itemsAgree]
    | cons w rest' =>
      rw [itemsAgree, Bool.and_eq_true, agrees_eq_same (h v (by simp)),
        ih fun v' hmem => h v' (by simp [hmem])]
      simp

theorem fieldsAgree_iff {fields fields' : Fields} (h : NaNFree (.obj fields))
    (h' : Mapping fields') :
  fieldsAgree fields fields' = true
    ↔ ∀ k v, (k, v) ∈ fields → ∃ w, (k, w) ∈ fields' ∧ v.same w = true
  := by
  induction fields with
  | nil => simp [fieldsAgree]
  | cons f rest ih =>
    obtain ⟨k, v⟩ := f
    have hrest : NaNFree (.obj rest) :=
      .obj h.mapping.cons_inv fun f hmem => h.values f (by simp [hmem])
    obtain ⟨s, hs⟩ := h.mapping.textual (k, v) (by simp)
    obtain rfl : k = .text s := hs
    have hfirst : fieldsAgree ((.text s, v) :: rest) fields' = true
        ↔ (∃ w, (.text s, w) ∈ fields' ∧ v.same w = true) ∧ fieldsAgree rest fields' = true := by
      rw [fieldsAgree, Bool.and_eq_true]
      simp only [← h'.find?_eq_some_iff]
      cases Entries.find? fields' (.text s) with
      | none => simp
      | some w => simp [agrees_eq_same (h.values (.text s, v) (by simp))]
    rw [hfirst, ih hrest]
    constructor
    · rintro ⟨hw, hothers⟩ k' v' hmem
      rcases List.mem_cons.mp hmem with heq | hmem
      · obtain ⟨rfl, rfl⟩ := Prod.mk.inj heq
        exact hw
      · apply hothers k' v' hmem
    · intro hall
      use hall _ _ (by simp)
      intro k' v' hmem
      apply hall k' v' (by simp [hmem])

/-- Two mappings are the same if they have the same keys, and the same values under each of
them. -/
theorem same_obj_iff {fields fields' : Fields} (h : NaNFree (.obj fields))
    (h' : NaNFree (.obj fields')) :
  (Json.obj fields).same (.obj fields') = true
    ↔ (∀ k, k ∈ Entries.keys fields ↔ k ∈ Entries.keys fields')
      ∧ ∀ k v w, (k, v) ∈ fields → (k, w) ∈ fields' → v.same w = true
  := by
  have hsame : (Json.obj fields).same (.obj fields') = true
      ↔ fields.length = fields'.length ∧ fieldsAgree fields fields' = true := by
    rw [same, agrees, Bool.and_eq_true, beq_iff_eq]
  rw [hsame, fieldsAgree_iff h h'.mapping]
  constructor
  · rintro ⟨hlength, hagree⟩
    have hsub : ∀ k ∈ Entries.keys fields, k ∈ Entries.keys fields' := by
      intro k hk
      obtain ⟨⟨k, v⟩, hmem, rfl⟩ := List.mem_map.mp hk
      obtain ⟨w, hw, -⟩ := hagree k v hmem
      exact List.mem_map.mpr ⟨(k, w), hw, rfl⟩
    refine ⟨fun k => ⟨hsub k, h.mapping.mem_keys_of_length hlength hsub k⟩, ?_⟩
    intro k v w hv hw
    obtain ⟨w', hw', hvw⟩ := hagree k v hv
    rwa [h'.mapping.eq_of_mem hw hw']
  · rintro ⟨hkeys, hvalues⟩
    use h.mapping.length_eq h'.mapping hkeys
    intro k v hv
    obtain ⟨⟨k', w⟩, hw, hk⟩ := List.mem_map.mp ((hkeys k).mp (List.mem_map_of_mem hv))
    obtain rfl : k' = k := hk
    exact ⟨w, hw, hvalues _ v w hv hw⟩

/-- Two values that are the same part by part: two scalars that stand for the same, two arrays
with the same items in turn, or two objects with the same keys and the same values under each. -/
inductive Partwise : Json → Json → Prop
  | scalar {v w : Json} {s : Scalar} (hv : v.scalar? = some s) (hw : w.scalar? = some s) :
    Partwise v w
  | arr {items items' : List Json}
    (h : List.Forall₂ (fun v w => v.same w = true) items items') :
    Partwise (.arr items) (.arr items')
  | obj {fields fields' : Fields}
    (hkeys : ∀ k, k ∈ Entries.keys fields ↔ k ∈ Entries.keys fields')
    (hvalues : ∀ k v w, (k, v) ∈ fields → (k, w) ∈ fields' → v.same w = true) :
    Partwise (.obj fields) (.obj fields')

namespace Partwise

theorem scalar_inv {v w : Json} (h : Partwise v w) (hv : v.scalar?.isSome = true) :
  w.scalar? = v.scalar?
  := by
  cases h with
  | scalar hs hs' => rw [hs, hs']
  | arr _ => simp at hv
  | obj _ _ => simp at hv

theorem arr_inv {items : List Json} {w : Json} (h : Partwise (.arr items) w) :
  ∃ items', w = .arr items' ∧ List.Forall₂ (fun v w => v.same w = true) items items'
  := by
  cases h with
  | scalar hs _ => simp at hs
  | arr h => exact ⟨_, rfl, h⟩

theorem obj_inv {fields : Fields} {w : Json} (h : Partwise (.obj fields) w) :
  ∃ fields', w = .obj fields' ∧ (∀ k, k ∈ Entries.keys fields ↔ k ∈ Entries.keys fields')
    ∧ ∀ k v w, (k, v) ∈ fields → (k, w) ∈ fields' → v.same w = true
  := by
  cases h with
  | scalar hs _ => simp at hs
  | obj hkeys hvalues => exact ⟨_, rfl, hkeys, hvalues⟩

end Partwise

/-- Sameness is decided part by part. -/
theorem same_iff {v w : Json} (hv : NaNFree v) (hw : NaNFree w) :
  v.same w = true ↔ Partwise v w
  := by
  have hatom : sameAtom false v w = true → Partwise v w := by
    rw [sameAtom_iff]
    rintro ⟨s, hs, hs'⟩
    exact .scalar hs hs'
  constructor
  · intro h
    cases v with
    | arr items =>
      cases w with
      | arr items' => exact .arr ((itemsAgree_iff hv.items items').mp h)
      | _ => exact hatom h
    | obj fields =>
      cases w with
      | obj fields' =>
        obtain ⟨hkeys, hvalues⟩ := (same_obj_iff hv hw).mp h
        exact .obj hkeys hvalues
      | _ => exact hatom h
    | _ => cases w <;> exact hatom h
  · intro h
    cases h with
    | @scalar _ _ s hs hs' =>
      have hsame : sameAtom false v w = true := (sameAtom_iff v w).mpr ⟨s, hs, hs'⟩
      cases v with
      | arr items => simp at hs
      | obj fields => simp at hs
      | _ => cases w <;> exact hsame
    | @arr items items' h => exact (itemsAgree_iff hv.items items').mpr h
    | obj hkeys hvalues => exact (same_obj_iff hv hw).mpr ⟨hkeys, hvalues⟩

/-! ### Equivalence -/

theorem same_refl {v : Json} (hv : NaNFree v) : v.same v = true
  := by
  induction hv with
  | @scalar v h =>
    obtain ⟨s, hs⟩ := Option.isSome_iff_exists.mp h
    apply (same_iff (.scalar h) (.scalar h)).mpr (.scalar hs hs)
  | @arr items h ih =>
    apply (same_iff (.arr h) (.arr h)).mpr
    exact .arr (List.forall₂_same.mpr ih)
  | @obj fields hfields h ih =>
    apply (same_iff (.obj hfields h) (.obj hfields h)).mpr
    apply Partwise.obj fun k => Iff.rfl
    intro k v w hv hw
    rw [← hfields.eq_of_mem hv hw]
    apply ih _ hv

theorem same_symm {v w : Json} (hv : NaNFree v) (hw : NaNFree w) (h : v.same w = true) :
  w.same v = true
  := by
  induction hv generalizing w with
  | @scalar v hscalar =>
    obtain ⟨s, hs⟩ := Option.isSome_iff_exists.mp hscalar
    have hw' := ((same_iff (.scalar hscalar) hw).mp h).scalar_inv hscalar
    exact (same_iff hw (.scalar hscalar)).mpr (.scalar (hw'.trans hs) hs)
  | @arr items hitems ih =>
    obtain ⟨items', rfl, hall⟩ := ((same_iff (.arr hitems) hw).mp h).arr_inv
    apply (same_iff hw (.arr hitems)).mpr
    apply Partwise.arr
    apply (Fault.forall₂_mem hall).flip.imp
    rintro b a ⟨ha, hb, hab⟩
    apply ih a ha (hw.items b hb) hab
  | @obj fields hfields hvalues ih =>
    obtain ⟨fields', rfl, hkeys, hall⟩ := ((same_iff (.obj hfields hvalues) hw).mp h).obj_inv
    apply (same_iff hw (.obj hfields hvalues)).mpr
    apply Partwise.obj fun k => (hkeys k).symm
    intro k b a hb ha
    apply ih (k, a) ha (hw.values _ hb) (hall k a b ha hb)

theorem same_trans {u v w : Json} (hu : NaNFree u) (hv : NaNFree v) (hw : NaNFree w)
    (h : u.same v = true) (h' : v.same w = true) :
  u.same w = true
  := by
  induction hu generalizing v w with
  | @scalar u hscalar =>
    obtain ⟨s, hs⟩ := Option.isSome_iff_exists.mp hscalar
    have hv' := ((same_iff (.scalar hscalar) hv).mp h).scalar_inv hscalar
    have hw' := ((same_iff hv hw).mp h').scalar_inv (by rw [hv', hscalar])
    exact (same_iff (.scalar hscalar) hw).mpr (.scalar hs ((hw'.trans hv').trans hs))
  | @arr items hitems ih =>
    obtain ⟨items', rfl, hall⟩ := ((same_iff (.arr hitems) hv).mp h).arr_inv
    obtain ⟨items'', rfl, hall'⟩ := ((same_iff hv hw).mp h').arr_inv
    apply (same_iff (.arr hitems) hw).mpr
    apply Partwise.arr
    apply Fault.forall₂_comp (Fault.forall₂_mem hall) (Fault.forall₂_mem hall')
    rintro a b c ⟨ha, hb, hab⟩ ⟨-, hc, hbc⟩
    apply ih a ha (hv.items b hb) (hw.items c hc) hab hbc
  | @obj fields hfields hvalues ih =>
    obtain ⟨fields', rfl, hkeys, hall⟩ := ((same_iff (.obj hfields hvalues) hv).mp h).obj_inv
    obtain ⟨fields'', rfl, hkeys', hall'⟩ := ((same_iff hv hw).mp h').obj_inv
    apply (same_iff (.obj hfields hvalues) hw).mpr
    apply Partwise.obj fun k => (hkeys k).trans (hkeys' k)
    intro k a c ha hc
    -- the value of the second object under the key
    obtain ⟨⟨k', b⟩, hb, hk⟩ := List.mem_map.mp ((hkeys k).mp (List.mem_map_of_mem ha))
    obtain rfl : k' = k := hk
    apply ih _ ha (hv.values _ hb) (hw.values _ hc) (hall _ a b ha hb) (hall' _ b c hb hc)

/-! ### The order of keys -/

/-- Where one item is put in the place of another, every item is the new one or an old one. -/
theorem mem_replaced {α : Type} {before after : List α} {a b c : α}
    (h : c ∈ before ++ b :: after) :
  c = b ∨ c ∈ before ++ a :: after
  := by
  simp only [List.mem_append, List.mem_cons] at h ⊢
  tauto

theorem forall₂_same_refl {items : List Json} (h : ∀ v ∈ items, NaNFree v) :
  List.Forall₂ (fun v w => v.same w = true) items items
  := List.forall₂_same.mpr fun v hv => same_refl (h v hv)

/-- A value that is reordered has no NaN either and is the same. -/
theorem Reordered.nanFree_same {v w : Json} (h : Reordered v w) (hv : NaNFree v) :
  NaNFree w ∧ v.same w = true
  := by
  induction h with
  | refl v => exact ⟨hv, same_refl hv⟩
  | trans _ _ ih ih' =>
    obtain ⟨hw, huw⟩ := ih hv
    obtain ⟨hu, hwu⟩ := ih' hw
    exact ⟨hu, same_trans hv hw hu huw hwu⟩
  | @permute fields fields' hp =>
    have hfree : NaNFree (.obj fields') :=
      .obj (hv.mapping.permute hp) fun f hmem => hv.values f (hp.mem_iff.mpr hmem)
    use hfree
    apply (same_iff hv hfree).mpr
    apply Partwise.obj fun k => (hp.map Prod.fst).mem_iff
    intro k a b ha hb
    rw [← hv.mapping.eq_of_mem ha (hp.mem_iff.mpr hb)]
    apply same_refl (hv.values _ ha)
  | @item before after v w h ih =>
    obtain ⟨hw, hvw⟩ := ih (hv.items v (by simp))
    have hfree : NaNFree (.arr (before ++ w :: after)) := by
      apply NaNFree.arr
      intro u hu
      rcases mem_replaced hu with rfl | hu
      · exact hw
      · apply hv.items u hu
    use hfree
    apply (same_iff hv hfree).mpr
    apply Partwise.arr
    apply List.rel_append
    · exact forall₂_same_refl fun u hu => hv.items u (by simp [hu])
    · exact .cons hvw (forall₂_same_refl fun u hu => hv.items u (by simp [hu]))
  | @field before after key v w h ih =>
    obtain ⟨hw, hvw⟩ := ih (hv.values (key, v) (by simp))
    have hfree : NaNFree (.obj (before ++ (key, w) :: after)) := by
      apply NaNFree.obj (hv.mapping.reordered (.field before after key h))
      intro f hf
      rcases mem_replaced (a := (key, v)) hf with rfl | hf
      · exact hw
      · apply hv.values f hf
    use hfree
    apply (same_iff hv hfree).mpr
    apply Partwise.obj
    · intro k
      simp [Entries.keys]
    · intro k a b ha hb
      rcases mem_replaced (a := (key, v)) hb with heq | hb
      · obtain ⟨rfl, rfl⟩ := Prod.mk.inj heq
        rw [hv.mapping.eq_of_mem ha (List.mem_append_right before List.mem_cons_self)]
        exact hvw
      · rw [← hv.mapping.eq_of_mem ha hb]
        apply same_refl (hv.values _ ha)

/-- Sameness does not depend on the order of keys, at any depth. -/
theorem same_reordered {v v' w w' : Json} (hv : NaNFree v) (hw : NaNFree w) (h : Reordered v v')
    (h' : Reordered w w') :
  v'.same w' = v.same w
  := by
  obtain ⟨hfree, hsame⟩ := h.nanFree_same hv
  obtain ⟨hfree', hsame'⟩ := h'.nanFree_same hw
  rw [Bool.eq_iff_iff]
  constructor
  · intro hvw
    apply same_trans hv hfree hw hsame
    apply same_trans hfree hfree' hw hvw (same_symm hw hfree' hsame')
  · intro hvw
    apply same_trans hfree hv hfree' (same_symm hv hfree hsame)
    apply same_trans hv hw hfree' hvw hsame'

/-! ### Sorted keys -/

mutual

/-- A sorted value differs only in the order of keys. -/
theorem reordered_sorted : ∀ v : Json, Reordered v v.sorted
  | .arr items => .arr (forall₂_sortedItems items)
  | .obj fields =>
    .trans (.obj (forall₂_sortedFields fields)) (.permute (List.mergeSort_perm _ _).symm)
  | .null => .refl _
  | .bool _ => .refl _
  | .int _ => .refl _
  | .float _ => .refl _
  | .str _ => .refl _

theorem forall₂_sortedItems : ∀ items : List Json,
    List.Forall₂ Reordered items (sortedItems items)
  | [] => .nil
  | v :: rest => .cons (reordered_sorted v) (forall₂_sortedItems rest)

theorem forall₂_sortedFields : ∀ fields : List (Key × Json),
    List.Forall₂ Reordered.Field fields (sortedFields fields)
  | [] => .nil
  | (_, v) :: rest => .cons ⟨rfl, reordered_sorted v⟩ (forall₂_sortedFields rest)

end

/-- Sorting the keys of both values first makes no difference. -/
theorem equal_eq_same {v w : Json} (hv : NaNFree v) (hw : NaNFree w) : v.equal w = v.same w
  := same_reordered hv hw (reordered_sorted v) (reordered_sorted w)

/-! ### Equality up to the order of keys -/

/-- On values without a NaN, equality of the sorted values is sameness, it is decided part by part,
it is an equivalence, and it does not depend on the order of keys. -/
theorem same_up_to_order :
  (∀ v w : Json, NaNFree v → NaNFree w →
      v.equal w = v.same w ∧ (v.equal w = true ↔ Partwise v w))
    ∧ Equivalence (fun v w : {v : Json // NaNFree v} => v.val.equal w.val = true)
    ∧ ∀ v v' w w' : Json, NaNFree v → NaNFree w → Reordered v v' → Reordered w w' →
      v'.equal w' = v.equal w
  := by
  refine ⟨?_, ⟨?_, ?_, ?_⟩, ?_⟩
  · intro v w hv hw
    have hequal := equal_eq_same hv hw
    exact ⟨hequal, by rw [hequal, same_iff hv hw]⟩
  · rintro ⟨v, hv⟩
    rw [equal_eq_same hv hv]
    exact same_refl hv
  · rintro ⟨v, hv⟩ ⟨w, hw⟩ h
    rw [equal_eq_same hv hw] at h
    rw [equal_eq_same hw hv]
    exact same_symm hv hw h
  · rintro ⟨u, hu⟩ ⟨v, hv⟩ ⟨w, hw⟩ h h'
    rw [equal_eq_same hu hv] at h
    rw [equal_eq_same hv hw] at h'
    rw [equal_eq_same hu hw]
    exact same_trans hu hv hw h h'
  · intro v v' w w' hv hw h h'
    rw [equal_eq_same hv hw, equal_eq_same (h.nanFree_same hv).1 (h'.nanFree_same hw).1]
    exact same_reordered hv hw h h'

/-- Numbers of three kinds. -/
def ofKinds : Fields := [("Type", .str "Sum"), ("Inputs", .arr [.int 2, .bool true, .float 2.0])]

/-- The same numbers of other kinds. -/
def otherKinds : Fields := [("Type", .str "Sum"), ("Inputs", .arr [.float 2.0, .int 1, .int 2])]

theorem value?_two : (Number.float 2.0).value? = some (.finite 2)
  := by
  have hparts : Binary64.parts? 2.0 = some (4503599627370496, -51) := rfl
  rw [Number.value?, hparts]
  norm_num

/-- Three scalars in an object of two fields hold no NaN. -/
theorem nanFree_inputs {a b c : Json} (ha : a.scalar?.isSome = true) (hb : b.scalar?.isSome = true)
    (hc : c.scalar?.isSome = true) :
  NaNFree (.obj [("Type", .str "Sum"), ("Inputs", .arr [a, b, c])])
  := by
  apply NaNFree.obj
  · constructor
    · simp
    · simp [Entries.Distinct, Entries.keys]
  · intro field hmem
    simp only [List.mem_cons, List.not_mem_nil, or_false] at hmem
    rcases hmem with rfl | rfl
    · exact .scalar rfl
    · apply NaNFree.arr
      intro v hv
      simp only [List.mem_cons, List.not_mem_nil, or_false] at hv
      rcases hv with rfl | rfl | rfl
      · exact .scalar ha
      · exact .scalar hb
      · exact .scalar hc

/-- Numbers with the same values are the same, whatever their kinds and the order of keys. -/
theorem same_up_to_order_kinds :
  NaNFree (.obj ofKinds) ∧ NaNFree (.obj otherKinds)
    ∧ (Json.obj ofKinds.reverse).equal (.obj otherKinds) = true
  := by
  have hleft : NaNFree (.obj ofKinds) := nanFree_inputs rfl rfl rfl
  have hright : NaNFree (.obj otherKinds) := nanFree_inputs rfl rfl rfl
  have hscalar : ∀ {v w : Json} (s : Scalar), v.scalar? = some s → w.scalar? = some s →
      v.same w = true := by
    intro v w s hv hw
    have hfree : NaNFree v := .scalar (by simp [hv])
    have hfree' : NaNFree w := .scalar (by simp [hw])
    exact (same_iff hfree hfree').mpr (.scalar hv hw)
  have htwo : (Json.float 2.0).scalar? = some (.number (.finite 2)) := by
    change (Number.float 2.0).value?.map Scalar.number = _
    rw [value?_two]
    rfl
  refine ⟨hleft, hright, ?_⟩
  rw [same_up_to_order.2.2 _ _ _ _ hleft hright (.permute ofKinds.reverse_perm.symm) (.refl _)]
  apply (same_up_to_order.1 _ _ hleft hright).2.mpr
  apply Partwise.obj
  · simp [ofKinds, otherKinds, Entries.keys]
  · intro k v w hv hw
    simp only [ofKinds, otherKinds, List.mem_cons, Prod.mk.injEq, List.not_mem_nil, or_false]
      at hv hw
    rcases hv with ⟨rfl, rfl⟩ | ⟨rfl, rfl⟩
    · obtain ⟨-, rfl⟩ | ⟨hkey, -⟩ := hw
      · apply hscalar (.text "Sum") rfl rfl
      · simp at hkey
    · obtain ⟨hkey, -⟩ | ⟨-, rfl⟩ := hw
      · simp at hkey
      · have hitems := hleft.values ("Inputs", .arr [.int 2, .bool true, .float 2.0])
          (by simp [ofKinds])
        have hitems' := hright.values ("Inputs", .arr [.float 2.0, .int 1, .int 2])
          (by simp [otherKinds])
        apply (same_iff hitems hitems').mpr
        apply Partwise.arr
        refine .cons (hscalar _ rfl htwo) (.cons (hscalar _ rfl rfl) (.cons ?_ .nil))
        apply hscalar _ htwo rfl

end AssetCanvas.Json
