import AssetCanvas.Json
import AssetCanvas.Proofs.Entries
import AssetCanvas.Proofs.Fault
import Mathlib.Data.List.Perm.Basic

/-!
# Equality up to the order of keys

`Json.Reordered` relates two values that differ only in the order of the keys of their
objects, at any depth; unlike `Json.same` it keeps the spelling of numbers.  A list of fields
is a `Json.Mapping` if its keys are distinct texts.  Two mappings are reordered exactly if they
have reordered values under every key, `Json.Mapping.reordered_iff`.
-/

namespace AssetCanvas

/-! ### Textual keys -/

/-- A key that equals a text is the text. -/
theorem Key.eq_of_beq_text {k : Key} {s : String} (h : (k == .text s) = true) : k = .text s
  := by
  rw [Key.beq_iff] at h
  cases k with
  | text t => simpa [Key.value] using h
  | float x =>
    simp only [Key.value] at h
    split at h <;> cases h
  | _ => cases h

theorem Key.contains_text_iff {keys : List Key} {s : String} :
  keys.contains (.text s) = true ↔ .text s ∈ keys
  := by
  rw [List.contains_iff_exists_mem_beq]
  constructor
  · rintro ⟨k, hmem, hk⟩
    rw [BEq.comm] at hk
    rw [← Key.eq_of_beq_text hk]
    apply hmem
  · intro hmem
    use .text s, hmem
    simp

namespace Json

/-- Fields whose keys are texts, each of them once. -/
structure Mapping (fields : Fields) : Prop where
  textual : ∀ field ∈ fields, ∃ s, field.1 = .text s
  distinct : Entries.Distinct fields

/-- Equality up to the order of keys: the least preorder that permutes the fields of an object
and applies to every item and every field. -/
inductive Reordered : Json → Json → Prop
  | refl (v : Json) : Reordered v v
  | trans {u v w : Json} : Reordered u v → Reordered v w → Reordered u w
  | permute {fields fields' : Fields} :
    fields.Perm fields' → Reordered (.obj fields) (.obj fields')
  | item (before after : List Json) {v w : Json} :
    Reordered v w → Reordered (.arr (before ++ v :: after)) (.arr (before ++ w :: after))
  | field (before after : Fields) (key : Key) {v w : Json} :
    Reordered v w →
      Reordered (.obj (before ++ (key, v) :: after)) (.obj (before ++ (key, w) :: after))

/-- Two fields with the same key and reordered values. -/
def Reordered.Field (f f' : Key × Json) : Prop := f.1 = f'.1 ∧ Reordered f.2 f'.2

/-! ### Mappings -/

namespace Mapping

variable {fields : Fields}

theorem sublist {fields' : Fields} (h : Mapping fields) (hs : fields'.Sublist fields) :
  Mapping fields'
  where
  textual field hmem := h.textual field (hs.subset hmem)
  distinct := h.distinct.sublist hs

theorem cons_inv {field : Key × Json} (h : Mapping (field :: fields)) : Mapping fields
  := h.sublist (List.sublist_cons_self field fields)

theorem cons (h : Mapping fields) (s : String) (v : Json)
    (hfresh : ∀ f ∈ fields, (f.1 == .text s) = false) :
  Mapping ((.text s, v) :: fields)
  where
  textual f hmem := by
    rcases List.mem_cons.mp hmem with rfl | hmem
    · use s
    · apply h.textual f hmem
  distinct := by
    apply Entries.distinct_cons.mpr
    use fun f hmem => BEq.comm.trans (hfresh f hmem)
    apply h.distinct

/-- Under a text of a mapping stands what is found there. -/
theorem find?_eq_some_iff (h : Mapping fields) {s : String} {v : Json} :
  Entries.find? fields (.text s) = some v ↔ (Key.text s, v) ∈ fields
  := by
  constructor
  · intro hf
    obtain ⟨k, hk, hmem⟩ := Entries.mem_of_find? hf
    obtain ⟨t, ht⟩ := h.textual _ hmem
    obtain rfl : k = .text t := ht
    rw [Key.text_beq_text, decide_eq_true_iff] at hk
    rw [← hk]
    apply hmem
  · intro hmem
    apply h.distinct.find?_of_mem hmem

theorem nodup (h : Mapping fields) : fields.Nodup
  := by
  apply List.Pairwise.imp _ (List.pairwise_map.mp h.distinct)
  rintro f f' hf rfl
  simp at hf

theorem insert (h : Mapping fields) (s : String) (v : Json) :
  Mapping (Entries.insert fields (.text s) v)
  where
  textual field hmem := by
    have hkey : field.1 ∈ Entries.keys (Entries.insert fields (.text s) v) :=
      List.mem_map_of_mem hmem
    rw [Entries.keys_insert] at hkey
    have hold : field.1 ∈ Entries.keys fields → ∃ s, field.1 = .text s := by
      intro hk
      obtain ⟨field', hmem', hk'⟩ := List.mem_map.mp hk
      rw [← hk']
      apply h.textual field' hmem'
    by_cases hc : Entries.contains fields (.text s) = true
    · rw [if_pos hc] at hkey
      apply hold hkey
    · rw [if_neg hc, List.mem_append, List.mem_singleton] at hkey
      rcases hkey with hk | hk
      · apply hold hk
      · use s
  distinct := h.distinct.insert (.text s) v

theorem permute (h : Mapping fields) {fields' : Fields} (hp : fields.Perm fields') :
  Mapping fields'
  where
  textual field hmem := h.textual field (hp.mem_iff.mpr hmem)
  distinct := by
    apply (hp.map Prod.fst).pairwise h.distinct
    intro k k' hk
    rw [BEq.comm, hk]

end Mapping

/-! ### Congruence -/

namespace Reordered

theorem symm {v w : Json} (h : Reordered v w) : Reordered w v
  := by
  induction h with
  | refl v => apply refl
  | trans _ _ ih ih' => apply trans ih' ih
  | permute hp => apply permute hp.symm
  | item before after _ ih => apply item before after ih
  | field before after key _ ih => apply field before after key ih

/-- Arrays with reordered items are reordered. -/
theorem arr {items items' : List Json} (h : List.Forall₂ Reordered items items') :
  Reordered (.arr items) (.arr items')
  := by
  suffices ∀ before : List Json, Reordered (.arr (before ++ items)) (.arr (before ++ items')) by
    apply this []
  induction h with
  | nil => exact fun before => refl _
  | @cons v w rest rest' hv _ ih =>
    intro before
    apply trans (item before rest hv)
    have h' := ih (before ++ [w])
    simpa using h'

/-- Objects with the same keys in the same order and reordered values are reordered. -/
theorem obj {fields fields' : Fields} (h : List.Forall₂ Reordered.Field fields fields') :
  Reordered (.obj fields) (.obj fields')
  := by
  suffices ∀ before : Fields, Reordered (.obj (before ++ fields)) (.obj (before ++ fields')) by
    apply this []
  induction h with
  | nil => exact fun before => refl _
  | @cons f f' rest rest' hf _ ih =>
    intro before
    obtain ⟨k, v⟩ := f
    obtain ⟨k', w⟩ := f'
    obtain ⟨hk, hv⟩ := hf
    obtain rfl : k = k' := hk
    apply trans (field before rest k hv)
    have h' := ih (before ++ [(k, w)])
    simpa using h'

/-! ### Inversion -/

theorem field_refl (f : Key × Json) : Reordered.Field f f := ⟨rfl, refl f.2⟩

theorem field_trans {f f' f'' : Key × Json} (h : Reordered.Field f f')
    (h' : Reordered.Field f' f'') :
  Reordered.Field f f''
  := ⟨h.1.trans h'.1, trans h.2 h'.2⟩

theorem forall₂_refl (items : List Json) : List.Forall₂ Reordered items items
  := by
  apply List.forall₂_same.mpr
  intro v _
  apply refl

theorem forall₂_field_refl (fields : Fields) : List.Forall₂ Reordered.Field fields fields
  := by
  apply List.forall₂_same.mpr
  intro f _
  apply field_refl

/-- What a reordered value of an array looks like. -/
theorem arr_inv {v w : Json} (h : Reordered v w) :
    ∀ {items : List Json}, v = .arr items →
      ∃ items', w = .arr items' ∧ List.Forall₂ Reordered items items'
  := by
  induction h with
  | refl v => exact fun {items} hv => ⟨items, hv, forall₂_refl items⟩
  | trans _ _ ih ih' =>
    intro items hv
    obtain ⟨items', hw, hitems⟩ := ih hv
    obtain ⟨items'', hw', hitems'⟩ := ih' hw
    use items'', hw'
    apply Fault.forall₂_comp hitems hitems' fun _ _ _ => trans
  | permute _ => exact fun hv => nomatch hv
  | field _ _ _ _ _ => exact fun hv => nomatch hv
  | @item before after v w hvw _ =>
    intro items hv
    obtain rfl : before ++ v :: after = items := by simpa using hv
    use before ++ w :: after, rfl
    apply List.rel_append (forall₂_refl before)
    apply List.Forall₂.cons hvw (forall₂_refl after)

/-- What a reordered value of an object looks like: the fields are permuted, and then their
values are reordered. -/
theorem obj_inv {v w : Json} (h : Reordered v w) :
    ∀ {fields : Fields}, v = .obj fields →
      ∃ between fields', w = .obj fields' ∧ fields.Perm between ∧
        List.Forall₂ Reordered.Field between fields'
  := by
  induction h with
  | refl v => exact fun {fields} hv => ⟨fields, fields, hv, .refl _, forall₂_field_refl fields⟩
  | trans _ _ ih ih' =>
    intro fields hv
    obtain ⟨between, fields', hw, hp, hf⟩ := ih hv
    obtain ⟨between', fields'', hw', hp', hf'⟩ := ih' hw
    have hcomp : Relation.Comp (List.Forall₂ Reordered.Field) List.Perm between between' :=
      ⟨fields', hf, hp'⟩
    rw [List.forall₂_comp_perm_eq_perm_comp_forall₂] at hcomp
    obtain ⟨between'', hmid, hfields⟩ := hcomp
    use between'', fields'', hw', hp.trans hmid
    apply Fault.forall₂_comp hfields hf' fun _ _ _ => field_trans
  | @permute fields₀ fields' hp =>
    intro fields hv
    obtain rfl : fields₀ = fields := by simpa using hv
    use fields', fields', rfl, hp
    apply forall₂_field_refl
  | item _ _ _ _ => exact fun hv => nomatch hv
  | @field before after key v w hvw _ =>
    intro fields hv
    obtain rfl : before ++ (key, v) :: after = fields := by simpa using hv
    use before ++ (key, v) :: after, before ++ (key, w) :: after, rfl, .refl _
    apply List.rel_append (forall₂_field_refl before)
    apply List.Forall₂.cons _ (forall₂_field_refl after)
    exact ⟨rfl, hvw⟩

end Reordered

/-! ### Mappings up to the order of keys -/

/-- Fields with the same keys and reordered values, in the same order, have reordered values
under every key. -/
theorem Reordered.find?_of_forall₂ {fields fields' : Fields}
    (h : List.Forall₂ Reordered.Field fields fields') (k : Key) :
  Option.Rel Reordered (Entries.find? fields k) (Entries.find? fields' k)
  := by
  induction h with
  | nil => apply Option.Rel.none
  | @cons f f' rest rest' hf _ ih =>
    obtain ⟨hk, hv⟩ := hf
    by_cases h : f.1 == k
    · have h' : (f'.1 == k) = true := by rwa [← hk]
      simp only [Entries.find?, h, h', if_true]
      apply Option.Rel.some hv
    · have h' : ¬(f'.1 == k) = true := by rwa [← hk]
      simp only [Entries.find?, if_neg h, if_neg h']
      apply ih

theorem find?_insert_of_ne (fields : Fields) {s s' : String} (hne : s' ≠ s) (v : Json) :
  Entries.find? (Entries.insert fields (.text s) v) (.text s') = Entries.find? fields (.text s')
  := by
  rw [Entries.find?_insert, Key.text_beq_text, decide_eq_false (Ne.symm hne)]
  rfl

/-- Permuting a mapping does not change what is found. -/
theorem Mapping.find?_of_perm {fields fields' : Fields} (h : Mapping fields)
    (hp : fields.Perm fields') (s : String) :
  Entries.find? fields (.text s) = Entries.find? fields' (.text s)
  := by
  apply Option.ext
  intro v
  rw [h.find?_eq_some_iff, (h.permute hp).find?_eq_some_iff, hp.mem_iff]

/-- A mapping that is reordered has reordered values under every key. -/
theorem Mapping.find?_reordered {fields fields' : Fields} (h : Mapping fields)
    (hr : Reordered (.obj fields) (.obj fields')) (s : String) :
  Option.Rel Reordered (Entries.find? fields (.text s)) (Entries.find? fields' (.text s))
  := by
  obtain ⟨between, fields'', hw, hp, hf⟩ := hr.obj_inv rfl
  obtain rfl : fields' = fields'' := by simpa using hw
  rw [h.find?_of_perm hp]
  apply Reordered.find?_of_forall₂ hf

theorem Mapping.exists_of_reordered {fields fields' : Fields} (h : Mapping fields)
    (hr : Reordered (.obj fields) (.obj fields')) {s : String} {v : Json}
    (hv : Entries.find? fields (.text s) = some v) :
  ∃ w, Entries.find? fields' (.text s) = some w ∧ v.Reordered w
  := by
  have hrel := h.find?_reordered hr s
  generalize Entries.find? fields' (.text s) = found at hrel
  rw [hv] at hrel
  cases hrel with
  | some hvw => exact ⟨_, rfl, hvw⟩

/-- Two mappings that hold the same under every key differ only in the order of their fields. -/
theorem Mapping.perm_of_find?_eq {fields fields' : Fields} (h : Mapping fields)
    (h' : Mapping fields')
    (heq : ∀ s : String, Entries.find? fields (.text s) = Entries.find? fields' (.text s)) :
  fields.Perm fields'
  := by
  apply (List.perm_ext_iff_of_nodup h.nodup h'.nodup).mpr
  rintro ⟨k, v⟩
  constructor
  · intro hmem
    obtain ⟨s, hs⟩ := h.textual _ hmem
    obtain rfl : k = .text s := hs
    rw [← h'.find?_eq_some_iff, ← heq, h.find?_eq_some_iff]
    apply hmem
  · intro hmem
    obtain ⟨s, hs⟩ := h'.textual _ hmem
    obtain rfl : k = .text s := hs
    rw [← h.find?_eq_some_iff, heq, h'.find?_eq_some_iff]
    apply hmem

/-! ### Values of other fields -/

/-- A field with what other fields hold under its key, if anything. -/
def revalued (others : Fields) (f : Key × Json) : Key × Json :=
  (f.1, (Entries.find? others f.1).getD f.2)

theorem Mapping.map_revalued {fields : Fields} (h : Mapping fields) (others : Fields) :
  Mapping (fields.map (revalued others))
  where
  textual f hmem := by
    obtain ⟨f₀, hmem₀, rfl⟩ := List.mem_map.mp hmem
    apply h.textual f₀ hmem₀
  distinct := by
    have hkeys : Entries.keys (fields.map (revalued others)) = Entries.keys fields := by
      simp [Entries.keys, revalued]
    rw [Entries.Distinct, hkeys]
    apply h.distinct

theorem Mapping.find?_map_revalued {fields : Fields} (h : Mapping fields) (others : Fields)
    (s : String) :
  Entries.find? (fields.map (revalued others)) (.text s)
    = (Entries.find? fields (.text s)).map fun v => (Entries.find? others (.text s)).getD v
  := by
  induction fields with
  | nil => rfl
  | cons f rest ih =>
    obtain ⟨k, v⟩ := f
    obtain ⟨t, ht⟩ := h.textual (k, v) (by simp)
    obtain rfl : k = .text t := ht
    rw [List.map_cons, revalued, Entries.find?, Entries.find?, ih h.cons_inv]
    by_cases hs : t = s
    · simp [hs]
    · simp [hs]

/-- Two mappings are reordered exactly if they have reordered values under every key. -/
theorem Mapping.reordered_iff {fields fields' : Fields} (h : Mapping fields)
    (h' : Mapping fields') :
  Reordered (.obj fields) (.obj fields')
    ↔ ∀ s : String, Option.Rel Reordered (Entries.find? fields (.text s))
        (Entries.find? fields' (.text s))
  := by
  constructor
  · apply h.find?_reordered
  · intro hr
    -- between them stand the fields of the first with the values of the second
    have hfields : List.Forall₂ Reordered.Field fields (fields.map (revalued fields')) := by
      apply List.forall₂_map_right_iff.mpr
      apply List.forall₂_same.mpr
      rintro ⟨k, v⟩ hmem
      obtain ⟨s, hs⟩ := h.textual _ hmem
      obtain rfl : k = .text s := hs
      use rfl
      have hrel := hr s
      rw [h.find?_eq_some_iff.mpr hmem] at hrel
      generalize hw : Entries.find? fields' (.text s) = w at hrel
      cases hrel with
      | some hv => simpa [revalued, hw] using hv
    apply Reordered.trans (Reordered.obj hfields)
    apply Reordered.permute
    apply (h.map_revalued fields').perm_of_find?_eq h'
    intro s
    rw [h.find?_map_revalued]
    have hrel := hr s
    generalize Entries.find? fields (.text s) = found at hrel
    generalize Entries.find? fields' (.text s) = found' at hrel
    cases hrel with
    | none => rfl
    | some _ => rfl

end Json

end AssetCanvas
