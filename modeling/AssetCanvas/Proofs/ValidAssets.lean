import AssetCanvas.Asset.Validation
import AssetCanvas.Proofs.Fields

/-!
# Valid assets

The assets below an asset without problems have no problems either, so that every asset of the
tree has a textual discriminant, `Asset.everywhere_discriminated`.
-/

namespace AssetCanvas.Asset

variable {parent : Option String} {fields : Fields}

/-- The messages of a validation are those at the root. -/
theorem eq_of_problems {messages : List String}
    (h : problems (.obj fields) = .ok messages) :
  problemsAt "root" (.obj fields) = messages
  := by
  rw [problems] at h
  split at h
  next => exact Except.ok.inj h
  next => cases h

/-- An asset with a textual discriminant. -/
def Discriminated (fields : Fields) : Prop :=
  ∃ type, Entries.find? fields (.text typeKey) = some (.str type)

theorem discriminated_of_problemsAt {path : String} (h : problemsAt path (.obj fields) = []) :
  Discriminated fields
  := by
  rw [problemsAt, List.append_eq_nil_iff, Json.field] at h
  cases hfind : Entries.find? fields (.text typeKey) with
  | none => simp [hfind, typeProblems] at h
  | some v =>
    rw [hfind, Option.getD_some] at h
    cases v with
    | str type => use type, hfind
    | _ => simp [typeProblems] at h

theorem valueProblems_of_fieldProblems {path : String} (h : fieldProblems path fields = [])
    {f : Key × Json} (hf : f ∈ fields) :
  valueProblems f.1 (fieldPath path f.1) f.2 = []
  := by
  induction fields with
  | nil => cases hf
  | cons f' rest ih =>
    obtain ⟨key, v⟩ := f'
    rw [fieldProblems, List.append_eq_nil_iff] at h
    rcases List.mem_cons.mp hf with rfl | hf
    · apply h.1
    · apply ih h.2 hf

theorem problemsAt_of_itemProblems {path : String} {index : Nat} {items : List Json}
    (h : itemProblems path index items = []) {v : Json} (hv : v ∈ items) :
  ∃ path', problemsAt path' v = []
  := by
  induction items generalizing index with
  | nil => cases hv
  | cons v' rest ih =>
    rw [itemProblems, List.append_eq_nil_iff] at h
    rcases List.mem_cons.mp hv with rfl | hv
    · exact ⟨_, h.1⟩
    · apply ih h.2 hv

theorem problemsAt_of_treeProblems {path : String} {index : Nat} {items : List Json}
    (h : treeProblems path index items = []) {v : Json} (hv : v ∈ items) :
  ∃ path', problemsAt path' v = []
  := by
  induction items generalizing index with
  | nil => cases hv
  | cons v' rest ih =>
    rw [treeProblems, List.append_eq_nil_iff] at h
    rcases List.mem_cons.mp hv with rfl | hv
    · have hfirst := h.1
      split at hfirst
      · exact ⟨_, hfirst⟩
      · cases hfirst
    · apply ih h.2 hv

/-- The assets below a field without problems have none. -/
theorem problemsAt_of_valueProblems {key : Key} {path : String} {v : Json}
    (h : valueProblems key path v = []) {part : Part} (hpart : part ∈ valueParts key v)
    {t : Fields} (ht : part.asset? = some t) :
  ∃ path', problemsAt path' (.obj t) = []
  := by
  cases v with
  | obj t' =>
    simp only [valueParts] at hpart
    split at hpart
    · rename_i hchild
      obtain ⟨hkey, hcontains⟩ := Bool.and_eq_true_iff.mp hchild
      obtain rfl := List.mem_singleton.mp hpart
      obtain rfl := Option.some.inj ht
      have hkey' : (key == .text typeKey) = false := by simpa [bne] using hkey
      rw [valueProblems, hkey', if_neg Bool.false_ne_true] at h
      split at h
      · cases h
      · use path
        simpa [problemsAt, hcontains] using h
    · obtain rfl := List.mem_singleton.mp hpart
      cases ht
  | arr items =>
    rw [valueProblems] at h
    simp only [valueParts] at hpart
    split at hpart
    · rename_i hdisc
      have hkey : (key == .text typeKey) = false := by
        rw [Key.eq_of_beq_text hdisc]
        decide
      rw [hkey, if_neg Bool.false_ne_true, if_pos hdisc] at h
      apply problemsAt_of_treeProblems h (asset_mem_treeParts hpart ht)
    · rename_i hdisc
      split at hpart
      · rename_i hrecord
        obtain ⟨hkey, hkind⟩ := Bool.and_eq_true_iff.mp hrecord
        have hkey' : (key == .text typeKey) = false := by simpa [bne] using hkey
        have hassets : (!items.isEmpty && items.all Json.isAsset) = true := by
          simpa [Json.kind] using hkind
        rw [hkey', if_neg Bool.false_ne_true, if_neg hdisc, if_pos hassets] at h
        rcases List.mem_cons.mp hpart with rfl | hpart
        · cases ht
        · apply problemsAt_of_itemProblems h (asset_mem_itemParts hpart ht)
      · obtain rfl := List.mem_singleton.mp hpart
        cases ht
  | _ =>
    obtain rfl := List.mem_singleton.mp hpart
    cases ht

/-- The assets of a tree without problems have textual discriminants. -/
theorem everywhere_discriminated {path : String} (h : problemsAt path (.obj fields) = []) :
  Everywhere (fun _ => Discriminated) parent fields
  := by
  induction fields using Asset.induction generalizing path parent with
  | step fields ih =>
    apply Everywhere.of_parts (P := fun _ => Discriminated) (discriminated_of_problemsAt h)
    intro part hpart t ht
    rw [problemsAt, List.append_eq_nil_iff] at h
    obtain ⟨f, hf, hmem⟩ := List.mem_flatMap.mp hpart
    obtain ⟨path', hbelow⟩ := problemsAt_of_valueProblems (valueProblems_of_fieldProblems h.2 hf)
      hmem ht
    apply ih part hpart t ht hbelow

end AssetCanvas.Asset
