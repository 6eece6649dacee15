import AssetCanvas.Entries
import Mathlib.Tactic.Common

/-!
# Laws of ordered maps

A map is `Entries.Distinct` if none of its keys equals another one.  Insertion keeps the keys
distinct, and a map that is built by insertions has for every key the value that was inserted
last.  On a distinct map, looking up is membership.
-/

namespace AssetCanvas.Entries

variable {κ ν μ : Type} [BEq κ]

theorem mk_beq_mk {κ' : Type} [BEq κ'] (k k₁ : κ) (k' k₁' : κ') :
  ((k, k') == (k₁, k₁')) = (k == k₁ && k' == k₁')
  := rfl

/-- Pairs are equal if their parts are. -/
instance equivBEqProd {κ' : Type} [BEq κ'] [EquivBEq κ] [EquivBEq κ'] : EquivBEq (κ × κ') where
  symm {p p'} h := by
    rw [mk_beq_mk, Bool.and_eq_true] at h ⊢
    exact ⟨BEq.symm h.1, BEq.symm h.2⟩
  trans {p p' p''} h h' := by
    rw [mk_beq_mk, Bool.and_eq_true] at h h' ⊢
    exact ⟨BEq.trans h.1 h'.1, BEq.trans h.2 h'.2⟩
  rfl {p} := by simp

/-- Whether no key of the map equals another one. -/
def Distinct (m : List (κ × ν)) : Prop := (keys m).Pairwise fun k k' => (k == k') = false

/-! ### Looking up -/

theorem find?_append (m m' : List (κ × ν)) (k : κ) :
  find? (m ++ m') k = (find? m k).or (find? m' k)
  := by
  induction m with
  | nil => rfl
  | cons entry rest ih =>
    by_cases h : entry.1 == k
    · simp [find?, h]
    · simp [find?, h, ih]

theorem find?_eq_none_iff {m : List (κ × ν)} {k : κ} :
  find? m k = none ↔ ∀ entry ∈ m, (entry.1 == k) = false
  := by
  induction m with
  | nil => simp [find?]
  | cons entry rest ih =>
    by_cases h : entry.1 == k
    · simp [find?, h]
    · simp [find?, h, ih]

/-- A value that is found stands under an equal key. -/
theorem mem_of_find? {m : List (κ × ν)} {k : κ} {v : ν} (h : find? m k = some v) :
  ∃ k', (k' == k) = true ∧ (k', v) ∈ m
  := by
  induction m with
  | nil => cases h
  | cons entry rest ih =>
    obtain ⟨k₀, v₀⟩ := entry
    by_cases hk : k₀ == k
    · obtain rfl : v₀ = v := by simpa [find?, hk] using h
      use k₀, hk
      simp
    · obtain ⟨k', hk', hmem⟩ := ih (by simpa [find?, hk] using h)
      use k', hk'
      simp [hmem]

/-- Removing entries of other keys does not change what is found. -/
theorem find?_filter_of {m : List (κ × ν)} {k : κ} {p : κ × ν → Bool}
    (h : ∀ entry ∈ m, (entry.1 == k) = true → p entry = true) :
  find? (m.filter p) k = find? m k
  := by
  induction m with
  | nil => rfl
  | cons entry rest ih =>
    have hrest := ih fun other hmem => h other (by simp [hmem])
    rw [List.filter_cons]
    by_cases hk : (entry.1 == k) = true
    · rw [if_pos (h entry (by simp) hk)]
      simp [find?, hk]
    · split
      · simp [find?, hk, hrest]
      · simp [find?, hk, hrest]

/-! ### Insertion -/

/-- A new key is appended. -/
theorem insert_of_find?_eq_none {m : List (κ × ν)} {k : κ} (h : find? m k = none) (v : ν) :
  insert m k v = m ++ [(k, v)]
  := by
  induction m with
  | nil => rfl
  | cons entry rest ih =>
    by_cases hk : entry.1 == k
    · simp [find?, hk] at h
    · simp only [find?, hk] at h
      simp [insert, hk, ih h]

theorem keys_insert (m : List (κ × ν)) (k : κ) (v : ν) :
  keys (insert m k v) = if contains m k then keys m else keys m ++ [k]
  := by
  induction m with
  | nil => rfl
  | cons entry rest ih =>
    by_cases hk : entry.1 == k
    · simp [insert, hk, contains, find?, keys]
    · simp only [keys, contains] at ih
      by_cases hc : (find? rest k).isSome = true
      · simp [insert, hk, contains, find?, keys, ih, hc]
      · simp [insert, hk, contains, find?, keys, ih, hc]

/-- Looking up in a map with a list of further entries: the last one of a key counts. -/
theorem find?_foldl_insert [EquivBEq κ] (entries m : List (κ × ν)) (k : κ) :
  find? (entries.foldl (fun m entry => insert m entry.1 entry.2) m) k
    = (find? entries.reverse k).or (find? m k)
  := by
  induction entries generalizing m with
  | nil => rfl
  | cons entry rest ih =>
    rw [List.foldl_cons, ih, find?_insert, List.reverse_cons, find?_append]
    by_cases h : entry.1 == k
    · cases find? rest.reverse k <;> simp [find?, h]
    · cases find? rest.reverse k <;> simp [find?, h]

theorem find?_ofList [EquivBEq κ] (entries : List (κ × ν)) (k : κ) :
  find? (ofList entries) k = find? entries.reverse k
  := by
  rw [ofList, find?_foldl_insert]
  cases find? entries.reverse k <;> rfl

/-! ### Distinct keys -/

theorem distinct_cons {entry : κ × ν} {m : List (κ × ν)} :
  Distinct (entry :: m) ↔ (∀ other ∈ m, (entry.1 == other.1) = false) ∧ Distinct m
  := by
  simp [Distinct, keys]

theorem distinct_append {m m' : List (κ × ν)} :
  Distinct (m ++ m')
    ↔ Distinct m ∧ Distinct m' ∧ ∀ entry ∈ m, ∀ other ∈ m', (entry.1 == other.1) = false
  := by
  simp [Distinct, keys, List.pairwise_append]

theorem Distinct.sublist {m m' : List (κ × ν)} (h : Distinct m') (hs : m.Sublist m') :
  Distinct m
  := List.Pairwise.sublist (hs.map Prod.fst) h

theorem Distinct.insert {m : List (κ × ν)} (h : Distinct m) (k : κ) (v : ν) :
  Distinct (insert m k v)
  := by
  rw [Distinct, keys_insert]
  by_cases hc : contains m k = true
  · rw [if_pos hc]
    apply h
  · have hn : find? m k = none := by simpa [contains] using hc
    rw [if_neg hc, List.pairwise_append]
    refine ⟨h, by simp, ?_⟩
    intro k' hk' k'' hk''
    obtain ⟨entry, hmem, rfl⟩ := List.mem_map.mp hk'
    obtain rfl := List.mem_singleton.mp hk''
    apply find?_eq_none_iff.mp hn entry hmem

theorem Distinct.foldl_insert {m : List (κ × ν)} (h : Distinct m) (entries : List (κ × ν)) :
  Distinct (entries.foldl (fun m entry => Entries.insert m entry.1 entry.2) m)
  := by
  induction entries generalizing m with
  | nil => apply h
  | cons entry rest ih => apply ih (h.insert entry.1 entry.2)

theorem distinct_ofList (entries : List (κ × ν)) :
  Distinct (ofList entries)
  := Distinct.foldl_insert (by simp [Distinct, keys]) entries

/-- An entry of a distinct map is found under its key. -/
theorem Distinct.find?_of_mem [EquivBEq κ] {m : List (κ × ν)} (h : Distinct m) {k : κ} {v : ν}
    (hmem : (k, v) ∈ m) :
  find? m k = some v
  := by
  induction m with
  | nil => cases hmem
  | cons entry rest ih =>
    obtain ⟨hhead, hrest⟩ := distinct_cons.mp h
    rcases List.mem_cons.mp hmem with rfl | hmem
    · simp [find?]
    · have hk := hhead (k, v) hmem
      simp [find?, hk, ih hrest hmem]

/-- A distinct map is found again from the back. -/
theorem Distinct.find?_reverse [EquivBEq κ] {m : List (κ × ν)} (h : Distinct m) (k : κ) :
  find? m.reverse k = find? m k
  := by
  induction m with
  | nil => rfl
  | cons entry rest ih =>
    obtain ⟨hhead, hrest⟩ := distinct_cons.mp h
    rw [List.reverse_cons, find?_append, ih hrest]
    by_cases hk : entry.1 == k
    · have hn : find? rest k = none := by
        apply find?_eq_none_iff.mpr
        intro other hmem
        rw [← BEq.congr_right hk, BEq.comm]
        apply hhead other hmem
      simp [find?, hk, hn]
    · cases hf : find? rest k <;> simp [find?, hk, hf]

/-- A list of entries with distinct keys is a map already. -/
theorem Distinct.ofList_eq [EquivBEq κ] {m : List (κ × ν)} (h : Distinct m) :
  ofList m = m
  := by
  suffices ∀ before : List (κ × ν), Distinct (before ++ m) →
      m.foldl (fun m entry => Entries.insert m entry.1 entry.2) before = before ++ m by
    apply this [] h
  induction m with
  | nil => simp
  | cons entry rest ih =>
    intro before hd
    obtain ⟨-, -, hapart⟩ := distinct_append.mp hd
    have hn : find? before entry.1 = none := by
      apply find?_eq_none_iff.mpr
      intro other hmem
      apply hapart other hmem entry (by simp)
    rw [List.foldl_cons, insert_of_find?_eq_none hn, ih (distinct_cons.mp h).2]
    · simp
    · simpa using hd

section Lawful

variable [LawfulBEq κ]

theorem distinct_iff_nodup {m : List (κ × ν)} : Distinct m ↔ (keys m).Nodup
  := by
  simp [Distinct, List.Nodup]

/-- Where keys are told apart as they are, what is found is an entry of its key. -/
theorem entry_mem_of_find? {m : List (κ × ν)} {k : κ} {v : ν} (h : find? m k = some v) :
  (k, v) ∈ m
  := by
  obtain ⟨k', hk', hmem⟩ := mem_of_find? h
  rwa [← eq_of_beq hk']

theorem Distinct.find?_eq_some_iff {m : List (κ × ν)} (h : Distinct m) {k : κ} {v : ν} :
  find? m k = some v ↔ (k, v) ∈ m
  := ⟨entry_mem_of_find?, h.find?_of_mem⟩

theorem mem_keys_of_find? {m : List (κ × ν)} {k : κ} {v : ν} (h : find? m k = some v) :
  k ∈ keys m
  := List.mem_map_of_mem (entry_mem_of_find? h)

theorem mem_keys_iff {m : List (κ × ν)} {k : κ} :
  k ∈ keys m ↔ ∃ v, find? m k = some v
  := by
  constructor
  · intro h
    obtain ⟨entry, hmem, rfl⟩ := List.mem_map.mp h
    cases hf : find? m entry.1 with
    | some v => exact ⟨v, rfl⟩
    | none =>
      have hne := find?_eq_none_iff.mp hf entry hmem
      simp at hne
  · rintro ⟨v, hf⟩
    apply mem_keys_of_find? hf

theorem isSome_map_find?_iff {γ : Type} {m : List (κ × ν)} {k : κ} {f : ν → γ} :
  ((find? m k).map f).isSome = true ↔ k ∈ keys m
  := by
  rw [Option.isSome_map, Option.isSome_iff_exists, mem_keys_iff]

end Lawful

end AssetCanvas.Entries
