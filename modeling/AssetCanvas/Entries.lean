/-!
# Ordered maps

An ordered map is a list of entries `(key, value)`, searched from the front by the equality
`==` of the keys.  `Entries.insert` keeps the place and the spelling of a key that is already
there and appends a new key, so the order of the keys is the order of their first insertion;
on a list with distinct keys it overwrites exactly one value.
-/

namespace AssetCanvas.Entries

variable {κ ν : Type} [BEq κ]

/-- The value of the first entry with key `k`. -/
def find? : List (κ × ν) → κ → Option ν
  | [], _ => none
  | (k', v) :: rest, k => if k' == k then some v else find? rest k

/-- Whether `k` is a key of the map. -/
def contains (m : List (κ × ν)) (k : κ) : Bool := (find? m k).isSome

/-- The map with `k` sent to `v`: at the place of `k` if it is a key, else at the end. -/
def insert : List (κ × ν) → κ → ν → List (κ × ν)
  | [], k, v => [(k, v)]
  | (k', v') :: rest, k, v =>
    if k' == k then (k', v) :: rest else (k', v') :: insert rest k v

/-- The map without the entries of key `k`. -/
def erase (m : List (κ × ν)) (k : κ) : List (κ × ν) :=
  m.filter fun entry => !(entry.1 == k)

/-- The map of a list of entries: a repeated key keeps its first place and its last value. -/
def ofList (entries : List (κ × ν)) : List (κ × ν) :=
  entries.foldl (fun m entry => insert m entry.1 entry.2) []

/-- The keys, in order. -/
def keys (m : List (κ × ν)) : List κ := m.map Prod.fst

/-! ### Laws -/

theorem find?_insert [EquivBEq κ] (m : List (κ × ν)) (k k' : κ) (v : ν) :
  find? (insert m k v) k' = if k == k' then some v else find? m k'
  := by
  induction m with
  | nil => simp [insert, find?]
  | cons entry rest ih =>
    obtain ⟨k₀, v₀⟩ := entry
    by_cases h : k₀ == k
    · rw [← BEq.congr_left h]
      by_cases h' : k₀ == k' <;> simp [insert, find?, h, h']
    · by_cases h' : k₀ == k'
      · have h'' : (k == k') = false := by
          rw [← BEq.congr_right h', BEq.comm]
          exact Bool.eq_false_iff.mpr h
        simp [insert, find?, h, h', h'']
      · simp [insert, find?, h, h', ih]

theorem find?_erase [EquivBEq κ] (m : List (κ × ν)) (k k' : κ) :
  find? (erase m k) k' = if k == k' then none else find? m k'
  := by
  induction m with
  | nil => simp [erase, find?]
  | cons entry rest ih =>
    obtain ⟨k₀, v₀⟩ := entry
    have step : erase ((k₀, v₀) :: rest) k =
        if k₀ == k then erase rest k else (k₀, v₀) :: erase rest k := by
      by_cases h : k₀ == k <;> simp [erase, h]
    rw [step]
    by_cases h : k₀ == k
    · rw [if_pos h, ih, ← BEq.congr_left h]
      by_cases h' : k₀ == k' <;> simp [find?, h']
    · rw [if_neg h]
      by_cases h' : k₀ == k'
      · have h'' : (k == k') = false := by
          rw [← BEq.congr_right h', BEq.comm]
          exact Bool.eq_false_iff.mpr h
        simp [find?, h', h'']
      · simp [find?, h', ih]

end AssetCanvas.Entries
