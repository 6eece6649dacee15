/-!
# Walks

A walk up a graph carries the ids that it has not entered yet, the fresh ones.  It enters an
id only if it is fresh, and continues with `Walk.without`, the ids without it, so every walk
ends and enters no id twice on one path.
-/

namespace AssetCanvas.Walk

/-- The fresh ids after entering `id`. -/
def without (fresh : List String) (id : String) : List String := fresh.filter (· ≠ id)

theorem mem_without {fresh : List String} {id other : String} :
  other ∈ without fresh id ↔ other ∈ fresh ∧ other ≠ id
  := by
  simp [without]

theorem length_without_lt {id : String} {fresh : List String} (h : id ∈ fresh) :
  (without fresh id).length < fresh.length
  := List.length_filter_lt_length_iff_exists.mpr ⟨id, h, by simp⟩

end AssetCanvas.Walk
