import AssetCanvas.Proofs.Reachability

/-!
# Searching with a queue

The ids above a node can be found one by one: a search keeps a queue of ids that it has seen, and
goes on as long as there is one, with the sources of the edges into the first one.  A seen id is in
the queue or its edges have been followed, `Graph.Search.Tracks`, and an id is seen once only, so
the queue runs out, and then no edge leaves the seen ids backwards: `Graph.Search.exists_run`.
`Graph.exists_search` says that the search ends with the ids of `Graph.ancestorIds`, which are those
from which a path of edges leads to the node.
-/

namespace AssetCanvas.Graph

/-- A search: the ids that were seen, and those of them whose edges are to be followed. -/
structure Search where
  seen : List String
  queue : List String

namespace Search

/-- The search with one more id, unless it was seen before. -/
def see (s : Search) (id : String) : Search :=
  if s.seen.contains id then s else ⟨s.seen ++ [id], s.queue ++ [id]⟩

/-- The search with the sources of the edges into an id. -/
def follow (g : Graph) (s : Search) (id : String) : Search :=
  ((g.inboundEdges id).map Edge.source).foldl see s

/-- The ids that are seen when the queue is empty; none if it never is. -/
def run (g : Graph) (s : Search) : Option (List String) :=
  match s.queue with
  | [] => some s.seen
  | id :: rest => follow g ⟨s.seen, rest⟩ id |>.run g
partial_fixpoint

end Search

/-- The ids that a search from an id sees. -/
def search (g : Graph) (id : String) : Option (List String) := Search.run g ⟨[id], [id]⟩

namespace Search

variable {g : Graph} {start : String} {s : Search}

/-! ### Seeing ids -/

theorem see_of_mem {id : String} (h : id ∈ s.seen) : see s id = s
  := if_pos (List.contains_iff_mem.mpr h)

theorem see_of_not_mem {id : String} (h : id ∉ s.seen) :
  see s id = ⟨s.seen ++ [id], s.queue ++ [id]⟩
  := by
  rw [see, if_neg]
  rwa [List.contains_iff_mem]

theorem mem_seen_see {id other : String} :
  other ∈ (see s id).seen ↔ other ∈ s.seen ∨ other = id
  := by
  by_cases hid : id ∈ s.seen
  · rw [see_of_mem hid]
    constructor
    · exact .inl
    · rintro (h | rfl)
      · exact h
      · exact hid
  · simp [see_of_not_mem hid]

/-- What is seen for the first time is put in the queue. -/
theorem mem_queue_see {id other : String} :
  other ∈ (see s id).queue ↔ other ∈ s.queue ∨ other = id ∧ other ∉ s.seen
  := by
  by_cases hid : id ∈ s.seen
  · rw [see_of_mem hid]
    constructor
    · exact .inl
    · rintro (h | ⟨rfl, hfresh⟩)
      · exact h
      · exact absurd hid hfresh
  · rw [see_of_not_mem hid, List.mem_append, List.mem_singleton]
    constructor
    · rintro (h | rfl)
      · exact .inl h
      · exact .inr ⟨rfl, hid⟩
    · rintro (h | ⟨rfl, -⟩)
      · exact .inl h
      · exact .inr rfl

theorem nodup_seen_see (h : s.seen.Nodup) (id : String) : (see s id).seen.Nodup
  := by
  by_cases hid : id ∈ s.seen
  · rwa [see_of_mem hid]
  · rw [see_of_not_mem hid]
    apply h.append (List.nodup_singleton id)
    exact List.disjoint_singleton.mpr hid

theorem mem_seen_foldl {ids : List String} {other : String} :
  other ∈ (ids.foldl see s).seen ↔ other ∈ s.seen ∨ other ∈ ids
  := by
  induction ids generalizing s with
  | nil => simp
  | cons id rest ih => rw [List.foldl_cons, ih, mem_seen_see, List.mem_cons, or_assoc]

theorem mem_queue_foldl {ids : List String} {other : String} :
  other ∈ (ids.foldl see s).queue ↔ other ∈ s.queue ∨ other ∈ ids ∧ other ∉ s.seen
  := by
  induction ids generalizing s with
  | nil => simp
  | cons id rest ih =>
    rw [List.foldl_cons, ih, mem_queue_see, mem_seen_see, List.mem_cons]
    tauto

theorem nodup_seen_foldl (h : s.seen.Nodup) (ids : List String) : (ids.foldl see s).seen.Nodup
  := by
  induction ids generalizing s with
  | nil => exact h
  | cons id rest ih => exact ih (nodup_seen_see h id)

/-! ### Steps -/

/-- What is left to do: the ids in the queue, and the edges whose sources are not seen. -/
def work (g : Graph) (s : Search) : Nat := s.queue.length + (g.pending s.seen).length

/-- A source of an edge that is put in the queue is one that is pending no more. -/
theorem work_see_le {e : Edge} (he : e ∈ g.edges) : work g (see s e.source) ≤ work g s
  := by
  by_cases hseen : e.source ∈ s.seen
  · exact Nat.le_of_eq (congrArg (work g) (see_of_mem hseen))
  · have hlt := length_pending_append_lt he hseen (List.mem_singleton_self e.source)
    simp only [see_of_not_mem hseen, work, List.length_append, List.length_singleton]
    omega

theorem work_foldl_le {ids : List String} (h : ∀ id ∈ ids, ∃ e ∈ g.edges, e.source = id) :
  work g (ids.foldl see s) ≤ work g s
  := by
  induction ids generalizing s with
  | nil => exact Nat.le_refl _
  | cons id rest ih =>
    obtain ⟨e, he, rfl⟩ := h id List.mem_cons_self
    apply Nat.le_trans _ (work_see_le he)
    exact ih fun other hother => h other (List.mem_cons_of_mem _ hother)

theorem mem_sources_iff {id source : String} :
  source ∈ (g.inboundEdges id).map Edge.source ↔ ∃ e ∈ g.edges, e.target = id ∧ e.source = source
  := by
  simp [inboundEdges, and_assoc]

/-- A search is on the way: the ids that were seen lead to the start, and the edges into each of
them have been followed unless it is in the queue. -/
structure Tracks (g : Graph) (start : String) (s : Search) : Prop where
  nodup : s.seen.Nodup
  started : start ∈ s.seen
  queued : s.queue ⊆ s.seen
  leads : ∀ id ∈ s.seen, Relation.ReflTransGen g.Feeds id start
  followed : ∀ e ∈ g.edges, e.target ∈ s.seen → e.target ∈ s.queue ∨ e.source ∈ s.seen

theorem tracks_start (g : Graph) (start : String) : Tracks g start ⟨[start], [start]⟩
  where
  nodup := by simp
  started := by simp
  queued := by simp
  leads id h := by
    obtain rfl := List.mem_singleton.mp h
    exact .refl
  followed e _ h := .inl h

/-- A search stays on the way if the edges into the first id of its queue are followed. -/
theorem Tracks.follow {seen rest : List String} {id : String}
    (h : Tracks g start ⟨seen, id :: rest⟩) :
  Tracks g start (follow g ⟨seen, rest⟩ id)
  := by
  have hseen : ∀ {other}, other ∈ (Search.follow g ⟨seen, rest⟩ id).seen
      ↔ other ∈ seen ∨ other ∈ (g.inboundEdges id).map Edge.source := mem_seen_foldl
  have hqueue : ∀ {other}, other ∈ (Search.follow g ⟨seen, rest⟩ id).queue
      ↔ other ∈ rest ∨ other ∈ (g.inboundEdges id).map Edge.source ∧ other ∉ seen :=
    mem_queue_foldl
  have hid : id ∈ seen := h.queued List.mem_cons_self
  constructor
  · exact nodup_seen_foldl (s := ⟨seen, rest⟩) h.nodup _
  · exact hseen.mpr (.inl h.started)
  · intro other hother
    rcases hqueue.mp hother with hrest | ⟨hsource, -⟩
    · exact hseen.mpr (.inl (h.queued (List.mem_cons_of_mem _ hrest)))
    · exact hseen.mpr (.inr hsource)
  · intro other hother
    rcases hseen.mp hother with hold | hsource
    · exact h.leads other hold
    · obtain ⟨e, he, rfl, rfl⟩ := mem_sources_iff.mp hsource
      exact (h.leads e.target hid).head ⟨e, he, rfl, rfl⟩
  · intro e he htarget
    by_cases hold : e.target ∈ seen
    · rcases h.followed e he hold with hqueued | hsource
      · rcases List.mem_cons.mp hqueued with rfl | hrest
        · exact .inr (hseen.mpr (.inr (mem_sources_iff.mpr ⟨e, he, rfl, rfl⟩)))
        · exact .inl (hqueue.mpr (.inl hrest))
      · exact .inr (hseen.mpr (.inl hsource))
    · exact .inl (hqueue.mpr (.inr ⟨(hseen.mp htarget).resolve_left hold, hold⟩))

theorem work_follow_lt (seen rest : List String) (id : String) :
  work g (follow g ⟨seen, rest⟩ id) < work g ⟨seen, id :: rest⟩
  := by
  have hle : work g (follow g ⟨seen, rest⟩ id) ≤ work g ⟨seen, rest⟩ := by
    apply work_foldl_le
    intro source hsource
    obtain ⟨e, he, -, hsource⟩ := mem_sources_iff.mp hsource
    exact ⟨e, he, hsource⟩
  apply Nat.lt_of_le_of_lt hle
  simp only [work, List.length_cons]
  omega

/-! ### Runs -/

/-- A search that is on the way ends, with an empty queue. -/
theorem exists_run (h : Tracks g start s) :
  ∃ found, run g s = some found ∧ Tracks g start ⟨found, []⟩
  := by
  induction hwork : work g s using Nat.strongRecOn generalizing s with
  | ind n ih =>
    obtain ⟨seen, queue⟩ := s
    rw [run]
    cases queue with
    | nil => exact ⟨seen, rfl, h⟩
    | cons id rest => exact ih _ (hwork ▸ work_follow_lt seen rest id) h.follow rfl

/-- When the queue is empty, the ids that were seen are those that lead to the start. -/
theorem Tracks.mem_iff {found : List String} (h : Tracks g start ⟨found, []⟩) {id : String} :
  id ∈ found ↔ Relation.ReflTransGen g.Feeds id start
  := by
  have hclosed : g.Closed found := by
    intro e he htarget
    rcases h.followed e he htarget with hqueued | hsource
    · cases hqueued
    · exact hsource
  constructor
  · exact h.leads id
  · exact hclosed.mem_of_path h.started

end Search

/-! ### The ids above a node -/

theorem nodup_eraseDups (ids : List String) : ids.eraseDups.Nodup
  := by
  cases ids with
  | nil => simp
  | cons id rest =>
    rw [List.eraseDups_cons, List.nodup_cons]
    constructor
    · simp [List.mem_eraseDups]
    · apply nodup_eraseDups
termination_by ids.length
decreasing_by
  exact Nat.lt_succ_of_le (List.length_filter_le _ _)

theorem nodup_ancestorRounds {g : Graph} (rounds : Nat) {found : List String} (h : found.Nodup) :
  (g.ancestorRounds rounds found).Nodup
  := by
  induction rounds generalizing found with
  | zero => exact h
  | succ rounds ih =>
    simp only [ancestorRounds]
    split
    · exact h
    · apply ih
      apply List.Nodup.append h (nodup_eraseDups _)
      intro id hid hnew
      obtain ⟨e, -, -, hfresh, rfl⟩ := mem_newSources_iff.mp hnew
      exact hfresh hid

/-- The search from an id ends with the ids above it, each once.  These are the ids from which a
path of edges leads to it, so no edge leaves them backwards, and with an id they have all the ids
above that one. -/
theorem exists_search (g : Graph) (start : String) :
  ∃ found, g.search start = some found ∧ found.Perm (g.ancestorIds start)
    ∧ (g.ancestorIds start).Nodup
    ∧ (∀ id, id ∈ g.ancestorIds start ↔ Relation.ReflTransGen g.Feeds id start)
    ∧ g.Closed (g.ancestorIds start)
    ∧ ∀ id ∈ g.ancestorIds start, g.ancestorIds id ⊆ g.ancestorIds start
  := by
  obtain ⟨found, hfound, htracks⟩ := Search.exists_run (Search.tracks_start g start)
  have hnodup : (g.ancestorIds start).Nodup := nodup_ancestorRounds _ (List.nodup_singleton start)
  use found, hfound
  refine ⟨?_, hnodup, fun id => mem_ancestorIds_iff, g.closed_ancestorIds start, ?_⟩
  · rw [List.perm_ext_iff_of_nodup htracks.nodup hnodup]
    intro id
    rw [htracks.mem_iff, mem_ancestorIds_iff]
  · intro id hid other hother
    rw [mem_ancestorIds_iff] at hid hother ⊢
    exact hother.trans hid

end AssetCanvas.Graph
