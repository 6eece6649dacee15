import AssetCanvas.Graph.Reach
import AssetCanvas.Proofs.Acyclic

/-!
# The ids above a node

`Graph.ancestorIds` follows the edges backwards in rounds.  Every round but the last one finds
the source of another edge, so the rounds end with a set that no edge leaves backwards,
`Graph.closed_ancestorRounds`; hence the ids that are found are those from which a path of edges
leads to the node, `Graph.mem_ancestorIds_iff`.
-/

namespace AssetCanvas.Graph

variable {g : Graph}

/-! ### Rounds -/

theorem mem_newSources_iff {found : List String} {id : String} :
  id ∈ g.newSources found
    ↔ ∃ e ∈ g.edges, e.target ∈ found ∧ e.source ∉ found ∧ e.source = id
  := by
  simp [newSources, List.mem_eraseDups, and_assoc]

/-- The edges whose sources are still to be found. -/
def pending (g : Graph) (found : List String) : List Edge :=
  g.edges.filter fun e => !found.contains e.source

/-- An edge whose source is found is pending no more. -/
theorem length_pending_append_lt {found added : List String} {e : Edge} (he : e ∈ g.edges)
    (hfresh : e.source ∉ found) (hadded : e.source ∈ added) :
  (g.pending (found ++ added)).length < (g.pending found).length
  := by
  have hpending : g.pending (found ++ added)
      = (g.pending found).filter fun e => !added.contains e.source := by
    rw [pending, pending, List.filter_filter]
    congr 1
    funext e
    rw [List.contains_append, Bool.not_or, Bool.and_comm]
  rw [hpending, List.length_filter_lt_length_iff_exists]
  use e
  constructor
  · simpa [pending] using ⟨he, hfresh⟩
  · simpa using hadded

/-- A round that finds something finds the source of an edge. -/
theorem length_pending_lt {found : List String} (h : g.newSources found ≠ []) :
  (g.pending (found ++ g.newSources found)).length < (g.pending found).length
  := by
  obtain ⟨id, hid⟩ := List.exists_mem_of_ne_nil _ h
  obtain ⟨e, he, -, hfresh, rfl⟩ := mem_newSources_iff.mp hid
  apply length_pending_append_lt he hfresh hid

/-- A set of ids that no edge leaves backwards. -/
def Closed (g : Graph) (ids : List String) : Prop :=
  ∀ e ∈ g.edges, e.target ∈ ids → e.source ∈ ids

theorem subset_ancestorRounds (rounds : Nat) (found : List String) :
  found ⊆ g.ancestorRounds rounds found
  := by
  induction rounds generalizing found with
  | zero => exact List.Subset.refl found
  | succ rounds ih =>
    simp only [ancestorRounds]
    split
    · exact List.Subset.refl found
    · exact List.Subset.trans (List.subset_append_left _ _) (ih _)

/-- As many rounds as there are edges to be found leave none. -/
theorem closed_ancestorRounds (rounds : Nat) (found : List String)
    (h : (g.pending found).length ≤ rounds) :
  g.Closed (g.ancestorRounds rounds found)
  := by
  induction rounds generalizing found with
  | zero =>
    have hnil : g.pending found = [] := List.eq_nil_of_length_eq_zero (Nat.le_zero.mp h)
    intro e he _
    rw [ancestorRounds]
    simpa using List.filter_eq_nil_iff.mp hnil e he
  | succ rounds ih =>
    simp only [ancestorRounds]
    split
    next hempty =>
      intro e he htarget
      by_contra hfresh
      have hmem := mem_newSources_iff.mpr ⟨e, he, htarget, hfresh, rfl⟩
      rw [List.isEmpty_iff.mp hempty] at hmem
      cases hmem
    next hsome =>
      apply ih
      have hlt : (g.pending (found ++ g.newSources found)).length < (g.pending found).length :=
        length_pending_lt (by simpa using hsome)
      omega

/-- The ids above a node are closed. -/
theorem closed_ancestorIds (g : Graph) (start : String) : g.Closed (g.ancestorIds start)
  := closed_ancestorRounds g.edges.length [start] (List.length_filter_le _ _)

/-- What the rounds find leads to what they start with. -/
theorem exists_of_mem_ancestorRounds (rounds : Nat) {found : List String} {id : String}
    (h : id ∈ g.ancestorRounds rounds found) :
  ∃ start ∈ found, Relation.ReflTransGen g.Feeds id start
  := by
  induction rounds generalizing found with
  | zero => exact ⟨id, h, .refl⟩
  | succ rounds ih =>
    simp only [ancestorRounds] at h
    split at h
    · exact ⟨id, h, .refl⟩
    · obtain ⟨start, hstart, hpath⟩ := ih h
      rcases List.mem_append.mp hstart with hstart | hnew
      · exact ⟨start, hstart, hpath⟩
      · obtain ⟨e, he, htarget, -, rfl⟩ := mem_newSources_iff.mp hnew
        exact ⟨e.target, htarget, hpath.tail ⟨e, he, rfl, rfl⟩⟩

/-! ### Paths -/

/-- A path of edges does not leave a closed set backwards. -/
theorem Closed.mem_of_path {ids : List String} (h : g.Closed ids) {id start : String}
    (hstart : start ∈ ids) (hpath : Relation.ReflTransGen g.Feeds id start) :
  id ∈ ids
  := by
  induction hpath using Relation.ReflTransGen.head_induction_on with
  | refl => exact hstart
  | head hfeeds _ ih =>
    obtain ⟨e, he, rfl, rfl⟩ := hfeeds
    exact h e he ih

/-- The ids that are found are those from which a path of edges leads to the node. -/
theorem mem_ancestorIds_iff {id start : String} :
  id ∈ g.ancestorIds start ↔ Relation.ReflTransGen g.Feeds id start
  := by
  constructor
  · intro h
    obtain ⟨other, hother, hpath⟩ := exists_of_mem_ancestorRounds _ h
    obtain rfl := List.mem_singleton.mp hother
    exact hpath
  · intro hpath
    apply (g.closed_ancestorIds start).mem_of_path _ hpath
    apply subset_ancestorRounds
    apply List.mem_singleton_self

/-! ### Subgraphs -/

/-- The nodes of a subgraph stand under their ids as in the graph. -/
theorem find?_nodeMap_subgraph (g : Graph) {ids : List String} {id : String} (h : id ∈ ids) :
  Entries.find? (g.subgraph ids).nodeMap id = Entries.find? g.nodeMap id
  := by
  have hnodes : (g.subgraph ids).nodes.map (fun n => (n.id, n))
      = (g.nodes.map fun n => (n.id, n)).filter fun entry => ids.contains entry.1 := by
    rw [List.filter_map]
    rfl
  rw [nodeMap, nodeMap, Entries.find?_ofList, Entries.find?_ofList, hnodes, ← List.filter_reverse]
  apply Entries.find?_filter_of
  intro entry _ hentry
  rw [eq_of_beq hentry, List.contains_iff_mem]
  apply h

theorem mem_of_find?_nodeMap_subgraph {ids : List String} {id : String} {n : Node}
    (h : Entries.find? (g.subgraph ids).nodeMap id = some n) :
  id ∈ ids
  := by
  obtain ⟨hn, rfl⟩ := mem_nodes_of_find? h
  obtain ⟨-, hid⟩ := List.mem_filter.mp hn
  simpa using hid

/-- The edges into an id of a closed set stay. -/
theorem Closed.inboundEdges_subgraph {ids : List String} (hclosed : g.Closed ids) {id : String}
    (h : id ∈ ids) :
  (g.subgraph ids).inboundEdges id = g.inboundEdges id
  := by
  rw [inboundEdges, inboundEdges, subgraph, List.filter_filter]
  apply List.filter_congr
  intro e he
  by_cases htarget : e.target = id
  · have hsource : e.source ∈ ids := hclosed e he (by rwa [htarget])
    simp [htarget, h, hsource]
  · simp [htarget]

end AssetCanvas.Graph
