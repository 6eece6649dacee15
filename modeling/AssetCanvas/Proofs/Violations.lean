import AssetCanvas.Graph.Validation
import AssetCanvas.Proofs.Entries
import AssetCanvas.Proofs.Fault
import Mathlib.Data.Finset.Card

/-!
# Counting violations

The problems of a graph are counted by what they speak of: nodes beyond the distinct ids, ends of
edges that are no nodes, and edges beyond the distinct slots that edges feed,
`Graph.problems_length`.  Both counts of repetitions follow the items that are met for the first
time: `card_insert_sdiff` is their common step.
-/

namespace AssetCanvas

/-- Of a new item one more is met for the first time, of an old one none. -/
theorem card_insert_sdiff {α : Type} [DecidableEq α] (a : α) (later met : Finset α) :
  (insert a later \ met).card = (later \ insert a met).card + if a ∈ met then 0 else 1
  := by
  by_cases h : a ∈ met
  · rw [Finset.insert_sdiff_of_mem later h, Finset.insert_eq_of_mem h, if_pos h, Nat.add_zero]
  · have hfresh : a ∉ later \ insert a met := by simp
    have hinsert : insert a later \ met = insert a (later \ insert a met) := by
      ext b
      by_cases hb : b = a
      · simp [hb, h]
      · simp [hb]
    rw [hinsert, Finset.card_insert_of_notMem hfresh, if_neg h]

/-- The slot that an edge feeds: its target with what its port stands for.  A port that cannot be
a key stands for none. -/
def Edge.slot? (e : Edge) : Option (String × Key.Value) :=
  e.targetPort.key?.map fun port => (e.target, port.value)

theorem Edge.slot?_of_key {e : Edge} {port : Key} (h : e.targetPort.key = .ok port) :
  e.slot? = some (e.target, port.value)
  := by
  rw [Json.key] at h
  cases hkey : e.targetPort.key? with
  | none => simp [hkey] at h
  | some port' =>
    rw [hkey] at h
    obtain rfl := Except.ok.inj h
    rw [slot?, hkey]
    rfl

namespace Graph

/-! ### Nodes -/

/-- Every node repeats an id unless its id is met for the first time. -/
theorem length_repeatedIds (seen : List String) (nodes : List Node) :
  (repeatedIds seen nodes).length + ((nodes.map Node.id).toFinset \ seen.toFinset).card
    = nodes.length
  := by
  induction nodes generalizing seen with
  | nil => simp [repeatedIds]
  | cons n rest ih =>
    have hrest := ih (n.id :: seen)
    rw [List.toFinset_cons] at hrest
    rw [repeatedIds, List.map_cons, List.toFinset_cons, card_insert_sdiff, List.length_append,
      List.length_cons]
    by_cases h : n.id ∈ seen
    · simp only [List.contains_iff_mem, h, if_true, List.mem_toFinset, List.length_singleton]
      omega
    · simp only [List.contains_iff_mem, h, if_false, List.mem_toFinset, List.length_nil]
      omega

/-! ### Edges -/

/-- Whether the ends of an edge are among some ids. -/
def EndsIn (ids : List String) (e : Edge) : Prop := e.source ∈ ids ∧ e.target ∈ ids

/-- The slots that are fed already. -/
def fedSlots (fed : List ((String × Key) × String)) : Finset (String × Key.Value) :=
  (fed.map fun entry => (entry.1.1, entry.1.2.value)).toFinset

theorem find?_eq_none_iff_notMem_fedSlots {fed : List ((String × Key) × String)} {id : String}
    {port : Key} :
  Entries.find? fed (id, port) = none ↔ (id, port.value) ∉ fedSlots fed
  := by
  rw [Entries.find?_eq_none_iff, fedSlots, List.mem_toFinset, List.mem_map, not_exists]
  apply forall_congr'
  rintro ⟨⟨id', port'⟩, source⟩
  rw [not_and, Entries.mk_beq_mk, ← Bool.not_eq_true, Bool.and_eq_true, Key.beq_iff, beq_iff_eq]
  simp

theorem fedSlots_insert {fed : List ((String × Key) × String)} {id : String} {port : Key}
    (h : Entries.find? fed (id, port) = none) (source : String) :
  fedSlots (Entries.insert fed (id, port) source) = insert (id, port.value) (fedSlots fed)
  := by
  rw [Entries.insert_of_find?_eq_none h, fedSlots, List.map_append, List.toFinset_append,
    Finset.union_comm, Finset.insert_eq]
  rfl

theorem length_endProblems (ids : List String) (e : Edge) :
  (endProblems ids e).length
    = (if e.source ∈ ids then 0 else 1) + if e.target ∈ ids then 0 else 1
  := by
  by_cases hs : e.source ∈ ids <;> by_cases ht : e.target ∈ ids <;> simp [endProblems, hs, ht]

/-- The problems of edges are listed if every port can be a key. -/
theorem exists_edgeProblems_iff (ids : List String) (fed : List ((String × Key) × String))
    (edges : List Edge) :
  (∃ messages, edgeProblems ids fed edges = .ok messages)
    ↔ ∀ e ∈ edges, e.targetPort.key?.isSome = true
  := by
  induction edges generalizing fed with
  | nil => simp [edgeProblems]
  | cons e rest ih =>
    rw [List.forall_mem_cons, edgeProblems, Json.key]
    cases hkey : e.targetPort.key? with
    | none => simp
    | some port =>
      simp only [Fault.ok_bind, Option.isSome_some, true_and]
      split
      · rw [Fault.exists_bind_pure_iff, ih]
      · rw [Fault.exists_bind_pure_iff, ih]

/-- Every edge has a problem for each end that is no node, and one more unless its slot is fed for
the first time. -/
theorem length_edgeProblems (ids : List String) (fed : List ((String × Key) × String))
    {edges : List Edge} {messages : List String} (h : edgeProblems ids fed edges = .ok messages) :
  messages.length + ((edges.filterMap Edge.slot?).toFinset \ fedSlots fed).card
    = edges.countP (fun e => e.source ∉ ids) + edges.countP (fun e => e.target ∉ ids)
      + edges.length
  := by
  induction edges generalizing fed messages with
  | nil =>
    obtain rfl := Except.ok.inj h
    simp
  | cons e rest ih =>
    obtain ⟨port, hport, h⟩ := Fault.bind_eq_ok_iff.mp h
    rw [List.filterMap_cons_some (Edge.slot?_of_key hport), List.toFinset_cons, card_insert_sdiff,
      List.countP_cons, List.countP_cons, List.length_cons]
    simp only [decide_eq_true_eq, ite_not]
    have hends := length_endProblems ids e
    dsimp only at h
    split at h
    · -- the slot is fed already
      rename_i first hfed
      obtain ⟨others, hothers, h⟩ := Fault.bind_eq_ok_iff.mp h
      obtain rfl := Except.ok.inj h
      have hmem : (e.target, port.value) ∈ fedSlots fed := by
        by_contra hnew
        rw [find?_eq_none_iff_notMem_fedSlots.mpr hnew] at hfed
        cases hfed
      have hrest := ih fed hothers
      rw [Finset.insert_eq_of_mem hmem, if_pos hmem, List.length_append, List.length_append,
        List.length_singleton]
      omega
    · rename_i hfed
      obtain ⟨others, hothers, h⟩ := Fault.bind_eq_ok_iff.mp h
      obtain rfl := Except.ok.inj h
      have hrest := ih _ hothers
      rw [fedSlots_insert hfed] at hrest
      rw [if_neg (find?_eq_none_iff_notMem_fedSlots.mp hfed), List.length_append]
      omega

/-! ### Graphs -/

/-- The count of the problems of a graph: nodes beyond the distinct ids, sources and targets that
are no nodes, and edges beyond the distinct slots. -/
def violations (g : Graph) : Nat :=
  (g.nodes.length - (g.nodes.map Node.id).toFinset.card)
    + g.edges.countP (fun e => e.source ∉ g.nodes.map Node.id)
    + g.edges.countP (fun e => e.target ∉ g.nodes.map Node.id)
    + (g.edges.length - (g.edges.filterMap Edge.slot?).toFinset.card)

theorem exists_problems_iff (g : Graph) :
  (∃ messages, g.problems = .ok messages) ↔ ∀ e ∈ g.edges, e.targetPort.key?.isSome = true
  := by
  rw [problems, Fault.exists_bind_pure_iff, exists_edgeProblems_iff]

theorem length_problems {g : Graph} {messages : List String} (h : g.problems = .ok messages) :
  messages.length = g.violations
  := by
  obtain ⟨others, hothers, h⟩ := Fault.bind_eq_ok_iff.mp h
  obtain rfl := Except.ok.inj h
  have hnodes := length_repeatedIds [] g.nodes
  have hedges := length_edgeProblems (g.nodes.map Node.id) [] hothers
  have hempty : fedSlots [] = ∅ := rfl
  rw [List.toFinset_nil, Finset.sdiff_empty] at hnodes
  rw [hempty, Finset.sdiff_empty] at hedges
  have hslots := List.toFinset_card_le (g.edges.filterMap Edge.slot?)
  have hkeyed := List.length_filterMap_le Edge.slot? g.edges
  rw [violations, List.length_append, List.length_map]
  omega

/-- Where every edge feeds a slot, nothing is counted if ids are distinct, the ends of edges are
nodes, and slots are fed once. -/
theorem violations_eq_zero_iff {g : Graph}
    (h : ∀ e ∈ g.edges, e.targetPort.key?.isSome = true) :
  g.violations = 0 ↔ (g.nodes.map Node.id).Nodup
    ∧ (∀ e ∈ g.edges, EndsIn (g.nodes.map Node.id) e) ∧ (g.edges.filterMap Edge.slot?).Nodup
  := by
  have hslots : (g.edges.filterMap Edge.slot?).length = g.edges.length := by
    rw [List.length_filterMap_eq_countP, List.countP_eq_length]
    intro e he
    rw [Edge.slot?, Option.isSome_map]
    apply h e he
  have hids := List.toFinset_card_le (g.nodes.map Node.id)
  have hfed := List.toFinset_card_le (g.edges.filterMap Edge.slot?)
  rw [List.length_map] at hids
  have hends : (∀ e ∈ g.edges, EndsIn (g.nodes.map Node.id) e)
      ↔ g.edges.countP (fun e => e.source ∉ g.nodes.map Node.id) = 0
        ∧ g.edges.countP (fun e => e.target ∉ g.nodes.map Node.id) = 0 := by
    simp only [List.countP_eq_zero, decide_eq_true_eq, not_not, EndsIn]
    exact forall₂_and
  have hdistinct : (g.nodes.map Node.id).toFinset.card = g.nodes.length
      ↔ (g.nodes.map Node.id).Nodup := by
    rw [← g.nodes.length_map Node.id]
    exact Multiset.toFinset_card_eq_card_iff_nodup
  have honce : (g.edges.filterMap Edge.slot?).toFinset.card = (g.edges.filterMap Edge.slot?).length
      ↔ (g.edges.filterMap Edge.slot?).Nodup :=
    Multiset.toFinset_card_eq_card_iff_nodup
  rw [← hdistinct, ← honce, hends, violations]
  omega

end Graph

end AssetCanvas
