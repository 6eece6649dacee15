import AssetCanvas.Proofs.Tables
import AssetCanvas.Proofs.Violations

/-!
# Valid graphs

A graph with textual ports has no problems if the ids of its nodes are distinct, the ends of its
edges are nodes, and no two edges feed one port: `Graph.problems_eq_nil_iff`.  This is the count of
its violations at zero, where slots and ports that are fed agree since ports are textual.
-/

namespace AssetCanvas.Graph

/-- The port of a target that an edge feeds. -/
def feeding (e : Edge) : String × Json := (e.target, e.targetPort)

/-- A graph has no problems if they are listed and nothing is violated. -/
theorem problems_eq_nil_iff_violations (g : Graph) :
  g.problems = .ok []
    ↔ (∀ e ∈ g.edges, e.targetPort.key?.isSome = true) ∧ g.violations = 0
  := by
  constructor
  · intro h
    exact ⟨(exists_problems_iff g).mp ⟨[], h⟩, (length_problems h).symm⟩
  · rintro ⟨hkeys, hzero⟩
    obtain ⟨messages, h⟩ := (exists_problems_iff g).mpr hkeys
    obtain rfl := List.length_eq_zero_iff.mp ((length_problems h).trans hzero)
    exact h

/-- The ends of the edges of a graph without problems are nodes, whatever its ports are. -/
theorem endsIn_of_problems {g : Graph} (h : g.problems = .ok []) :
  ∀ e ∈ g.edges, EndsIn (g.nodes.map Node.id) e
  := by
  obtain ⟨hkeys, hzero⟩ := (problems_eq_nil_iff_violations g).mp h
  exact ((violations_eq_zero_iff hkeys).mp hzero).2.1

theorem slot?_of_targetPort {e : Edge} {port : String} (h : e.targetPort = .str port) :
  e.slot? = some (e.target, .text port)
  := by
  rw [Edge.slot?, h]
  rfl

/-- Edges with textual ports feed different slots if they feed different ports. -/
theorem nodup_slots_iff {edges : List Edge} (h : ∀ e ∈ edges, e.Textual) :
  (edges.filterMap Edge.slot?).Nodup ↔ (edges.map feeding).Nodup
  := by
  rw [List.Nodup, List.Nodup, List.pairwise_filterMap, List.pairwise_map]
  apply List.Pairwise.iff_of_mem
  intro e e' he he'
  obtain ⟨port, hport⟩ := h e he
  obtain ⟨port', hport'⟩ := h e' he'
  rw [slot?_of_targetPort hport, slot?_of_targetPort hport', feeding, feeding, hport, hport']
  simp

/-- A graph with textual ports has no problems if the ids of its nodes are distinct, the ends of
its edges are nodes, and no two edges feed one port. -/
theorem problems_eq_nil_iff {g : Graph} (h : ∀ e ∈ g.edges, e.Textual) :
  g.problems = .ok [] ↔ (g.nodes.map Node.id).Nodup
    ∧ (∀ e ∈ g.edges, EndsIn (g.nodes.map Node.id) e) ∧ (g.edges.map feeding).Nodup
  := by
  have hkeys : ∀ e ∈ g.edges, e.targetPort.key?.isSome = true := by
    intro e he
    obtain ⟨port, hport⟩ := h e he
    rw [hport]
    rfl
  rw [problems_eq_nil_iff_violations, violations_eq_zero_iff hkeys, nodup_slots_iff h]
  exact and_iff_right hkeys

end AssetCanvas.Graph
