import AssetCanvas.Proofs.Legibility
import Mathlib.Logic.Relation

/-!
# Acyclic graphs

A graph is `Graph.Typed` if the attributes of its nodes and edges are of the kinds that editors
and layouts write.  The asset of every node of a typed graph can be put together.  In a graph
that is `Graph.Acyclic`, the asset of the source of an edge is the same whether it is put
together on its own or on the way to the target, `Graph.Acyclic.unfold_source`.
-/

namespace AssetCanvas

/-- A graph with textual labels, discriminants and ports, whose nodes hold objects and whose
ports can be read. -/
structure Graph.Typed (g : Graph) : Prop extends g.Textual where
  types : ∀ n ∈ g.nodes, n.assetType = .null ∨ ∃ type, n.assetType = .str type
  fields : ∀ n ∈ g.nodes, ∃ fields, n.fields = .obj fields
  records : ∀ n ∈ g.nodes, n.arrayFields = .null ∨ ∃ names, n.arrayFields = .arr names
  indices : ∀ e ∈ g.edges, ∀ port, e.targetPort = .str port → ∃ slot, Port.parse port = .ok slot

/-- The slot of a port of a node. -/
def Node.slot (n : Node) (port : Json) : Except Fault (String × Option Nat) := do
  Assembly.slotOf n (← n.discriminant) port

namespace Graph

variable {g : Graph}

/-! ### Assets of typed graphs -/

namespace Typed

theorem shaped (h : g.Typed) : g.Shaped
  where
  toTextual := h.toTextual
  types := h.types
  fields := h.fields
  records := h.records

theorem legible (h : g.Typed) {e : Edge} (he : e ∈ g.edges) : e.Legible
  := by
  obtain ⟨port, hport⟩ := h.ports e he
  obtain ⟨slot, hslot⟩ := h.indices e he port hport
  exact ⟨port, slot, hport, hslot⟩

theorem exists_slot_of_mem (h : g.Typed) {n : Node} (hn : n ∈ g.nodes) {e : Edge}
    (he : e ∈ g.edges) :
  ∃ slot, n.slot e.targetPort = .ok slot
  := by
  obtain ⟨discriminant, hdiscriminant⟩ := h.shaped.exists_discriminant hn
  rw [Node.slot, hdiscriminant, Fault.ok_bind]
  apply (h.shaped.exists_slotOf_iff hn he discriminant).mpr (h.legible he)

/-- Every node of a typed graph has an asset. -/
theorem exists_assetOf (h : g.Typed) {id : String} (hid : id ∈ g.nodes.map Node.id) :
  ∃ fields, g.assetOf id = .ok (some (.obj fields))
  := by
  obtain ⟨found, hfound⟩ := (h.shaped.exists_assetOf_iff id).mpr fun e hmeets =>
    h.legible hmeets.mem
  obtain ⟨v, rfl⟩ := Option.isSome_iff_exists.mp ((h.shaped.isSome_assetOf_iff hfound).mpr hid)
  rw [assetOf_eq] at hfound ⊢
  obtain ⟨fields, rfl⟩ := Outline.exists_obj hfound
  exact ⟨fields, hfound⟩

end Typed

/-! ### Acyclic graphs -/

/-- Whether an edge leads from one id to another. -/
def Feeds (g : Graph) (source target : String) : Prop :=
  ∃ e ∈ g.edges, e.source = source ∧ e.target = target

theorem feeds_of_mem_inboundEdges {g : Graph} {id : String} {e : Edge}
    (he : e ∈ g.inboundEdges id) :
  g.Feeds e.source id
  := by
  obtain ⟨hmem, htarget⟩ := List.mem_filter.mp he
  exact ⟨e, hmem, rfl, by simpa using htarget⟩

/-- Whether no path of edges leads from an id to itself. -/
def Acyclic (g : Graph) : Prop := ∀ id, ¬ Relation.TransGen g.Feeds id id

/-- A graph in which no target of an edge is a source is acyclic. -/
theorem acyclic_of_apart (h : ∀ e ∈ g.edges, ∀ e' ∈ g.edges, e.target ≠ e'.source) : g.Acyclic
  := by
  intro id hpath
  obtain ⟨_, ⟨e, he, hsource, -⟩, -⟩ := Relation.TransGen.head'_iff.mp hpath
  obtain ⟨_, -, ⟨e', he', -, htarget⟩⟩ := Relation.TransGen.tail'_iff.mp hpath
  exact h e' he' e he (htarget.trans hsource.symm)

/-- Whether two graphs show the same at an id: the content of the node and what the edges bring
to it. -/
structure SameAt (g g' : Graph) (id : String) : Prop where
  content : (Entries.find? g.nodeMap id).map Node.content
    = (Entries.find? g'.nodeMap id).map Node.content
  feeds : (g.inboundEdges id).map Edge.feed = (g'.inboundEdges id).map Edge.feed

/-- The outline of an id depends only on what the graph shows at the ids above, and on which of
them are fresh. -/
theorem unfold_eq_of_sameAt (g g' : Graph) (fresh fresh' : List String) (id : String)
    (hsame : ∀ other, Relation.ReflTransGen g.Feeds other id →
      (other ∈ fresh ↔ other ∈ fresh') ∧ g.SameAt g' other) :
  g.unfold fresh id = g'.unfold fresh' id
  := by
  induction fresh, id using walk_induction generalizing fresh' with
  | step fresh id ih =>
    obtain ⟨hfresh, hcontent, hfeeds⟩ := hsame id .refl
    rw [unfold, unfold, hcontent]
    by_cases hmem : id ∈ fresh
    · rw [dif_pos hmem, dif_pos (hfresh.mp hmem)]
      have hinputs (h : Graph) (others : List String) :
          (h.inboundEdges id).map (fun e => (e.targetPort, h.unfold others e.source))
            = ((h.inboundEdges id).map Edge.feed).map fun f => (f.2, h.unfold others f.1) := by
        rw [List.map_map]
        rfl
      have hbelow : (g.inboundEdges id).map (fun e =>
            (e.targetPort, g.unfold (Walk.without fresh id) e.source))
          = (g'.inboundEdges id).map fun e =>
            (e.targetPort, g'.unfold (Walk.without fresh' id) e.source) := by
        rw [hinputs g', ← hfeeds, List.map_map]
        apply List.map_congr_left
        intro e he
        rw [Function.comp_apply, Edge.feed, Prod.mk.injEq]
        use rfl
        apply ih hmem
        intro other hother
        obtain ⟨hin, hat⟩ := hsame other (hother.tail (feeds_of_mem_inboundEdges he))
        rw [Walk.mem_without, Walk.mem_without, hin]
        exact ⟨Iff.rfl, hat⟩
      revert hcontent
      rw [hbelow]
      cases Entries.find? g.nodeMap id with
      | none => cases Entries.find? g'.nodeMap id <;> simp
      | some n => cases Entries.find? g'.nodeMap id <;> simp
    · rw [dif_neg hmem, dif_neg fun hin => hmem (hfresh.mpr hin)]

/-- A walk up a graph depends only on which of the ids above are fresh. -/
theorem unfold_congr (g : Graph) (fresh fresh' : List String) (id : String)
    (hsame : ∀ other, Relation.ReflTransGen g.Feeds other id → (other ∈ fresh ↔ other ∈ fresh')) :
  g.unfold fresh id = g.unfold fresh' id
  := g.unfold_eq_of_sameAt g fresh fresh' id fun other hother => ⟨hsame other hother, rfl, rfl⟩

namespace Acyclic

/-- The source of an edge is unfolded below its target as it is on its own. -/
theorem unfold_source (h : g.Acyclic) {e : Edge} (he : e ∈ g.edges) (fresh : List String) :
  g.unfold (Walk.without fresh e.target) e.source = g.unfold fresh e.source
  := by
  apply unfold_congr
  intro other hother
  rw [Walk.mem_without, and_iff_left_iff_imp]
  rintro - rfl
  apply h e.target
  apply Relation.TransGen.tail' hother
  exact ⟨e, he, rfl, rfl⟩

end Acyclic

end Graph

end AssetCanvas
