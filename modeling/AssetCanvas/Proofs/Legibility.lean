import AssetCanvas.Proofs.Outline
import AssetCanvas.Proofs.Tables

/-!
# The ports that an assembly reads

The assembly of an asset puts the assets of the sources that it has not entered yet into the
slots of their ports.  Those are the edges that it meets, `Graph.Meets`.  In a graph with
attributes of the usual kinds, `Graph.Shaped`, the asset of an id is put together exactly if the
ports of these edges can be read, `Graph.Shaped.exists_toAsset_iff`.
-/

namespace AssetCanvas

open Assembly

/-- A graph with textual labels and ports, whose discriminants are texts or missing and whose
nodes hold objects. -/
structure Graph.Shaped (g : Graph) : Prop extends g.Textual where
  types : ∀ n ∈ g.nodes, n.assetType = .null ∨ ∃ type, n.assetType = .str type
  fields : ∀ n ∈ g.nodes, ∃ fields, n.fields = .obj fields
  records : ∀ n ∈ g.nodes, n.arrayFields = .null ∨ ∃ names, n.arrayFields = .arr names

/-- Whether the port of an edge can be read.  It cannot if it has an index with too many
digits. -/
def Edge.Legible (e : Edge) : Prop :=
  ∃ port slot, e.targetPort = .str port ∧ Port.parse port = .ok slot

namespace Graph

/-- Whether the assembly of an id puts the asset of the source of an edge in place, given the ids
that it has not entered yet. -/
inductive Meets (g : Graph) : List String → String → Edge → Prop
  | here {fresh : List String} {id : String} {e : Edge} : id ∈ fresh → e ∈ g.inboundEdges id →
    e.source ∈ Walk.without fresh id → Meets g fresh id e
  | above {fresh : List String} {id : String} {e e' : Edge} : id ∈ fresh →
    e' ∈ g.inboundEdges id → Meets g (Walk.without fresh id) e'.source e → Meets g fresh id e

variable {g : Graph}

theorem Meets.mem {fresh : List String} {id : String} {e : Edge} (h : g.Meets fresh id e) :
  e ∈ g.edges
  := by
  induction h with
  | here _ he _ => apply List.mem_of_mem_filter he
  | above _ _ _ ih => apply ih

/-- The assembly of an id meets the edges from the ids that are still fresh, and what it meets
above them. -/
theorem forall_meets_iff {fresh : List String} {id : String} (h : id ∈ fresh)
    {P : Edge → Prop} :
  (∀ e, g.Meets fresh id e → P e)
    ↔ ∀ e ∈ g.inboundEdges id, (e.source ∈ Walk.without fresh id → P e)
      ∧ ∀ e', g.Meets (Walk.without fresh id) e.source e' → P e'
  := by
  constructor
  · intro hall e he
    constructor
    · intro hsource
      apply hall e (.here h he hsource)
    · intro e' hmeets
      apply hall e' (.above h he hmeets)
  · intro hall e hmeets
    cases hmeets with
    | here _ he hsource => apply (hall e he).1 hsource
    | above _ he hmeets => apply (hall _ he).2 e hmeets

namespace Shaped

theorem exists_discriminant (h : g.Shaped) {n : Node} (hn : n ∈ g.nodes) :
  ∃ discriminant, n.discriminant = .ok discriminant
  := by
  obtain ⟨label, hlabel⟩ := h.labels n hn
  rw [Node.discriminant, hlabel]
  split
  · exact ⟨_, rfl⟩
  · split
    · exact ⟨_, rfl⟩
    · exact ⟨_, rfl⟩

theorem exists_recordAdmits (h : g.Shaped) {n : Node} (hn : n ∈ g.nodes) :
  ∃ admits, Slot.recordAdmits n.arrayFields = .ok admits
  := by
  rcases h.records n hn with hr | ⟨names, hr⟩
  · rw [hr]
    exact ⟨_, rfl⟩
  · rw [hr]
    exact ⟨_, rfl⟩

theorem exists_ownFields (h : g.Shaped) {n : Node} (hn : n ∈ g.nodes) (discriminant : Json) :
  ∃ own, ownFields n discriminant = .ok own
  := by
  obtain ⟨fields, hfields⟩ := h.fields n hn
  simp [ownFields, hfields, Json.members]

/-- The port of an edge means a slot of a node exactly if it can be read. -/
theorem exists_slotOf_iff (h : g.Shaped) {n : Node} (hn : n ∈ g.nodes) {e : Edge}
    (he : e ∈ g.edges) (discriminant : Json) :
  (∃ slot, slotOf n discriminant e.targetPort = .ok slot) ↔ e.Legible
  := by
  obtain ⟨label, hlabel⟩ := h.labels n hn
  obtain ⟨port, hport⟩ := h.ports e he
  obtain ⟨admits, hadmits⟩ := h.exists_recordAdmits hn
  rw [slotOf, hlabel, hport, Slot.exists_ofPort_iff port discriminant label hadmits]
  simp [Edge.Legible, hport]

/-- The asset of an id is put together exactly if the ports of the edges that the assembly meets
can be read; it is found exactly if the walk enters the id. -/
theorem exists_toAsset_iff (h : g.Shaped) {fresh : List String}
    (hfresh : ∀ id ∈ fresh, id ∈ Entries.keys g.nodeMap) (id : String) :
  (∀ found, (g.unfold fresh id).toAsset = .ok found → (found.isSome = true ↔ id ∈ fresh))
    ∧ ((∃ found, (g.unfold fresh id).toAsset = .ok found)
      ↔ ∀ e, g.Meets fresh id e → e.Legible)
  := by
  induction fresh, id using walk_induction with
  | step fresh id ih =>
    rw [unfold]
    by_cases hmem : id ∈ fresh
    · have hwithout : ∀ other ∈ Walk.without fresh id, other ∈ Entries.keys g.nodeMap :=
        fun other hother => hfresh other (Walk.mem_without.mp hother).1
      obtain ⟨n, hfind⟩ := Entries.mem_keys_iff.mp (hfresh id hmem)
      have hn := (mem_nodes_of_find? hfind).1
      obtain ⟨discriminant, hdiscriminant⟩ := h.exists_discriminant hn
      obtain ⟨own, hown⟩ := h.exists_ownFields hn discriminant
      replace hdiscriminant : n.content.discriminant = .ok discriminant := hdiscriminant
      replace hown : ownFields n.content discriminant = .ok own := hown
      rw [dif_pos hmem, hfind]
      simp only [Outline.toAsset, hdiscriminant, Fault.ok_bind, hown]
      constructor
      · intro found hfound
        obtain ⟨parts, -, hfound⟩ := Fault.bind_eq_ok_iff.mp hfound
        obtain rfl := Except.ok.inj hfound
        simp [hmem]
      · rw [Fault.exists_bind_pure_iff, forall_meets_iff hmem, Outline.exists_putInputs_iff,
          List.forall_mem_map]
        apply forall₂_congr
        intro e he
        obtain ⟨hsome, hexists⟩ := ih hmem e.source hwithout
        have hslot : (∃ slot, slotOf n.content discriminant e.targetPort = .ok slot) ↔ e.Legible :=
          h.exists_slotOf_iff hn (List.mem_of_mem_filter he) discriminant
        rw [← hexists, hslot]
        constructor
        · rintro ⟨found, hfound, hlegible⟩
          rw [hsome found hfound] at hlegible
          exact ⟨hlegible, found, hfound⟩
        · rintro ⟨hlegible, found, hfound⟩
          use found, hfound
          rw [hsome found hfound]
          exact hlegible
    · rw [dif_neg hmem]
      constructor
      · intro found hfound
        obtain rfl := Except.ok.inj hfound
        simp [hmem]
      · constructor
        · intro _ e hmeets
          cases hmeets <;> exact (hmem ‹_›).elim
        · intro _
          exact ⟨none, rfl⟩

end Shaped

/-! ### Assets of nodes -/

/-- Whether the ports that the assembly of an id reads can be read. -/
def Legible (g : Graph) (id : String) : Prop :=
  ∀ e, g.Meets (Entries.keys g.nodeMap) id e → e.Legible

theorem assetOf_eq (g : Graph) (id : String) :
  g.assetOf id = (g.unfold (Entries.keys g.nodeMap) id).toAsset
  := assemble_eq g (Entries.keys g.nodeMap) id

namespace Shaped

/-- The asset of an id is put together exactly if the ports that the assembly reads can be
read. -/
theorem exists_assetOf_iff (h : g.Shaped) (id : String) :
  (∃ found, g.assetOf id = .ok found) ↔ g.Legible id
  := by
  rw [assetOf_eq]
  apply (h.exists_toAsset_iff (fun _ hmem => hmem) id).2

/-- The ids with an asset are those of the nodes. -/
theorem isSome_assetOf_iff (h : g.Shaped) {id : String} {found : Option Json}
    (hfound : g.assetOf id = .ok found) :
  found.isSome = true ↔ id ∈ g.nodes.map Node.id
  := by
  rw [assetOf_eq] at hfound
  rw [(h.exists_toAsset_iff (fun _ hmem => hmem) id).1 found hfound, mem_keys_nodeMap_iff]

end Shaped

end Graph

end AssetCanvas
