import AssetCanvas.Proofs.Children
import AssetCanvas.Proofs.Validity

/-!
# Nodes as pictures of assets

Every node of the graph of a layout depicts an asset of the tree, `Graph.Depicts`: it has the
content of the asset, and the edges into it feed the ports of the children.
-/

namespace AssetCanvas

open Json

namespace Graph

open Asset Layout

variable {g : Graph} {stem : String} {field : Option String} {fields : Fields}

/-- A node is the node of an asset, and the edges into it feed the ports of its children. -/
structure Depicts (g : Graph) (n : Node) (parent : Option String) (t : Fields) : Prop where
  content : n.content = Asset.content parent t
  ports : (g.inboundEdges n.id).map Edge.targetPort = (children t).map (portOf parent t)

namespace Realizes

theorem ports_eq {F : Fragment} (h : g.Realizes F) (id : String) :
  (g.inboundEdges id).map Edge.targetPort = portsAt F.edges id
  := by
  have hports := congrArg (List.map Prod.snd) (h.feeds_eq id)
  rw [List.map_map, List.map_map] at hports
  apply hports

/-- The nodes of a graph of the form of a layout are the nodes of the assets of the tree. -/
theorem exists_depicts (h : g.Realizes (placeRoot stem field fields)) {n : Node}
    (hn : n ∈ g.nodes) :
  ∃ parent t, Reaches field fields parent t ∧ g.Depicts n parent t
  := by
  obtain ⟨m, hm, hid, hcontent⟩ := h.exists_placed hn
  obtain ⟨a, ha, hdescribes⟩ := Fault.exists_of_mem_right
    (describes_placeRoot stem field fields).flip hm
  use a.1, a.2, mem_descent_iff.mp ha
  constructor
  · rw [hcontent, hdescribes.content]
  · rw [h.ports_eq, hid, hdescribes.ports]

/-- The first node is the node of the tree. -/
theorem depicts_root (h : g.Realizes (placeRoot stem field fields)) {n : Node} (hn : n ∈ g.nodes)
    (hid : n.id = nodeId stem 1) :
  g.Depicts n field fields
  := by
  have hroot := describes_root (Eq.refl (Owner.ofAsset stem 0 .start field fields))
  obtain ⟨m, hm, hid', hcontent⟩ := h.exists_placed hn
  rw [placeRoot_eq] at hm
  rcases List.mem_cons.mp hm with rfl | hm
  · constructor
    · rw [hcontent, hroot.content]
    · rw [h.ports_eq, hid', placeRoot_eq]
      apply hroot.ports
  · -- the other nodes have greater numbers
    exfalso
    apply (numbered_body stem field fields).not_mem_ids (Nat.le_refl 1)
    rw [← hid, hid']
    apply List.mem_map_of_mem hm

theorem exists_node (h : g.Realizes (placeRoot stem field fields)) {parent : Option String}
    {t : Fields} (hreach : Reaches field fields parent t) :
  ∃ n ∈ g.nodes, g.Depicts n parent t
  := by
  obtain ⟨m, hm, hdescribes⟩ := Fault.exists_of_mem_right (describes_placeRoot stem field fields)
    (mem_descent_iff.mpr hreach)
  obtain ⟨n, hn, hid, hcontent⟩ := h.exists_of_placed hm
  use n, hn
  constructor
  · rw [hcontent, hdescribes.content]
  · rw [h.ports_eq, hid, hdescribes.ports]

/-- What holds of every node exactly if it holds of the asset of the node holds of all nodes
exactly if it holds of all assets. -/
theorem forall_nodes_iff (h : g.Realizes (placeRoot stem field fields)) {P : Node → Prop}
    {Q : Option String → Fields → Prop}
    (hPQ : ∀ n ∈ g.nodes, ∀ parent t, Reaches field fields parent t → g.Depicts n parent t →
      (P n ↔ Q parent t)) :
  (∀ n ∈ g.nodes, P n) ↔ Everywhere Q field fields
  := by
  constructor
  · intro hP parent t hreach
    obtain ⟨n, hn, hdepicts⟩ := h.exists_node hreach
    apply (hPQ n hn parent t hreach hdepicts).mp (hP n hn)
  · intro hQ n hn
    obtain ⟨parent, t, hreach, hdepicts⟩ := h.exists_depicts hn
    apply (hPQ n hn parent t hreach hdepicts).mpr (hQ parent t hreach)

theorem endsIn (h : g.Realizes (placeRoot stem field fields)) {e : Edge} (he : e ∈ g.edges) :
  EndsIn (g.nodes.map Node.id) e
  := by
  obtain ⟨e', he', hsource, htarget, -⟩ := h.exists_edge he
  obtain ⟨a, b, hs, ht, hlow, hlt, hhigh⟩ := exists_of_mem_placeRoot stem field fields he'
  have hnumbered := numbered_placeRoot stem field fields
  rw [EndsIn, h.ids_eq, hsource, htarget, hs, ht]
  constructor
  · apply hnumbered.mem_ids.mpr
    use a, rfl
    omega
  · apply hnumbered.mem_ids.mpr
    use b, rfl
    omega

theorem nodup_sources (h : g.Realizes (placeRoot stem field fields)) :
  (g.edges.map Edge.source).Nodup
  := by
  have hsources := congrArg (List.map Prod.fst) h.edges
  rw [List.map_map, List.map_map] at hsources
  have hnodup := nodup_sources_placeRoot stem field fields
  rw [show g.edges.map Edge.source = (placeRoot stem field fields).edges.map Edge.source from
    hsources]
  apply hnodup

end Realizes

namespace Depicts

variable {n : Node} {parent : Option String} {t : Fields}

theorem label (h : g.Depicts n parent t) : n.label = .str (classify t parent).label
  := congrArg Node.label h.content

/-- What holds of the ports of the edges holds of the ports of the children. -/
theorem forall_ports_iff (h : g.Depicts n parent t) {P : Json → Prop} :
  (∀ e ∈ g.inboundEdges n.id, P e.targetPort) ↔ ∀ c ∈ children t, P (portOf parent t c)
  := by
  have hports := List.forall_mem_map (f := Edge.targetPort) (l := g.inboundEdges n.id) (P := P)
  rw [← hports, h.ports, List.forall_mem_map]

theorem map_ports {α : Type} (h : g.Depicts n parent t) (f : Json → α) :
  (g.inboundEdges n.id).map (fun e => f e.targetPort)
    = (children t).map fun c => f (portOf parent t c)
  := by
  have hports := congrArg (List.map f) h.ports
  rw [List.map_map, List.map_map] at hports
  apply hports

theorem slot_eq (h : g.Depicts n parent t) (port : Json) :
  n.slot port = (Asset.content parent t).slot port
  := by
  rw [← h.content]
  rfl

/-- No edge into the node of an asset feeds a legacy port. -/
theorem replacement?_inputName (h : g.Depicts n parent t) (hm : Mapping t) :
  ∀ e ∈ g.inboundEdges n.id,
    Migration.replacement? (classify t parent).label (.text e.inputName) = none
  := by
  apply (h.forall_ports_iff (P := fun port => Migration.replacement?
    (classify t parent).label (.text (Port.inputName (port.text?.getD ""))) = none)).mpr
  intro c hc
  apply replacement?_entryOf hm hc

end Depicts

/-- The labels and ports of a graph of the form of a layout are texts. -/
theorem Realizes.textual (h : g.Realizes (placeRoot stem field fields))
    (hmapping : Everywhere (fun _ => Mapping) field fields) :
  g.Textual
  where
  labels n hn := by
    obtain ⟨parent, t, -, hdepicts⟩ := h.exists_depicts hn
    exact ⟨_, hdepicts.label⟩
  ports e he := by
    obtain ⟨n, hn, htarget⟩ := List.mem_map.mp (h.endsIn he).2
    obtain ⟨parent, t, hreach, hdepicts⟩ := h.exists_depicts hn
    have hports := hdepicts.forall_ports_iff (P := fun port => ∃ name, port = .str name)
    apply hports.mpr
    · intro c hc
      obtain ⟨name, hport⟩ := exists_portOf parent (hmapping parent t hreach) hc
      exact ⟨_, hport⟩
    · apply List.mem_filter.mpr
      exact ⟨he, decide_eq_true htarget.symm⟩

end Graph

end AssetCanvas
