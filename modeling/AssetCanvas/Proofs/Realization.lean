import AssetCanvas.Proofs.Documents
import AssetCanvas.Proofs.Outline
import AssetCanvas.Proofs.Spelling

/-!
# Graphs of layouts

A graph realizes a fragment if it has the nodes and the edges of the fragment, whatever their
positions and the ids of the edges: `Graph.Realizes`.  The graph of a layout realizes the
fragment of its tree, and so does the graph that is read from what is written of it.  The asset
of a graph that realizes a layout is computed from the outlines of the tree alone,
`Graph.Realizes.toAsset_eq`.
-/

namespace AssetCanvas

open Layout Asset

/-- The ends of an edge and the port that it feeds. -/
def Edge.ends (e : Edge) : String × String × Json := (e.source, e.target, e.targetPort)

/-- The nodes of the graph are the nodes of the fragment, without tags, and its edges lead from
and to the same nodes and ports. -/
structure Graph.Realizes (g : Graph) (F : Fragment) : Prop where
  nodes : (g.nodes.map fun n => (n.id, n.content)) = F.nodes.map fun m => (m.owner.id, m.content)
  edges : g.edges.map Edge.ends = F.edges.map Edge.ends
  untagged : ∀ n ∈ g.nodes, n.isOutput = false

/-- Nodes with distinct ids are looked up as they stand. -/
theorem Graph.nodeMap_eq (g : Graph) (hd : (g.nodes.map Node.id).Nodup) :
  g.nodeMap = g.nodes.map fun n => (n.id, n)
  := by
  apply Entries.Distinct.ofList_eq
  rw [Entries.distinct_iff_nodup, Entries.keys, List.map_map]
  apply hd

theorem Graph.find?_nodeMap (g : Graph) (hd : (g.nodes.map Node.id).Nodup) {n : Node}
    (hn : n ∈ g.nodes) :
  Entries.find? g.nodeMap n.id = some n
  := by
  have hdistinct : Entries.Distinct g.nodeMap := Entries.distinct_ofList _
  apply hdistinct.find?_of_mem
  rw [g.nodeMap_eq hd]
  apply List.mem_map_of_mem hn

namespace Graph.Realizes

variable {g : Graph} {F : Fragment}

theorem ids_eq (h : g.Realizes F) : g.nodes.map Node.id = F.ids
  := by
  have hids := congrArg (List.map Prod.fst) h.nodes
  rw [List.map_map, List.map_map] at hids
  apply hids

theorem keys_nodeMap (h : g.Realizes F) (hd : F.ids.Nodup) : Entries.keys g.nodeMap = F.ids
  := by
  rw [g.nodeMap_eq (by rwa [h.ids_eq]), ← h.ids_eq, Entries.keys, List.map_map]
  rfl

/-- Every node is a node of the fragment. -/
theorem exists_placed (h : g.Realizes F) {n : Node} (hn : n ∈ g.nodes) :
  ∃ m ∈ F.nodes, n.id = m.owner.id ∧ n.content = m.content
  := by
  have hmem : (n.id, n.content) ∈ F.nodes.map fun m => (m.owner.id, m.content) := by
    rw [← h.nodes]
    apply List.mem_map_of_mem hn
  obtain ⟨m, hm, heq⟩ := List.mem_map.mp hmem
  obtain ⟨hid, hcontent⟩ := Prod.mk.inj heq
  exact ⟨m, hm, hid.symm, hcontent.symm⟩

/-- Every node of the fragment is a node. -/
theorem exists_of_placed (h : g.Realizes F) {m : PlacedNode} (hm : m ∈ F.nodes) :
  ∃ n ∈ g.nodes, n.id = m.owner.id ∧ n.content = m.content
  := by
  have hmem : (m.owner.id, m.content) ∈ g.nodes.map fun n => (n.id, n.content) := by
    rw [h.nodes]
    apply List.mem_map_of_mem hm
  obtain ⟨n, hn, heq⟩ := List.mem_map.mp hmem
  exact ⟨n, hn, Prod.mk.inj heq⟩

/-- Every edge is an edge of the fragment. -/
theorem exists_edge (h : g.Realizes F) {e : Edge} (he : e ∈ g.edges) :
  ∃ e' ∈ F.edges, e.source = e'.source ∧ e.target = e'.target ∧ e.targetPort = e'.targetPort
  := by
  have hmem : e.ends ∈ F.edges.map Edge.ends := by
    rw [← h.edges]
    apply List.mem_map_of_mem he
  obtain ⟨e', he', heq⟩ := List.mem_map.mp hmem
  obtain ⟨hsource, hrest⟩ := Prod.mk.inj heq
  obtain ⟨htarget, hport⟩ := Prod.mk.inj hrest
  exact ⟨e', he', hsource.symm, htarget.symm, hport.symm⟩

/-- The edges into an id bring to it what they bring in the fragment. -/
theorem feeds_eq (h : g.Realizes F) (id : String) :
  (g.inboundEdges id).map Edge.feed = (F.edges.filter fun e => e.target = id).map Edge.feed
  := by
  have hfilter : ∀ edges : List Edge, (edges.filter fun e => e.target = id).map Edge.feed
      = ((edges.map Edge.ends).filter fun ends => ends.2.1 = id).map fun ends =>
        (ends.1, ends.2.2) := by
    intro edges
    rw [List.filter_map, List.map_map]
    rfl
  rw [inboundEdges, hfilter, hfilter, h.edges]

theorem feedsEdge_eq (h : g.Realizes F) (id : String) :
  g.feedsEdge id = F.edges.any fun e => e.source = id
  := by
  have hany : ∀ edges : List Edge, (edges.any fun e => e.source = id)
      = (edges.map Edge.ends).any fun ends => ends.1 = id := by
    intro edges
    rw [List.any_map]
    rfl
  rw [feedsEdge, hany, hany, h.edges]

theorem hosts (h : g.Realizes F) (hd : F.ids.Nodup) : Hosts g F.nodes F.edges
  := by
  intro m hmem
  constructor
  · obtain ⟨n, hn, hid, hcontent⟩ := h.exists_of_placed hmem
    use n
    rw [← hid]
    use g.find?_nodeMap (by rwa [h.ids_eq]) hn
  · apply h.feeds_eq

theorem terminalIds_eq (h : g.Realizes F) :
  g.terminalNodes.map Node.id = F.terminals.map fun m => m.owner.id
  := by
  have hg : g.terminalNodes.map Node.id
      = (g.nodes.map Node.id).filter fun id => !F.edges.any fun e => e.source = id := by
    rw [List.filter_map, terminalNodes]
    simp only [h.feedsEdge_eq]
    rfl
  rw [hg, h.ids_eq, Fragment.ids, List.filter_map, Fragment.terminals]
  rfl

end Graph.Realizes

/-! ### The asset of a layout -/

namespace Layout

variable (stem : String) (field : Option String) (fields : Fields)

theorem placeRoot_eq :
  placeRoot stem field fields
    = .ofTree (.ofAsset stem 0 .start field fields)
        (bodyOf stem (.ofAsset stem 0 .start field fields) 0 fields)
  := by
  simp only [placeRoot, placeFields_eq]

theorem numbered_body :
  (bodyOf stem (.ofAsset stem 0 .start field fields) 0 fields).Numbered stem 1 1
  := by
  apply numbered_placeParts
  · rfl
  · apply Nat.le_refl

/-- The nodes of the layout of a tree have the numbers from one on. -/
theorem numbered_placeRoot : (placeRoot stem field fields).Numbered stem 0 0
  := by
  have hbody := numbered_body stem field fields
  rw [placeRoot_eq]
  apply hbody.close (n := 0) (.ofAsset stem 0 .start field fields) rfl rfl
  intro e hmem
  left
  apply hmem

/-- An edge of the layout of a tree leads from a node to one with a smaller number. -/
theorem exists_of_mem_placeRoot {e : Edge} (h : e ∈ (placeRoot stem field fields).edges) :
  ∃ a b, e.source = nodeId stem a ∧ e.target = nodeId stem b ∧ 0 < b ∧ b < a
    ∧ a ≤ (placeRoot stem field fields).nodes.length
  := by
  have hmem : e ∈ (bodyOf stem (.ofAsset stem 0 .start field fields) 0 fields).edges := by
    rw [placeRoot_eq] at h
    apply h
  obtain ⟨a, b, hs, ht, hlt, -, -, hb⟩ := (numbered_body stem field fields).edge e hmem
  obtain ⟨a', b', hs', -, -, -, hhigh', -⟩ := (numbered_placeRoot stem field fields).edge e h
  rw [hs, nodeId_inj] at hs'
  use a, b, hs, ht
  omega

theorem nodup_sources_placeRoot : ((placeRoot stem field fields).edges.map Edge.source).Nodup
  := by
  rw [placeRoot_eq]
  apply nodup_sources_placeParts
  · rfl
  · apply Nat.le_refl

/-- The nodes of a layout that feed no edge are the root and the roots of the disconnected
trees. -/
theorem terminals_placeRoot :
  (placeRoot stem field fields).terminals
    = ⟨.ofAsset stem 0 .start field fields,
        (bodyOf stem (.ofAsset stem 0 .start field fields) 0 fields).plain,
        (bodyOf stem (.ofAsset stem 0 .start field fields) 0 fields).arrays⟩
      :: (bodyOf stem (.ofAsset stem 0 .start field fields) 0 fields).terminals
  := by
  rw [placeRoot_eq]
  apply Fragment.terminals_ofTree (numbered_body stem field fields) rfl

end Layout

namespace Graph.Realizes

variable {g : Graph} {stem : String} {field : Option String} {fields : Fields}

theorem nodup_ids (h : g.Realizes (placeRoot stem field fields)) :
  (g.nodes.map Node.id).Nodup
  := by
  rw [h.ids_eq]
  apply (numbered_placeRoot stem field fields).nodup_ids

/-- The root unfolds to the outline of the tree. -/
theorem unfold_root (h : g.Realizes (placeRoot stem field fields)) :
  g.unfold (Entries.keys g.nodeMap) (nodeId stem 1) = outline field fields
  := by
  have hd := (numbered_placeRoot stem field fields).nodup_ids
  have hhosts := h.hosts hd
  rw [placeRoot_eq] at hhosts
  have hroot : Owner.ofAsset stem 0 .start field fields = .ofAsset stem 0 .start field fields := rfl
  apply unfold_asset hroot hhosts
  intro m hmem
  rw [h.keys_nodeMap hd, placeRoot_eq]
  apply List.mem_map_of_mem hmem

theorem assetOf_root (h : g.Realizes (placeRoot stem field fields)) :
  g.assetOf (nodeId stem 1) = (outline field fields).toAsset
  := by
  rw [assetOf, Assembly.assemble_eq, h.unfold_root]

/-- The other nodes that feed no edge are those of the body of the layout. -/
theorem terminalIds_without_root (h : g.Realizes (placeRoot stem field fields)) :
  (g.terminalNodes.filter fun n => n.id ≠ nodeId stem 1).map Node.id
    = (bodyOf stem (.ofAsset stem 0 .start field fields) 0 fields).terminals.map
      fun m => m.owner.id
  := by
  have hbody := numbered_body stem field fields
  have hfilter : (g.terminalNodes.filter fun n => n.id ≠ nodeId stem 1).map Node.id
      = (g.terminalNodes.map Node.id).filter (· ≠ nodeId stem 1) := by
    rw [List.filter_map]
    rfl
  rw [hfilter, h.terminalIds_eq, terminals_placeRoot, List.map_cons, List.filter_cons_of_neg,
    List.filter_eq_self]
  · intro id hmem
    obtain ⟨m, hm, rfl⟩ := List.mem_map.mp hmem
    have hin := List.mem_map_of_mem (f := fun m : PlacedNode => m.owner.id)
      (List.mem_of_mem_filter hm)
    obtain ⟨a, ha, hlow, -⟩ := hbody.mem_ids.mp hin
    rw [decide_eq_true_iff, ha, Ne, nodeId_inj]
    omega
  · simp [Owner.ofAsset]

/-- The assets of the other nodes that feed no edge are those of the disconnected trees. -/
theorem disconnectedAssets_eq (h : g.Realizes (placeRoot stem field fields)) :
  g.disconnectedAssets (nodeId stem 1)
    = do return (← (loose fields).mapM fun t => (outline none t).toAsset).filterMap id
  := by
  have hd := (numbered_placeRoot stem field fields).nodup_ids
  have hhosts := h.hosts hd
  rw [placeRoot_eq] at hhosts
  have hunfold := unfold_terminals g stem (parts fields) (.ofAsset stem 0 .start field fields)
    (m := 1) 0 rfl (Nat.le_refl _) (Entries.keys g.nodeMap) (Hosts.body hhosts) (by
      intro m hmem
      rw [h.keys_nodeMap hd, placeRoot_eq]
      apply List.mem_cons_of_mem
      apply List.mem_map_of_mem hmem)
  have hmap := congrArg (List.mapM Outline.toAsset) hunfold
  rw [List.mapM_map, List.mapM_map, ← loose_eq] at hmap
  have hassetOf : (g.assetOf ∘ fun m : PlacedNode => m.owner.id)
      = Outline.toAsset ∘ fun m => g.unfold (Entries.keys g.nodeMap) m.owner.id := by
    funext m
    rw [Function.comp_apply, assetOf, Assembly.assemble_eq]
    rfl
  rw [disconnectedAssets, assetsOf, h.terminalIds_without_root, List.mapM_map, hassetOf, hmap]
  rfl

/-- The root of the asset of the whole graph is the node of the tree. -/
theorem exists_primaryRoot (h : g.Realizes (placeRoot stem field fields)) :
  ∃ primary, g.primaryRoot .null = some primary ∧ primary.id = nodeId stem 1
  := by
  have htagged : g.nodes.filter Node.isOutput = [] := by
    rw [List.filter_eq_nil_iff]
    intro n hmem
    simp [h.untagged n hmem]
  have hids := h.terminalIds_eq
  rw [terminals_placeRoot, List.map_cons] at hids
  obtain ⟨primary, rest, hterminals, hid, -⟩ := List.map_eq_cons_iff.mp hids
  use primary
  constructor
  · simp [primaryRoot, Json.isNull, roots, htagged, hterminals]
  · apply hid

theorem feedsEdge_root (h : g.Realizes (placeRoot stem field fields)) :
  g.feedsEdge (nodeId stem 1) = false
  := by
  rw [h.feedsEdge_eq, placeRoot_eq]
  apply (numbered_body stem field fields).not_source
  left
  apply Nat.le_refl

/-- The asset of a graph that realizes the layout of a tree: the asset of the outline of the tree,
with the assets of the outlines of its disconnected trees. -/
theorem toAsset_eq (h : g.Realizes (placeRoot stem field fields)) :
  g.toAsset .null = do
    match ← (outline field fields).toAsset with
    | none => return none
    | some asset => do
      let trees ← (loose fields).mapM fun t => (outline none t).toAsset
      return some (← counted (withDisconnected asset (trees.filterMap id)))
  := by
  obtain ⟨primary, hprimary, hid⟩ := h.exists_primaryRoot
  rw [toAsset, hprimary]
  simp only [assetFrom, hid, h.feedsEdge_root, h.assetOf_root, h.disconnectedAssets_eq]
  cases (outline field fields).toAsset with
  | error fault => rfl
  | ok found =>
    cases found with
    | none => rfl
    | some asset =>
      simp only [Fault.ok_bind]
      cases ((loose fields).mapM fun t => (outline none t).toAsset) with
      | error fault => rfl
      | ok trees => rfl

end Graph.Realizes

/-! ### Layouts -/

namespace Layout

/-- The field that holds the root matters only for the label of the root. -/
theorem parentOf_ofOption (fields : Fields) (field : Option String) :
  ∃ parent, parentOf fields (Json.ofOption field) = .ok parent
    ∧ classify fields parent = classify fields field
  := by
  unfold parentOf
  by_cases hv : isVectorConstant fields = true
  · use none
    rw [if_pos hv]
    use rfl
    simp [classify, hv]
  · rw [if_neg hv]
    cases field with
    | none =>
      use none
      constructor <;> rfl
    | some s =>
      by_cases hs : s = ""
      · use none
        subst hs
        use rfl
        simp only [classify, hv]
        rfl
      · use some s
        constructor
        · simp [Label.parentName, Json.ofOption, Json.truthy, hs, Json.key, Json.key?, Key.text?]
        · rfl

theorem placeRoot_congr (stem : String) {fields : Fields} {parent field : Option String}
    (h : classify fields parent = classify fields field) :
  placeRoot stem parent fields = placeRoot stem field fields
  := by
  simp only [placeRoot, Owner.ofAsset, h]

/-- At a root field that is given as a text or not at all, the layout of a tree is the one of its
fragment, if the stem of the ids has a spelling. -/
theorem ofAsset_ofOption (fields : Fields) (stem : Json) (start : Float × Float)
    (field : Option String) (policy : LayoutPolicy) :
  Layout.ofAsset (.obj fields) stem start (Json.ofOption field) policy
    = (stemValue policy stem).spelled >>= fun _ =>
      ofFields (stemOf policy stem) policy start field fields
  := by
  obtain ⟨parent, hparent, hclass⟩ := parentOf_ofOption fields field
  cases hstem : (stemValue policy stem).isSpellable with
  | false => simp only [Layout.ofAsset, Json.spelled, hstem, Bool.false_eq_true, if_false]; rfl
  | true =>
    simp only [Layout.ofAsset, Json.spelled_eq_ok hstem, hparent, Fault.ok_bind, ofFields,
      placeRoot_congr _ hclass, stemOf]

theorem content_of_toNode {policy : LayoutPolicy} {start : Float × Float} {m : PlacedNode}
    {n : Node} (h : m.toNode policy start = .ok n) :
  n.id = m.owner.id ∧ n.content = m.content ∧ n.isOutput = false ∧ n.sectionTag = .null
  := by
  obtain ⟨position, -, hn⟩ := Fault.bind_eq_ok_iff.mp h
  obtain rfl := Except.ok.inj hn
  exact ⟨rfl, rfl, rfl, rfl⟩

/-- What a layout of a tree is made of. -/
theorem ofAsset_eq_ok {fields : Fields} {stem : Json} {start : Float × Float}
    {field : Option String} {policy : LayoutPolicy} {l : Layout}
    (h : Layout.ofAsset (.obj fields) stem start (Json.ofOption field) policy = .ok l) :
  l.rootId = nodeId (stemOf policy stem) 1
    ∧ l.edges = (placeRoot (stemOf policy stem) field fields).edges
    ∧ List.Forall₂ (fun m n => PlacedNode.toNode policy start m = .ok n)
        (placeRoot (stemOf policy stem) field fields).nodes l.nodes
  := by
  rw [ofAsset_ofOption] at h
  obtain ⟨-, -, h⟩ := Fault.bind_eq_ok_iff.mp h
  obtain ⟨-, -, h⟩ := Fault.bind_eq_ok_iff.mp h
  obtain ⟨nodes, hnodes, h⟩ := Fault.bind_eq_ok_iff.mp h
  obtain ⟨-, -, h⟩ := Fault.bind_eq_ok_iff.mp h
  obtain rfl := Except.ok.inj h
  exact ⟨rfl, rfl, Fault.mapM_eq_ok_iff.mp hnodes⟩

/-- The graph of a layout realizes the fragment of its tree. -/
theorem realizes_of_ofAsset {fields : Fields} {stem : Json} {start : Float × Float}
    {field : Option String} {policy : LayoutPolicy} {l : Layout}
    (h : Layout.ofAsset (.obj fields) stem start (Json.ofOption field) policy = .ok l) :
  l.toGraph.Realizes (placeRoot (stemOf policy stem) field fields)
  := by
  obtain ⟨-, hedges, hnodes⟩ := ofAsset_eq_ok h
  constructor
  · apply Fault.map_eq_map_of_forall₂
    apply hnodes.flip.imp
    intro n m hn
    obtain ⟨hid, hcontent, -⟩ := content_of_toNode hn
    rw [hid, hcontent]
  · rw [← hedges]
    rfl
  · intro n hmem
    obtain ⟨m, -, hn⟩ := Fault.exists_of_mem_right hnodes hmem
    apply (content_of_toNode hn).2.2.1

/-- The nodes of a layout of one tree belong to no section. -/
theorem sectionTag_of_ofAsset {fields : Fields} {stem : Json} {start : Float × Float}
    {field : Option String} {policy : LayoutPolicy} {l : Layout}
    (h : Layout.ofAsset (.obj fields) stem start (Json.ofOption field) policy = .ok l) {n : Node}
    (hn : n ∈ l.toGraph.nodes) :
  n.sectionTag = .null
  := by
  obtain ⟨-, -, hnodes⟩ := ofAsset_eq_ok h
  obtain ⟨m, -, hm⟩ := Fault.exists_of_mem_right hnodes hn
  apply (content_of_toNode hm).2.2.2

end Layout

/-! ### Restored graphs -/

/-- A node of a layout is written and read with its id and its content. -/
theorem Node.ofJson_toJson {n : Node} {fields : Fields} {names : List Json}
    (hf : n.fields = .obj fields) (hr : n.arrayFields = .arr names) (ho : n.isOutput = false)
    (hs : n.sectionTag = .null) :
  ∃ v n', n.toJson = .ok v ∧ Node.ofJson v = .ok n'
    ∧ (n'.id, n'.content) = (n.id, n.content) ∧ n'.isOutput = false
  := by
  have hwritten : n.toJson = .ok (.obj [("id", .str n.id), ("type", n.label),
      ("asset_type", n.assetType),
      ("position", .obj [("x", .float n.position.1), ("y", .float n.position.2)]),
      ("fields", .obj fields), ("array_fields", .arr names)]) := by
    have houtput : n.output.truthy = false := ho
    simp [Node.toJson, write, values, isOutput, houtput, hs, Json.isNull, recordPart, hr, hf,
      Json.items]
  have hplain : Document.plainFields (.obj fields) = .ok fields := by
    cases fields <;> rfl
  have hfloat : ∀ x : Float, (Json.float x).toFloat = .ok x := fun _ => rfl
  have hread : Node.ofJson (.obj [("id", .str n.id), ("type", n.label),
      ("asset_type", n.assetType),
      ("position", .obj [("x", .float n.position.1), ("y", .float n.position.2)]),
      ("fields", .obj fields), ("array_fields", .arr names)])
      = .ok { id := n.id, label := n.label, assetType := n.assetType, position := n.position,
              fields := .obj fields, arrayFields := .arr names, restored := true } := by
    simp [Node.ofJson, Node.read, Node.named, Json.members, Json.required, Json.field,
      Entries.find?, Document.coordinate, Json.truthy, Document.record, Json.isNull, Json.items,
      hplain, Document.text, Document.spelledOut, hfloat, Json.text?]
  refine ⟨_, _, hwritten, hread, ?_⟩
  simp [Node.content, hf, hr, Node.isOutput, Json.truthy]

/-- An edge into a port with a name is written and read with its ends and its port. -/
theorem Edge.ofJson_toJson {e : Edge} {port : String} (hp : e.targetPort = .str port)
    (hne : port ≠ "") :
  ∃ e', Edge.ofJson e.toJson = .ok e' ∧ e'.ends = e.ends
  := by
  have hread (id : Json) (sourcePort : Json) :
      ∃ e', named ⟨id, .str e.source, sourcePort, .str e.target, .str port⟩ = .ok e'
        ∧ e'.ends = e.ends := by
    refine ⟨_, rfl, ?_⟩
    rw [ends, ends, hp]
  have hport : (Json.str port).truthy = true := by simpa [Json.truthy] using hne
  cases hid : e.id.truthy
  all_goals
    simp [Edge.ofJson, read, toJson, write, values, Document.entry, Json.required,
      Entries.find?, Json.members, Json.field, Document.valueOr, hp, hid, hport, hread]

namespace Graph

/-- A graph of the form of a layout is restored, from what is written of it, with the same nodes
and edges. -/
theorem Realizes.restored {g : Graph} {F : Fragment} (h : g.Realizes F)
    (hsection : ∀ n ∈ g.nodes, n.sectionTag = .null)
    (hport : ∀ e ∈ F.edges, ∃ port, e.targetPort = .str port ∧ port ≠ "") :
  ∃ g', (g.toJson >>= Graph.ofJson) = .ok g' ∧ g'.Realizes F
  := by
  have hnode : ∀ n ∈ g.nodes, ∃ v n', n.toJson = .ok v ∧ Node.ofJson v = .ok n'
      ∧ (n'.id, n'.content) = (n.id, n.content) ∧ n'.isOutput = false := by
    intro n hmem
    obtain ⟨m, -, -, hm⟩ := h.exists_placed hmem
    have hfields : n.fields = .obj m.fields := congrArg Node.fields hm
    have hrecord : n.arrayFields = .arr (m.arrayFields.map Key.toJson) :=
      congrArg Node.arrayFields hm
    apply Node.ofJson_toJson hfields hrecord (h.untagged n hmem) (hsection n hmem)
  have hedge : ∀ e ∈ g.edges, ∃ v e', (pure e.toJson : Except Fault Json) = .ok v
      ∧ Edge.ofJson v = .ok e' ∧ e'.ends = e.ends := by
    intro e hmem
    obtain ⟨e', hmem', -, -, hsame⟩ := h.exists_edge hmem
    obtain ⟨port, hp, hne⟩ := hport e' hmem'
    obtain ⟨e'', he, heq'⟩ := Edge.ofJson_toJson (hsame.trans hp) hne
    exact ⟨e.toJson, e'', rfl, he, heq'⟩
  obtain ⟨vs, nodes, hvs, hnodes, hR⟩ := Fault.exists_mapM_mapM hnode
  obtain ⟨ws, edges, hws, hedges, hR'⟩ := Fault.exists_mapM_mapM hedge
  have hwritten : g.edges.map Edge.toJson = ws := by
    rw [List.mapM_pure] at hws
    apply Except.ok.inj hws
  use ⟨nodes, edges⟩
  constructor
  · obtain ⟨readNodes, hreadNodes, hnamedNodes⟩ := Fault.mapM_bind_eq_ok_iff.mp hnodes
    obtain ⟨readEdges, hreadEdges, hnamedEdges⟩ := Fault.mapM_bind_eq_ok_iff.mp hedges
    have hvs : g.values.nodes.mapM Node.write = .ok vs := by
      rw [values, List.mapM_map]
      exact hvs
    have hwritten : g.values.edges.map Edge.write = ws := by
      rw [values, List.map_map]
      exact hwritten
    simp [toJson, write, hvs, hwritten, ofJson, read, readFields, stampProblems_write,
      Entries.find?, readEntries, hreadNodes, hnamedNodes, hreadEdges, hnamedEdges, named,
      Except.mapError]
  · constructor
    · rw [← h.nodes]
      apply Eq.symm
      apply Fault.map_eq_map_of_forall₂
      apply hR.imp
      intro n n' hn
      exact hn.1.symm
    · rw [← h.edges]
      apply Eq.symm
      apply Fault.map_eq_map_of_forall₂
      apply hR'.imp
      intro e e' he
      exact he.symm
    · intro n' hmem
      obtain ⟨n, -, hn⟩ := Fault.exists_of_mem_right hR hmem
      exact hn.2

end Graph

end AssetCanvas
