import AssetCanvas.Proofs.Numbering
import AssetCanvas.Proofs.Placing

/-!
# Outlines

The outline of a node is what a walk up a graph sees from it: the content of the node with the
outlines of its sources by their ports, in the order of the edges.  `Graph.unfold` is the
outline of an id in a graph, and `Asset.outline` the outline of an asset tree.  An asset is put
together from its outline alone, `Assembly.assemble_eq`, and `Layout.unfold_root` unfolds the
layout of a tree to the outline of the tree.
-/

namespace AssetCanvas

/-- The content of a node: its label, its discriminant, its plain fields and the record of its
array fields. -/
def Node.content (n : Node) : Node :=
  { id := "", label := n.label, assetType := n.assetType, fields := n.fields,
    arrayFields := n.arrayFields }

/-- The outline of a node; it is closed where a walk does not enter the node. -/
inductive Outline where
  | node (content : Node) (inputs : List (Json × Outline))
  | closed (content : Option Node)

/-! ### Outlines of graphs -/

/-- What an edge brings to its target: a source and the port that it feeds. -/
def Edge.feed (e : Edge) : String × Json := (e.source, e.targetPort)

namespace Graph

/-- The outline of an id, given the ids that the walk has not entered yet. -/
def unfold (g : Graph) (fresh : List String) (id : String) : Outline :=
  if _entered : id ∈ fresh then
    match Entries.find? g.nodeMap id with
    | none => .closed none
    | some n =>
      .node n.content ((g.inboundEdges id).map fun e =>
        (e.targetPort, unfold g (Walk.without fresh id) e.source))
  else
    .closed ((Entries.find? g.nodeMap id).map Node.content)
termination_by fresh.length
decreasing_by
  apply Walk.length_without_lt
  assumption

/-- Induction on the walk from an id. -/
theorem walk_induction {P : List String → String → Prop}
    (step : ∀ fresh id, (id ∈ fresh → ∀ source, P (Walk.without fresh id) source) → P fresh id)
    (fresh : List String) (id : String) :
  P fresh id
  := step fresh id fun hmem source =>
    have := Walk.length_without_lt hmem
    walk_induction step (Walk.without fresh id) source
termination_by fresh.length

end Graph

/-! ### Assets of outlines -/

namespace Outline

open Assembly

mutual

/-- The asset of an outline. -/
def toAsset : Outline → Except Fault (Option Json)
  | .node n inputs => do
    let discriminant ← n.discriminant
    let own ← ownFields n discriminant
    return some (.obj (← putInputs n discriminant ⟨own, []⟩ inputs).toFields)
  | .closed _ => .ok none

/-- The parts of an asset with the assets of some inputs. -/
def putInputs (n : Node) (discriminant : Json) (parts : Parts) :
    List (Json × Outline) → Except Fault Parts
  | [] => .ok parts
  | (port, source) :: rest => do
    match ← toAsset source with
    | some child =>
      putInputs n discriminant (parts.put (← slotOf n discriminant port) child) rest
    | none => putInputs n discriminant parts rest

end

end Outline

namespace Outline

open Assembly

/-- The asset of an outline is an object. -/
theorem exists_obj {o : Outline} {v : Json} (h : o.toAsset = .ok (some v)) :
  ∃ fields, v = .obj fields
  := by
  cases o with
  | closed content => cases h
  | node n inputs =>
    rw [toAsset] at h
    obtain ⟨discriminant, -, h⟩ := Fault.bind_eq_ok_iff.mp h
    obtain ⟨own, -, h⟩ := Fault.bind_eq_ok_iff.mp h
    obtain ⟨parts, -, h⟩ := Fault.bind_eq_ok_iff.mp h
    exact ⟨_, (Option.some.inj (Except.ok.inj h)).symm⟩

/-- Inputs whose sources have assets are put into their slots. -/
theorem putInputs_eq (n : Node) (discriminant : Json) {inputs : List (Json × Outline)}
    {writes : List Write}
    (h : List.Forall₂ (fun input w => input.2.toAsset = .ok (some w.2)
      ∧ slotOf n discriminant input.1 = .ok w.1) inputs writes)
    (before : Parts) :
  putInputs n discriminant before inputs = .ok (before.putAll writes)
  := by
  induction h generalizing before with
  | nil => rfl
  | @cons input w rest rest' hw _ ih =>
    rw [putInputs, hw.1]
    simp only [Fault.ok_bind, hw.2]
    apply ih

/-- Inputs are put together exactly if their sources are, and every source with an asset has a
slot. -/
theorem exists_putInputs_iff (n : Node) (discriminant : Json) {inputs : List (Json × Outline)}
    (before : Parts) :
  (∃ parts, putInputs n discriminant before inputs = .ok parts)
    ↔ ∀ input ∈ inputs, ∃ found, input.2.toAsset = .ok found
      ∧ (found.isSome = true → ∃ slot, slotOf n discriminant input.1 = .ok slot)
  := by
  induction inputs generalizing before with
  | nil => simp [putInputs]
  | cons input rest ih =>
    rw [List.forall_mem_cons, putInputs]
    cases hfound : input.2.toAsset with
    | error fault => simp
    | ok found =>
      cases found with
      | none => simp [ih]
      | some child =>
        simp only [Fault.ok_bind]
        cases hslot : slotOf n discriminant input.1 with
        | error fault => simp
        | ok slot => simp [ih]

/-- What is put together is what the sources with assets are put into their slots. -/
theorem exists_writes {n : Node} {discriminant : Json} {inputs : List (Json × Outline)}
    {before after : Parts} (h : putInputs n discriminant before inputs = .ok after) :
  ∃ writes, after = before.putAll writes
    ∧ ∀ w, w ∈ writes ↔ ∃ input ∈ inputs, input.2.toAsset = .ok (some w.2)
      ∧ slotOf n discriminant input.1 = .ok w.1
  := by
  induction inputs generalizing before with
  | nil =>
    obtain rfl := Except.ok.inj h
    use []
    simp [Parts.putAll]
  | cons input rest ih =>
    rw [putInputs] at h
    obtain ⟨found, hfound, h⟩ := Fault.bind_eq_ok_iff.mp h
    cases found with
    | none =>
      obtain ⟨writes, hafter, hwrites⟩ := ih h
      use writes, hafter
      intro w
      simp [hwrites, hfound]
    | some child =>
      obtain ⟨slot, hslot, h⟩ := Fault.bind_eq_ok_iff.mp h
      obtain ⟨writes, hafter, hwrites⟩ := ih h
      use (slot, child) :: writes, hafter
      intro w
      rw [List.mem_cons, hwrites, List.exists_mem_cons_iff, hfound, hslot]
      simp [Prod.ext_iff, and_comm, eq_comm]

end Outline

namespace Assembly

open Outline Fault

/-- Edges put the assets of their sources in place as the inputs of an outline do. -/
theorem foldlM_addChild (n : Node) (discriminant : Json) (outlineOf : String → Outline)
    (parts : Parts) (edges : List Edge) :
  edges.foldlM (addChild n discriminant fun source => (outlineOf source).toAsset) parts
    = putInputs n.content discriminant parts
        (edges.map fun e => (e.targetPort, outlineOf e.source))
  := by
  induction edges generalizing parts with
  | nil => rfl
  | cons e rest ih =>
    rw [List.foldlM_cons, List.map_cons, putInputs, addChild]
    cases h : (outlineOf e.source).toAsset with
    | error fault => rfl
    | ok found =>
      cases found with
      | none =>
        simp only [ok_bind]
        apply ih
      | some child =>
        have hslot : slotOf n.content discriminant e.targetPort
            = slotOf n discriminant e.targetPort := rfl
        simp only [ok_bind, hslot]
        cases slotOf n discriminant e.targetPort with
        | error fault => rfl
        | ok slot =>
          simp only [ok_bind]
          apply ih

/-- The asset of an id is the asset of its outline. -/
theorem assemble_eq (g : Graph) (fresh : List String) (id : String) :
  assemble g g.nodeMap fresh id = (g.unfold fresh id).toAsset
  := by
  induction fresh, id using Graph.walk_induction with
  | step fresh id ih =>
    rw [assemble, Graph.unfold]
    by_cases hmem : id ∈ fresh
    · rw [dif_pos hmem, dif_pos hmem]
      cases hn : Entries.find? g.nodeMap id with
      | none => rfl
      | some n =>
        have hsources : (fun source => assemble g g.nodeMap (Walk.without fresh id) source)
            = fun source => (g.unfold (Walk.without fresh id) source).toAsset := by
          funext source
          apply ih hmem
        have hdiscriminant : n.content.discriminant = n.discriminant := rfl
        simp only [toAsset, ofNode, hsources, foldlM_addChild, hdiscriminant]
        cases n.discriminant with
        | error fault => rfl
        | ok discriminant =>
          have hown : ownFields n.content discriminant = ownFields n discriminant := rfl
          simp only [ok_bind, hown]
          cases ownFields n discriminant with
          | error fault => rfl
          | ok own =>
            simp only [ok_bind]
            cases putInputs n.content discriminant ⟨own, []⟩ ((g.inboundEdges id).map fun e =>
                (e.targetPort, g.unfold (Walk.without fresh id) e.source)) with
            | error fault => rfl
            | ok parts => rfl
    · rw [dif_neg hmem, dif_neg hmem]
      rfl

end Assembly

/-! ### Outlines of assets -/

namespace Asset

/-- The content of the node of an asset. -/
def content (parent : Option String) (fields : Fields) : Node :=
  { id := "", label := .str (classify fields parent).label,
    assetType := (classify fields parent).assetType, fields := .obj (plain fields),
    arrayFields := .arr ((arrays fields).map Key.toJson) }

/-- The port that a child feeds on the node of an asset. -/
def portOf (parent : Option String) (fields : Fields) (c : Child) : Json :=
  Layout.childPort (classify fields parent).assetType (classify fields parent).label c

/-- The outline of an asset. -/
def outline (parent : Option String) (fields : Fields) : Outline :=
  .node (content parent fields) ((children fields).attach.map fun ⟨c, _⟩ =>
    (portOf parent fields c, outline c.key.text? c.fields))
termination_by sizeOf fields
decreasing_by
  rename_i hmem
  apply sizeOf_lt_of_mem_parts (mem_children.mp hmem) rfl

theorem outline_eq (parent : Option String) (fields : Fields) :
  outline parent fields
    = .node (content parent fields) ((children fields).map fun c =>
        (portOf parent fields c, outline c.key.text? c.fields))
  := by
  rw [outline]
  simp

/-- The disconnected trees of an asset, of its children and of the trees themselves. -/
def loose (fields : Fields) : List Fields :=
  (parts fields).attach.flatMap fun ⟨part, _⟩ =>
    match _hpart : part with
    | .child c => loose c.fields
    | .tree _ t => t :: loose t
    | _ => []
termination_by sizeOf fields
decreasing_by
  · rename_i hmem
    subst _hpart
    apply sizeOf_lt_of_mem_parts hmem rfl
  · rename_i hmem
    subst _hpart
    apply sizeOf_lt_of_mem_parts hmem rfl

/-- The disconnected trees below a part. -/
def Part.loose : Part → List Fields
  | .child c => Asset.loose c.fields
  | .tree _ t => t :: Asset.loose t
  | _ => []

theorem loose_eq (fields : Fields) : loose fields = (parts fields).flatMap Part.loose
  := by
  rw [loose]
  conv_rhs => rw [← List.attach_map_subtype_val (parts fields), List.flatMap_map]
  congr 1
  funext ⟨part, _⟩
  cases part <;> rfl

end Asset

/-! ### Outlines of layouts -/

namespace Layout

open Asset

/-- The content of a node whose position is still symbolic. -/
def PlacedNode.content (m : PlacedNode) : Node :=
  { id := "", label := .str m.owner.label, assetType := m.owner.assetType,
    fields := .obj m.fields, arrayFields := .arr (m.arrayFields.map Key.toJson) }

/-- A graph hosts nodes with the edges into them if it has these nodes and, into them, these
edges. -/
def Hosts (g : Graph) (nodes : List PlacedNode) (edges : List Edge) : Prop :=
  ∀ m ∈ nodes,
    (∃ n, Entries.find? g.nodeMap m.owner.id = some n ∧ n.content = m.content) ∧
    (g.inboundEdges m.owner.id).map Edge.feed
      = (edges.filter fun e => e.target = m.owner.id).map Edge.feed

theorem Hosts.restrict {g : Graph} {nodes nodes' : List PlacedNode} {edges edges' : List Edge}
    (h : Hosts g nodes edges) (hnodes : ∀ m ∈ nodes', m ∈ nodes)
    (hedges : ∀ m ∈ nodes', (edges.filter fun e => e.target = m.owner.id)
      = edges'.filter fun e => e.target = m.owner.id) :
  Hosts g nodes' edges'
  := by
  intro m hmem
  obtain ⟨hn, hin⟩ := h m (hnodes m hmem)
  use hn
  rw [hin, hedges m hmem]

/-- What the sources of a node are, if its content and the edges into it are known. -/
theorem unfold_of_hosts {g : Graph} {m : PlacedNode} {nodes : List PlacedNode} {edges : List Edge}
    (h : Hosts g nodes edges) (hmem : m ∈ nodes) {fresh : List String}
    (hfresh : m.owner.id ∈ fresh) :
  g.unfold fresh m.owner.id
    = .node m.content ((edges.filter fun e => e.target = m.owner.id).map fun e =>
        (e.targetPort, g.unfold (Walk.without fresh m.owner.id) e.source))
  := by
  obtain ⟨⟨n, hn, hcontent⟩, hin⟩ := h m hmem
  have hmap := congrArg (List.map fun feed : String × Json =>
    (feed.2, g.unfold (Walk.without fresh m.owner.id) feed.1)) hin
  rw [List.map_map, List.map_map] at hmap
  rw [Graph.unfold, dif_pos hfresh, hn]
  simp only [hcontent]
  congr 1

theorem Hosts.left {g : Graph} {stem : String} {m n : Nat} {F G : Fragment} (hm : m ≤ n)
    (hF : F.Numbered stem m n) (hG : G.Numbered stem m (n + F.nodes.length))
    (h : Hosts g (F ++ G).nodes (F ++ G).edges) :
  Hosts g F.nodes F.edges
  := by
  apply h.restrict
  · intro node hmem
    simp [hmem]
  · intro node hmem
    apply Fragment.filter_target_left hm hF hG hmem

theorem Hosts.right {g : Graph} {stem : String} {m n : Nat} {F G : Fragment} (hm : m ≤ n)
    (hF : F.Numbered stem m n) (hG : G.Numbered stem m (n + F.nodes.length))
    (h : Hosts g (F ++ G).nodes (F ++ G).edges) :
  Hosts g G.nodes G.edges
  := by
  apply h.restrict
  · intro node hmem
    simp [hmem]
  · intro node hmem
    apply Fragment.filter_target_right hm hF hG hmem

theorem Hosts.body {g : Graph} {owner : Owner} {body : Fragment}
    (h : Hosts g (body.close owner) body.edges) :
  Hosts g body.nodes body.edges
  := by
  apply h.restrict
  · intro m hmem
    apply List.mem_cons_of_mem _ hmem
  · intro m _
    rfl

/-- What the edges of a fragment bring to a node: outlines by ports. -/
def inputsAt (g : Graph) (fresh : List String) (edges : List Edge) (id : String) :
    List (Json × Outline) :=
  (edges.filter fun e => e.target = id).map fun e => (e.targetPort, g.unfold fresh e.source)

theorem inputsAt_append (g : Graph) (fresh : List String) (edges edges' : List Edge)
    (id : String) :
  inputsAt g fresh (edges ++ edges') id
    = inputsAt g fresh edges id ++ inputsAt g fresh edges' id
  := by
  simp [inputsAt]

/-- The body of the layout of an asset: the fragment of its fields. -/
abbrev bodyOf (stem : String) (owner : Owner) (n : Nat) (fields : Fields) : Fragment :=
  placeParts stem owner (n + 1) 0 (parts fields)

theorem placePart_child (stem : String) (owner : Owner) (n index : Nat) (c : Child) :
  placePart stem owner n index (.child c)
    = .ofChild owner (childOwner stem owner n index c)
        (childPort owner.assetType owner.label c) (childWarnings owner c) (childChecks owner c)
        (bodyOf stem (childOwner stem owner n index c) n c.fields)
  := by
  simp only [placePart, placeFields_eq]

theorem placePart_tree (stem : String) (owner : Owner) (n index position : Nat) (t : Fields) :
  placePart stem owner n index (.tree position t)
    = .ofTree (treeOwner stem owner n position t)
        (bodyOf stem (treeOwner stem owner n position t) n t)
  := by
  simp only [placePart, placeFields_eq]

/-- The root of the layout of an asset unfolds to the outline of the asset, if the edges into it
bring the outlines of its children. -/
theorem unfold_ofAsset {g : Graph} {stem : String} {n : Nat} {place : Place}
    {parent : Option String} {fields : Fields} {owner : Owner}
    (ho : owner = .ofAsset stem n place parent fields)
    (hinputs : ∀ fresh, Hosts g (bodyOf stem owner n fields).nodes (bodyOf stem owner n fields).edges →
      (∀ m ∈ (bodyOf stem owner n fields).nodes, m.owner.id ∈ fresh) →
        inputsAt g fresh (bodyOf stem owner n fields).edges owner.id
          = (children fields).map fun c =>
            (childPort owner.assetType owner.label c, outline c.key.text? c.fields))
    (h : Hosts g ((bodyOf stem owner n fields).close owner) (bodyOf stem owner n fields).edges)
    {fresh : List String} (hfresh : ∀ m ∈ (bodyOf stem owner n fields).close owner, m.owner.id ∈ fresh) :
  g.unfold fresh owner.id = outline parent fields
  := by
  have hid : owner.id = nodeId stem (n + 1) := by rw [ho]; rfl
  have hnumbered := numbered_placeParts stem (parts fields) owner 0 hid (Nat.le_refl _)
  have hwithout : ∀ m ∈ (bodyOf stem owner n fields).nodes,
      m.owner.id ∈ Walk.without fresh owner.id := by
    intro m hmem
    apply Walk.mem_without.mpr
    use hfresh m (List.mem_cons_of_mem _ hmem)
    intro heq
    apply hnumbered.not_mem_ids (Nat.le_refl _)
    rw [← hid, ← heq]
    apply List.mem_map_of_mem hmem
  have hroot := unfold_of_hosts h (List.mem_cons_self ..) (hfresh _ (List.mem_cons_self ..))
  have hcontent : (⟨owner, plain fields, arrays fields⟩ : PlacedNode).content
      = content parent fields := by
    rw [ho]
    rfl
  have hin := hinputs _ h.body hwithout
  rw [inputsAt] at hin
  simp only [placeParts_plain, placeParts_arrays] at hroot
  rw [outline_eq, hroot, ← plain, ← arrays, hcontent, hin, ho]
  rfl

/-- The edge to its parent leads out of the layout of a child. -/
theorem filter_target_child {stem : String} {owner : Owner} {m n index : Nat} {c : Child}
    (ho : owner.id = nodeId stem m) (hm : m ≤ n) {node : PlacedNode}
    (h : node ∈ (placePart stem owner n index (.child c)).nodes) :
  ((placePart stem owner n index (.child c)).edges.filter fun e => e.target = node.owner.id)
    = (bodyOf stem (childOwner stem owner n index c) n c.fields).edges.filter fun e =>
      e.target = node.owner.id
  := by
  have hnumbered := numbered_placePart stem (.child c) owner index ho hm
  obtain ⟨a, ha, hlow, -⟩ := hnumbered.mem_ids.mp (List.mem_map_of_mem h)
  have hparent : owner.id ≠ node.owner.id := by
    rw [ho, ha, Ne, nodeId_inj]
    omega
  simp [placePart_child, Fragment.ofChild, List.filter_append, Edge.link, hparent]

/-- Where the layout of a child is hosted, so is the layout of the child as an asset. -/
theorem Hosts.child {g : Graph} {stem : String} {owner : Owner} {m n index : Nat} {c : Child}
    (ho : owner.id = nodeId stem m) (hm : m ≤ n)
    (h : Hosts g (placePart stem owner n index (.child c)).nodes
      (placePart stem owner n index (.child c)).edges) :
  Hosts g ((bodyOf stem (childOwner stem owner n index c) n c.fields).close
      (childOwner stem owner n index c))
    (bodyOf stem (childOwner stem owner n index c) n c.fields).edges
  := by
  have hnodes : (placePart stem owner n index (.child c)).nodes
      = (bodyOf stem (childOwner stem owner n index c) n c.fields).close
        (childOwner stem owner n index c) := by
    rw [placePart_child]
    rfl
  apply h.restrict
  · intro node hmem
    rw [hnodes]
    apply hmem
  · intro node hmem
    rw [← hnodes] at hmem
    apply filter_target_child ho hm hmem

/-- The edges of a layout bring the outlines of its children to the node of an asset. -/
theorem inputsAt_placeParts (g : Graph) (stem : String) (ps : List Part) (owner : Owner)
    {m n : Nat} (index : Nat) (ho : owner.id = nodeId stem m) (hm : m ≤ n) (fresh : List String)
    (h : Hosts g (placeParts stem owner n index ps).nodes (placeParts stem owner n index ps).edges)
    (hfresh : ∀ node ∈ (placeParts stem owner n index ps).nodes, node.owner.id ∈ fresh) :
  inputsAt g fresh (placeParts stem owner n index ps).edges owner.id
    = (ps.filterMap Part.child?).map fun c =>
      (childPort owner.assetType owner.label c, outline c.key.text? c.fields)
  := by
  induction ps using parts_induction generalizing owner m n index fresh with
  | nil => rfl
  | cons part rest ihasset ihrest =>
    have hfirst := numbered_placePart stem part owner index ho hm
    have hrest := numbered_placeParts stem rest owner
      (n := n + (placePart stem owner n index part).nodes.length)
      (index + (placePart stem owner n index part).children) ho (Nat.le_add_right_of_le hm)
    rw [placeParts] at h hfresh ⊢
    rw [Fragment.edges_append, inputsAt_append,
      ihrest owner _ ho (Nat.le_add_right_of_le hm) fresh (h.right hm hfirst hrest)
        fun node hmem => hfresh node (by simp [hmem])]
    have hbelow : ∀ {child : Owner} {t : Fields}, child.id = nodeId stem (n + 1) →
        inputsAt g fresh (bodyOf stem child n t).edges owner.id = [] := by
      intro child t hchild
      have hbody := numbered_placeParts stem (parts t) child 0 hchild (Nat.le_refl _)
      rw [inputsAt, ho, hbody.filter_target_eq_nil (by omega) (by omega)]
      rfl
    cases part with
    | child c =>
      have hchild : g.unfold fresh (childOwner stem owner n index c).id
          = outline c.key.text? c.fields := by
        apply unfold_ofAsset rfl _ ((h.left hm hfirst hrest).child ho hm)
        · intro node hmem
          apply hfresh
          rw [placePart_child, Fragment.nodes_append]
          apply List.mem_append_left _ hmem
        · intro fresh'
          apply ihasset c.fields rfl _ 0 rfl (Nat.le_refl _) fresh'
      rw [placePart_child, Fragment.ofChild, inputsAt_append, hbelow rfl]
      simp [inputsAt, Edge.link, hchild, Part.child?]
    | tree position t =>
      rw [placePart_tree, Fragment.ofTree, hbelow rfl]
      rfl
    | _ => rfl

/-- The root of the layout of an asset unfolds to the outline of the asset. -/
theorem unfold_asset {g : Graph} {stem : String} {n : Nat} {place : Place}
    {parent : Option String} {fields : Fields} {owner : Owner}
    (ho : owner = .ofAsset stem n place parent fields)
    (h : Hosts g ((bodyOf stem owner n fields).close owner) (bodyOf stem owner n fields).edges)
    {fresh : List String}
    (hfresh : ∀ m ∈ (bodyOf stem owner n fields).close owner, m.owner.id ∈ fresh) :
  g.unfold fresh owner.id = outline parent fields
  := by
  have hid : owner.id = nodeId stem (n + 1) := by rw [ho]; rfl
  apply unfold_ofAsset ho _ h hfresh
  intro fresh'
  apply inputsAt_placeParts g stem (parts fields) owner 0 hid (Nat.le_refl _) fresh'

/-! ### Terminal nodes -/

/-- The nodes of a fragment that feed no edge of it. -/
def Fragment.terminals (F : Fragment) : List PlacedNode :=
  F.nodes.filter fun node => !F.edges.any fun e => e.source = node.owner.id

theorem Fragment.Numbered.not_source {stem : String} {m n : Nat} {F : Fragment}
    (h : F.Numbered stem m n) {k : Nat} (hk : k ≤ n ∨ n + F.nodes.length < k) :
  (F.edges.any fun e => e.source = nodeId stem k) = false
  := by
  rw [List.any_eq_false]
  intro e hmem
  obtain ⟨a, b, hs, -, hlt, hlow, hhigh, hb⟩ := h.edge e hmem
  rw [hs, decide_eq_true_iff, nodeId_inj]
  omega

/-- A node of the first of two fragments feeds an edge if it feeds one of that fragment. -/
theorem Fragment.any_source_left {stem : String} {m n : Nat} {F G : Fragment}
    (hF : F.Numbered stem m n) (hG : G.Numbered stem m (n + F.nodes.length)) {node : PlacedNode}
    (h : node ∈ F.nodes) :
  ((F ++ G).edges.any fun e => e.source = node.owner.id)
    = F.edges.any fun e => e.source = node.owner.id
  := by
  obtain ⟨a, ha, -, hhigh⟩ := hF.mem_ids.mp (List.mem_map_of_mem h)
  rw [edges_append, List.any_append, ha, hG.not_source (by omega), Bool.or_false]

/-- A node of the second of two fragments feeds an edge if it feeds one of that fragment. -/
theorem Fragment.any_source_right {stem : String} {m n : Nat} {F G : Fragment}
    (hF : F.Numbered stem m n) (hG : G.Numbered stem m (n + F.nodes.length)) {node : PlacedNode}
    (h : node ∈ G.nodes) :
  ((F ++ G).edges.any fun e => e.source = node.owner.id)
    = G.edges.any fun e => e.source = node.owner.id
  := by
  obtain ⟨a, ha, hlow, -⟩ := hG.mem_ids.mp (List.mem_map_of_mem h)
  rw [edges_append, List.any_append, ha, hF.not_source (by omega), Bool.false_or]

/-- The edge from a child to its parent leads from no node below the child. -/
theorem Fragment.any_source_body {stem : String} {n : Nat} {body : Fragment}
    (h : body.Numbered stem (n + 1) (n + 1)) (parent : Owner) {child : Owner}
    (hc : child.id = nodeId stem (n + 1)) (port : Json) (warnings : List String)
    (checks : List Check) {node : PlacedNode} (hmem : node ∈ body.nodes) :
  ((Fragment.ofChild parent child port warnings checks body).edges.any fun e =>
      e.source = node.owner.id)
    = body.edges.any fun e => e.source = node.owner.id
  := by
  obtain ⟨a, ha, hlow, -⟩ := h.mem_ids.mp (List.mem_map_of_mem hmem)
  have hne : child.id ≠ node.owner.id := by
    rw [hc, ha, Ne, nodeId_inj]
    omega
  simp [ofChild, Edge.link, hne]

theorem Fragment.terminals_append {stem : String} {m n : Nat} {F G : Fragment}
    (hF : F.Numbered stem m n) (hG : G.Numbered stem m (n + F.nodes.length)) :
  (F ++ G).terminals = F.terminals ++ G.terminals
  := by
  rw [terminals, nodes_append, List.filter_append]
  congr 1
  · apply List.filter_congr
    intro node hmem
    rw [any_source_left hF hG hmem]
  · apply List.filter_congr
    intro node hmem
    rw [any_source_right hF hG hmem]

/-- A child feeds its parent. -/
theorem Fragment.terminals_ofChild {stem : String} {n : Nat} {body : Fragment}
    (h : body.Numbered stem (n + 1) (n + 1)) (parent : Owner) {child : Owner}
    (hc : child.id = nodeId stem (n + 1)) (port : Json) (warnings : List String)
    (checks : List Check) :
  (Fragment.ofChild parent child port warnings checks body).terminals = body.terminals
  := by
  have hbody : (body.nodes.filter fun node =>
      !(ofChild parent child port warnings checks body).edges.any fun e =>
        e.source = node.owner.id) = body.terminals := by
    apply List.filter_congr
    intro node hmem
    rw [any_source_body h parent hc port warnings checks hmem]
  have hnodes : (ofChild parent child port warnings checks body).nodes
      = ⟨child, body.plain, body.arrays⟩ :: body.nodes := rfl
  rw [terminals, hnodes, List.filter_cons_of_neg, hbody]
  simp [ofChild, Edge.link]

/-- The root of a disconnected tree feeds nothing. -/
theorem Fragment.terminals_ofTree {stem : String} {n : Nat} {body : Fragment}
    (h : body.Numbered stem (n + 1) (n + 1)) {root : Owner} (hr : root.id = nodeId stem (n + 1)) :
  (Fragment.ofTree root body).terminals
    = ⟨root, body.plain, body.arrays⟩ :: body.terminals
  := by
  simp only [terminals, ofTree, close, List.filter_cons, hr]
  rw [h.not_source (by omega)]
  rfl

/-- The nodes of a layout that feed no edge unfold to the outlines of the disconnected trees. -/
theorem unfold_terminals (g : Graph) (stem : String) (ps : List Part) (owner : Owner)
    {m n : Nat} (index : Nat) (ho : owner.id = nodeId stem m) (hm : m ≤ n) (fresh : List String)
    (h : Hosts g (placeParts stem owner n index ps).nodes (placeParts stem owner n index ps).edges)
    (hfresh : ∀ node ∈ (placeParts stem owner n index ps).nodes, node.owner.id ∈ fresh) :
  (placeParts stem owner n index ps).terminals.map (fun node => g.unfold fresh node.owner.id)
    = (ps.flatMap Part.loose).map (outline none)
  := by
  induction ps using parts_induction generalizing owner m n index fresh with
  | nil => rfl
  | cons part rest ihasset ihrest =>
    have hfirst := numbered_placePart stem part owner index ho hm
    have hrest := numbered_placeParts stem rest owner
      (n := n + (placePart stem owner n index part).nodes.length)
      (index + (placePart stem owner n index part).children) ho (Nat.le_add_right_of_le hm)
    rw [placeParts] at h hfresh ⊢
    rw [Fragment.terminals_append hfirst hrest, List.map_append, List.flatMap_cons,
      List.map_append, ihrest owner _ ho (Nat.le_add_right_of_le hm) fresh
        (h.right hm hfirst hrest) fun node hmem => hfresh node (by simp [hmem])]
    congr 1
    have h' := h.left hm hfirst hrest
    have hfresh' : ∀ node ∈ (placePart stem owner n index part).nodes, node.owner.id ∈ fresh :=
      fun node hmem => hfresh node (by simp [hmem])
    cases part with
    | child c =>
      have hbody := numbered_placeParts stem (parts c.fields) (childOwner stem owner n index c) 0
        (m := n + 1) rfl (Nat.le_refl _)
      rw [placePart_child, Fragment.terminals_ofChild hbody owner rfl, Part.loose, loose_eq]
      rw [placePart_child] at hfresh'
      apply ihasset c.fields rfl (childOwner stem owner n index c) 0 rfl (Nat.le_refl _) fresh
      · apply (h'.child ho hm).body
      · intro node hmem
        apply hfresh' node (List.mem_cons_of_mem _ hmem)
    | tree position t =>
      have hbody := numbered_placeParts stem (parts t) (treeOwner stem owner n position t) 0
        (m := n + 1) rfl (Nat.le_refl _)
      rw [placePart_tree] at h' hfresh'
      rw [placePart_tree, Fragment.terminals_ofTree hbody rfl, Part.loose, List.map_cons,
        List.map_cons, loose_eq]
      congr 1
      · apply unfold_asset rfl h' hfresh'
      · apply ihasset t rfl (treeOwner stem owner n position t) 0 rfl (Nat.le_refl _) fresh
          (Hosts.body h')
        intro node hmem
        apply hfresh' node (List.mem_cons_of_mem _ hmem)
    | _ => rfl

end Layout

end AssetCanvas
