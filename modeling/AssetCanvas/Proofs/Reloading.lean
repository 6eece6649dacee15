import AssetCanvas.Preview.Density.Grid
import AssetCanvas.Proofs.Depiction
import AssetCanvas.Proofs.Likeness
import AssetCanvas.Proofs.Pruning

/-!
# Saving and loading

A graph is saved as the asset of its root, and loaded as a layout of that asset.  If the graph is
the layout of a tree that comes back, with some ports disconnected, then the asset is the tree
without what was connected there, `Graph.exists_pruned`.  Its items move up into the gaps; where
there are none, `Graph.Gapless`, the graph looks like the layout that is loaded, so a preview of
densities does not change, `Layout.grids_reloaded`.  Where there is a gap it can change,
`Layout.changes_blend_nameless`.
-/

namespace AssetCanvas

open Json Assembly

namespace Outline

theorem isSome_input?_iff {inputs : List (Json × Outline)} {port : String} :
  (input? inputs port).isSome = true ↔ ∃ input ∈ inputs, Port.nameOf input.1 = port
  := by
  rw [input?, Option.isSome_map, Option.isSome_iff_ne_none, Ne, List.getLast?_eq_none_iff,
    List.filter_eq_nil_iff]
  simp

theorem exists_of_input? {inputs : List (Json × Outline)} {port : String} {o : Outline}
    (h : input? inputs port = some o) :
  ∃ input ∈ inputs, Port.nameOf input.1 = port ∧ input.2 = o
  := by
  obtain ⟨input, hlast, rfl⟩ := Option.map_eq_some_iff.mp h
  obtain ⟨hmem, hname⟩ := List.mem_filter.mp (List.mem_of_getLast? hlast)
  exact ⟨input, hmem, by simpa using hname, rfl⟩

end Outline

/-- Two ports have one name in the input map only if one of them has no name. -/
theorem Port.eq_or_of_inputName_eq {port port' : String}
    (h : Port.inputName port = Port.inputName port') :
  port = port' ∨ port = "" ∧ port' = Port.default ∨ port' = "" ∧ port = Port.default
  := by
  unfold Port.inputName at h
  split at h <;> split at h <;> simp_all

namespace Asset

open Density

variable {parent : Option String} {fields : Fields}

/-- The items of arrays other than `Inputs` feed ports that are not consulted. -/
theorem not_consulted_entryOf (h : Mapping fields) {c : Child} (hc : c ∈ children fields) {i : Nat}
    (hi : c.index = some i) (hname : c.name ≠ Slot.arrayField) :
  ¬ Consulted (entryOf parent fields c)
  := by
  intro hconsulted
  have hport : portOf parent fields c = _ := portOf_item h hc hi
  rw [entryOf_item h hc hi] at hport
  rcases Slot.current_itemPort_cases (classify fields parent).assetType c.name i
    (classify fields parent).label with hp | ⟨type, -, -, hp⟩
  · apply hname
    apply hconsulted c.name i
    rw [Json.str.inj hport, hp]
  · apply hname
    apply Slot.field_of_mem_portNames (List.mem_of_getElem? hp)

section Kept

variable {kept : List (Child × Fields)} (h : Mapping fields)
  (htype : (Json.field fields typeKey).isNull = false)
  (hsub : (kept.map Prod.fst).Sublist (children fields))
  (hassets : ∀ k ∈ kept, (Json.obj k.2).isAsset = true)
  (hfilled : ∀ k ∈ kept, ∀ i, k.1.slot = (Slot.arrayField, some i) → ∀ j < i,
    ∃ k' ∈ kept, k'.1.slot = (Slot.arrayField, some j))

include h htype hsub hassets hfilled

/-- Where a child feeds a port that is consulted, it feeds the same port if others are left out. -/
theorem entryOf_written {k : Child × Fields} (hk : k ∈ kept)
    (hconsulted : Consulted (entryOf parent fields k.1)
      ∨ Consulted (entryOf parent (composed fields (prunedWrites kept))
        (written (prunedWrites kept) (k.1.slot, .obj k.2)))) :
  entryOf parent (composed fields (prunedWrites kept))
      (written (prunedWrites kept) (k.1.slot, .obj k.2))
    = entryOf parent fields k.1
  := by
  have ho := orderly_prunedWrites h hsub hassets
  have hc := mem_children_of_kept hsub hk
  have hcomposed := mapping_composed h (prunedWrites kept)
  have hmem : (k.1.slot, Json.obj k.2) ∈ prunedWrites kept := List.mem_map_of_mem hk
  have hc' := ho.written_mem_children h hmem
  have hlabel := ho.label_composed h parent
  have hassetType : (classify (composed fields (prunedWrites kept)) parent).assetType
      = (classify fields parent).assetType := by
    rw [assetType_classify, assetType_classify, ho.field_typeKey, shownType, htype]
    rfl
  cases hi : k.1.index with
  | none =>
    have hi' : (written (prunedWrites kept) (k.1.slot, .obj k.2)).index = none := by
      simp [written, Child.slot, hi]
    rw [entryOf, entryOf, portOf_nested hcomposed hc' hi', portOf_nested h hc hi, hlabel]
    rfl
  | some i =>
    have hi' : (written (prunedWrites kept) (k.1.slot, .obj k.2)).index
        = some (rankIn (prunedWrites kept) k.1.name i) := by
      simp [written, Child.slot, hi]
    by_cases hname : k.1.name = Slot.arrayField
    · have hrank : rankIn (prunedWrites kept) k.1.name i = i := by
        apply rankIn_eq
        intro j hj
        rcases Nat.lt_or_eq_of_le hj with hlt | rfl
        · obtain ⟨k', hk', hslot⟩ := hfilled k hk i (Prod.ext hname hi) j hlt
          use (k'.1.slot, .obj k'.2), List.mem_map_of_mem hk'
          rw [hname]
          apply hslot
        · exact ⟨_, hmem, congrArg (Prod.mk k.1.name) hi⟩
      rw [entryOf, entryOf, portOf_item hcomposed hc' hi', portOf_item h hc hi, hlabel, hassetType,
        hrank]
      rfl
    · rcases hconsulted with hconsulted | hconsulted
      · exact (not_consulted_entryOf h hc hi hname hconsulted).elim
      · exact (not_consulted_entryOf hcomposed hc' hi' hname hconsulted).elim

/-- An outline of some children of an asset looks like the asset that is put together from it. -/
theorem alike_composed {inputs : List (Json × Outline)}
    (hinputs : List.Forall₂ (fun input k => input.1 = portOf parent fields k.1
      ∧ Outline.Alike input.2 (outline k.1.key.text? k.2)) inputs kept)
    (hnames : (inputs.map fun input => Port.nameOf input.1).Nodup) :
  Outline.Alike (.node (content parent fields) inputs)
    (outline parent (composed fields (prunedWrites kept)))
  := by
  have ho := orderly_prunedWrites h hsub hassets
  -- a child of the composed asset has an input of the same name if the name is consulted
  have hentry : ∀ k ∈ kept, Consulted (entryOf parent (composed fields (prunedWrites kept))
      (written (prunedWrites kept) (k.1.slot, .obj k.2))) →
        ∃ input ∈ inputs, Port.nameOf input.1
            = entryOf parent (composed fields (prunedWrites kept))
              (written (prunedWrites kept) (k.1.slot, .obj k.2))
          ∧ Outline.Alike input.2 (outline k.1.key.text? k.2) := by
    intro k hk hconsulted
    obtain ⟨input, hinput, hport, halike⟩ := Fault.exists_of_mem_right hinputs hk
    refine ⟨input, hinput, ?_, halike⟩
    rw [hport, entryOf_written h htype hsub hassets hfilled hk (.inr hconsulted)]
    rfl
  rw [outline_eq]
  apply Outline.Alike.node
  · constructor
    · apply congrArg Json.str (ho.label_composed h parent).symm
    · rw [content, content, assetType_classify, assetType_classify, ho.field_typeKey, shownType,
        htype]
      rfl
    · use plain fields, plain (composed fields (prunedWrites kept)), rfl, rfl
      intro key
      apply (ho.find?_plain_eq h key).symm
  · intro port hport
    rw [Bool.eq_iff_iff, Outline.isSome_input?_iff, Outline.isSome_input?_iff]
    constructor
    · rintro ⟨input, hinput, rfl⟩
      obtain ⟨k, hk, hk', -⟩ := Fault.exists_of_mem_right hinputs.flip hinput
      have hmem : (k.1.slot, Json.obj k.2) ∈ prunedWrites kept := List.mem_map_of_mem hk
      refine ⟨_, List.mem_map_of_mem (ho.written_mem_children h hmem), ?_⟩
      rw [hk'] at hport ⊢
      apply entryOf_written h htype hsub hassets hfilled hk (.inl hport)
    · rintro ⟨input, hinput, rfl⟩
      obtain ⟨c, hc, rfl⟩ := List.mem_map.mp hinput
      obtain ⟨k, hk, rfl⟩ := exists_kept h hsub hassets hc
      obtain ⟨input, hinput, hname, -⟩ := hentry k hk hport
      exact ⟨input, hinput, hname⟩
  · intro port o o' hport hfound hfound'
    obtain ⟨input, hinput, rfl, rfl⟩ := Outline.exists_of_input? hfound
    obtain ⟨input', hinput', hname', rfl⟩ := Outline.exists_of_input? hfound'
    obtain ⟨c, hc, rfl⟩ := List.mem_map.mp hinput'
    obtain ⟨k, hk, rfl⟩ := exists_kept h hsub hassets hc
    rw [← hname'] at hport
    obtain ⟨input'', hinput'', hname'', halike⟩ := hentry k hk hport
    -- the names of the inputs differ
    obtain rfl := List.inj_on_of_nodup_map hnames hinput'' hinput (hname''.trans hname')
    rw [key_eq_name h (mem_children_of_kept hsub hk)] at halike
    apply halike

end Kept

end Asset

/-! ### Graphs without some edges -/

namespace Graph

open Asset

/-- Whether the connected items of `Inputs` of a node are the first ones, and no port without a name
is connected beside the port whose name it takes. -/
structure Gapless (g : Graph) (n : Node) : Prop where
  filled : ∀ e ∈ g.inboundEdges n.id, ∀ i, n.slot e.targetPort = .ok (Slot.arrayField, some i) →
    ∀ j < i, ∃ e' ∈ g.inboundEdges n.id, n.slot e'.targetPort = .ok (Slot.arrayField, some j)
  named : ∀ e ∈ g.inboundEdges n.id, e.targetPort = .str "" →
    ∀ e' ∈ g.inboundEdges n.id, e'.targetPort ≠ .str Port.default

/-- Whether an edge leads from what is left of a child to the port of the child. -/
structure Carries (g : Graph) (fresh : List String) (parent : Option String) (fields : Fields)
    (e : Edge) (k : Child × Fields) : Prop where
  port : e.targetPort = portOf parent fields k.1
  pruned : Pruned k.1.fields k.2
  asset : (g.unfold fresh e.source).toAsset = .ok (some (.obj k.2))
  alike : Outline.Alike (g.unfold fresh e.source) (outline k.1.key.text? k.2)

section Node

variable {g : Graph} {n : Node} {parent : Option String} {fields : Fields}
  (hcontent : n.content = Asset.content parent fields) (hr : Returns parent fields)
  (h : Mapping fields)

include hcontent hr h

/-- The node of an asset that comes back has the children of the asset in their slots. -/
theorem slot_portOf {c : Child} (hc : c ∈ children fields) :
  n.slot (portOf parent fields c) = .ok c.slot
  := by
  have hdiscriminant : n.discriminant = .ok (shownType fields) := by
    rw [← discriminant_content parent fields, ← hcontent]
    rfl
  rw [Node.slot, hdiscriminant, ← hr.slot_eq h hc, ← hcontent]
  rfl

variable {fresh : List String} {kept : List (Child × Fields)}
  (hsub : (kept.map Prod.fst).Sublist (children fields))
  (hkept : List.Forall₂ (g.Carries fresh parent fields) (g.inboundEdges n.id) kept)

include hsub hkept

omit hcontent in
/-- A node with some of the edges is put together as the asset with some of the children. -/
theorem toAsset_of_carries :
  (Outline.node (content parent fields) ((g.inboundEdges n.id).map fun e =>
      (e.targetPort, g.unfold fresh e.source))).toAsset
    = .ok (some (.obj (composed fields (prunedWrites kept))))
  := by
  apply toAsset_node (discriminant_content parent fields) (isNull_shownType fields)
  apply List.forall₂_map_left_iff.mpr
  apply List.forall₂_map_right_iff.mpr
  apply (Fault.forall₂_mem hkept).imp
  rintro e k ⟨-, hk, hcarries⟩
  use hcarries.asset
  rw [hcarries.port]
  apply hr.slot_eq h (mem_children_of_kept hsub hk)

omit hcontent in
/-- The ports of a node whose asset comes back differ in name. -/
theorem nodup_inputNames (hgapless : g.Gapless n) :
  ((g.inboundEdges n.id).map Edge.inputName).Nodup
  := by
  have hports : (g.inboundEdges n.id).map Edge.targetPort
      = (kept.map Prod.fst).map (portOf parent fields) := by
    rw [List.map_map]
    apply Eq.symm
    apply Fault.map_eq_map_of_forall₂
    apply hkept.flip.imp
    intro k e hcarries
    apply hcarries.port.symm
  -- the slot of a child is read off its port, so children with one port are one child
  have hnodup : ((g.inboundEdges n.id).map Edge.targetPort).Nodup := by
    rw [hports]
    apply List.Nodup.map_on
    · intro c hc c' hc' heq
      have hslot := hr.slot_eq h (hsub.subset hc)
      rw [heq, hr.slot_eq h (hsub.subset hc')] at hslot
      apply List.inj_on_of_nodup_map (nodup_slots h) (hsub.subset hc) (hsub.subset hc')
      apply (Except.ok.inj hslot).symm
    · apply (List.Nodup.of_map _ (nodup_slots h)).sublist hsub
  rw [show Edge.inputName = Port.nameOf ∘ Edge.targetPort from rfl, ← List.map_map]
  apply hnodup.map_on
  have htext : ∀ port ∈ (g.inboundEdges n.id).map Edge.targetPort, ∃ name, port = .str name := by
    rw [hports]
    intro port hport
    obtain ⟨c, hc, rfl⟩ := List.mem_map.mp hport
    obtain ⟨name, hname⟩ := exists_portOf parent h (hsub.subset hc)
    exact ⟨_, hname⟩
  intro port hport port' hport' hname
  obtain ⟨name, rfl⟩ := htext port hport
  obtain ⟨name', rfl⟩ := htext port' hport'
  obtain ⟨e, he, hport⟩ := List.mem_map.mp hport
  obtain ⟨e', he', hport'⟩ := List.mem_map.mp hport'
  rcases Port.eq_or_of_inputName_eq hname with heq | ⟨hempty, hdefault⟩ | ⟨hempty, hdefault⟩
  · rw [show name = name' from heq]
  · apply (hgapless.named e he _ e' he' _).elim
    · rw [hport, show name = "" from hempty]
    · rw [hport', show name' = Port.default from hdefault]
  · apply (hgapless.named e' he' _ e he _).elim
    · rw [hport', show name' = "" from hempty]
    · rw [hport, show name = Port.default from hdefault]

/-- A node with some of the edges looks like the asset with some of the children. -/
theorem alike_of_carries (hgapless : g.Gapless n) :
  Outline.Alike (.node (Asset.content parent fields) ((g.inboundEdges n.id).map fun e =>
      (e.targetPort, g.unfold fresh e.source)))
    (outline parent (composed fields (prunedWrites kept)))
  := by
  have hassets : ∀ k ∈ kept, (Json.obj k.2).isAsset = true := by
    intro k hk
    obtain ⟨e, -, hcarries⟩ := Fault.exists_of_mem_right hkept hk
    apply hcarries.pruned.isAsset
  apply alike_composed h (hr.isNull_type h) hsub hassets
  · -- an edge into an item of `Inputs` carries the item
    intro k hk i hi j hj
    obtain ⟨e, he, hcarries⟩ := Fault.exists_of_mem_right hkept hk
    have hslot := slot_portOf hcontent hr h (mem_children_of_kept hsub hk)
    rw [← hcarries.port, hi] at hslot
    obtain ⟨e', he', hslot'⟩ := hgapless.filled e he i hslot j hj
    obtain ⟨k', hk', hcarries'⟩ := Fault.exists_of_mem_right hkept.flip he'
    use k', hk'
    rw [hcarries'.port, slot_portOf hcontent hr h (mem_children_of_kept hsub hk')] at hslot'
    apply Except.ok.inj hslot'
  · apply List.forall₂_map_left_iff.mpr
    apply hkept.imp
    intro e k hcarries
    exact ⟨hcarries.port, hcarries.alike⟩
  · rw [List.map_map]
    apply nodup_inputNames hr h hsub hkept hgapless

end Node

/-- Where some edges are taken away from the graph of a tree that comes back, the asset of the
root is the pruned tree, and looks like the graph, if the edges leave no gaps. -/
theorem exists_pruned {g g' : Graph} (hnodes : g.nodes = g'.nodes)
    (hedges : g.edges.Sublist g'.edges) {parent : Option String} {fields : Fields}
    (hr : Returns parent fields) (h : Everywhere (fun _ => Mapping) parent fields)
    {fresh : List String} {id : String} (hunfold : g'.unfold fresh id = outline parent fields)
    (hgapless : ∀ n ∈ g.nodes, Relation.ReflTransGen g.Feeds n.id id → g.Gapless n) :
  ∃ left, Pruned fields left ∧ (g.unfold fresh id).toAsset = .ok (some (.obj left))
    ∧ Outline.Alike (g.unfold fresh id) (outline parent left)
  := by
  induction fields using Asset.induction generalizing parent fresh id with
  | step fields ih =>
    rw [outline_eq] at hunfold
    obtain ⟨hmem, n, hn, hcontent, hinputs⟩ := unfold_eq_node hunfold
    have hn' : Entries.find? g.nodeMap id = some n := by rw [nodeMap, hnodes, ← nodeMap, hn]
    obtain ⟨hnode, rfl⟩ := mem_nodes_of_find? hn'
    have hall : List.Forall₂ (fun e c => e.targetPort = portOf parent fields c
        ∧ g'.unfold (Walk.without fresh n.id) e.source = outline c.key.text? c.fields)
        (g'.inboundEdges n.id) (children fields) := by
      rw [← List.forall₂_eq_eq_eq, List.forall₂_map_left_iff, List.forall₂_map_right_iff] at hinputs
      apply hinputs.flip.imp
      intro e c heq
      obtain ⟨hport, houtline⟩ := Prod.mk.inj heq
      exact ⟨hport.symm, houtline.symm⟩
    have hsublist : (g.inboundEdges n.id).Sublist (g'.inboundEdges n.id) := hedges.filter _
    obtain ⟨cs, hsub, hcs⟩ := Fault.exists_sublist_of_forall₂ hsublist hall
    have hbelow : List.Forall₂ (fun e c => ∃ left,
        g.Carries (Walk.without fresh n.id) parent fields e (c, left)) (g.inboundEdges n.id) cs := by
      apply (Fault.forall₂_mem hcs).imp
      rintro e c ⟨he, hmem, hport, hsource⟩
      have hc := hsub.subset hmem
      obtain ⟨left, hpruned, hasset, halike⟩ := ih (.child c) (mem_children.mp hc) c.fields rfl
        (hr.child h hc) (h.child (mem_children.mp hc)) hsource (by
          intro m hm hupstream
          apply hgapless m hm
          apply hupstream.tail (feeds_of_mem_inboundEdges he))
      exact ⟨left, hport, hpruned, hasset, halike⟩
    obtain ⟨kept, rfl, hkept⟩ := Fault.exists_pairs_of_forall₂ hbelow
    have hpruned : ∀ k ∈ kept, Pruned k.1.fields k.2 := by
      intro k hk
      obtain ⟨e, -, hcarries⟩ := Fault.exists_of_mem_right hkept hk
      apply hcarries.pruned
    use composed fields (prunedWrites kept), .mk hsub hpruned
    have hleft : g.unfold fresh n.id = .node (Asset.content parent fields)
        ((g.inboundEdges n.id).map fun e =>
          (e.targetPort, g.unfold (Walk.without fresh n.id) e.source)) := by
      rw [unfold, dif_pos hmem, hn', hcontent]
    rw [hleft]
    constructor
    · apply toAsset_of_carries hr h.here hsub hkept
    · apply alike_of_carries hcontent.symm hr h.here hsub hkept
      apply hgapless n hnode .refl

/-- The graph without the edges into some ports. -/
def cut (g : Graph) (ports : List (String × Json)) : Graph :=
  ports.foldl (fun g port => g.disconnect port.1 port.2) g

theorem nodes_cut (g : Graph) (ports : List (String × Json)) : (g.cut ports).nodes = g.nodes
  := by
  induction ports generalizing g with
  | nil => rfl
  | cons port rest ih => apply ih (g.disconnect port.1 port.2)

theorem edges_cut (g : Graph) (ports : List (String × Json)) :
  (g.cut ports).edges.Sublist g.edges
  := by
  induction ports generalizing g with
  | nil => apply List.Sublist.refl
  | cons port rest ih => apply (ih (g.disconnect port.1 port.2)).trans List.filter_sublist

/-- The graph of a layout has current ports. -/
theorem Realizes.current {g : Graph} {stem : String} {field : Option String} {fields : Fields}
    (hg : g.Realizes (Layout.placeRoot stem field fields))
    (h : Everywhere (fun _ => Mapping) field fields) :
  g.Current
  where
  toTextual := hg.textual h
  current e he n hn htarget label hlabel := by
    obtain ⟨parent, t, hreach, hdepicts⟩ := hg.exists_depicts hn
    obtain rfl := Json.str.inj (hdepicts.label.symm.trans hlabel)
    apply hdepicts.replacement?_inputName (h parent t hreach)
    apply List.mem_filter.mpr
    exact ⟨he, decide_eq_true htarget.symm⟩
  sources e he := by
    obtain ⟨m, hm, hid⟩ := List.mem_map.mp (hg.endsIn he).1
    have hplaced : e.source ∈ g.nodes.map Node.id := (hg.endsIn he).1
    rw [hg.ids_eq] at hplaced
    obtain ⟨a, ha, -⟩ := (Layout.numbered_placeRoot stem field fields).mem_ids.mp hplaced
    rw [ha]
    apply Layout.nodeId_ne_empty

/-- A graph with current ports has current ports without some of its edges. -/
theorem Current.of_sublist {g g' : Graph} (h : g'.Current) (hnodes : g.nodes = g'.nodes)
    (hedges : g.edges.Sublist g'.edges) :
  g.Current
  where
  labels n hn := h.labels n (hnodes ▸ hn)
  ports e he := h.ports e (hedges.subset he)
  current e he n hn := h.current e (hedges.subset he) n (hnodes ▸ hn)
  sources e he := h.sources e (hedges.subset he)

end Graph

/-! ### Grids -/

/-- The samples without the id of the node that was sampled. -/
def DensitySamples.anonymous (d : DensitySamples) : DensitySamples := { d with rootId := none }

namespace DensityGrid

/-- The root of a preview is the given node if the graph has it. -/
theorem exists_root {g : Graph} {id : String} {n : Node}
    (hn : Entries.find? g.nodeMap id = some n) :
  ∃ root, Density.root g (.str id) = .ok (some root) ∧ root.id = id
  := by
  obtain ⟨hmem, rfl⟩ := Graph.mem_nodes_of_find? hn
  cases hroot : g.node? n.id with
  | none =>
    have hne := List.find?_eq_none.mp hroot n hmem
    simp at hne
  | some root =>
    use root
    constructor
    · rw [Density.root, Graph.evaluationRoot, Json.text?, Option.bind_some, hroot]
    · simpa using List.find?_some hroot

/-- The grids of ids whose outlines look alike are the same, or the same faults. -/
theorem ofGraph_alike {g g' : Graph} (hg : g.Current) (hg' : g'.Current) {id id' : String}
    (halike : Outline.Alike (g.unfold (Entries.keys g.nodeMap) id)
      (g'.unfold (Entries.keys g'.nodeMap) id'))
    (resolution low high height : Json) (policy : EvaluationPolicy) (seed : Json) :
  DensitySamples.anonymous <$> ofGraph g resolution low high height (.str id) policy seed
    = DensitySamples.anonymous <$> ofGraph g' resolution low high height (.str id') policy seed
  := by
  obtain ⟨-, -, n, n', hn, hn', -⟩ := Graph.nodes_of_alike halike
  obtain ⟨root, hroot, rfl⟩ := exists_root hn
  obtain ⟨root', hroot', rfl⟩ := exists_root hn'
  have hvalues := Density.ofGraph_alike hg hg' halike seed
  simp only [ofGraph, hroot, hroot', Fault.ok_bind, hvalues, map_bind]
  rfl

end DensityGrid

/-! ### Saving and loading -/

namespace Layout

open Asset

variable {fields : Fields} {field : Option String} {stem : Json} {start : Float × Float}
  {policy : LayoutPolicy} {l : Layout}

/-- The root of a layout unfolds to the outline of the tree. -/
theorem unfold_rootId
    (hl : Layout.ofAsset (.obj fields) stem start (Json.ofOption field) policy = .ok l) :
  l.toGraph.unfold (Entries.keys l.toGraph.nodeMap) l.rootId = outline field fields
  := by
  rw [(ofAsset_eq_ok hl).1]
  apply (realizes_of_ofAsset hl).unfold_root

/-- Take the layout of a tree that is put together as it was, and disconnect ports of it without
leaving gaps above the root.  What is saved of the root has a layout, and every layout of it has the
same grids of densities. -/
theorem grids_reloaded (h : Everywhere (fun _ => Mapping) field fields)
    (hl : Layout.ofAsset (.obj fields) stem start (Json.ofOption field) policy = .ok l)
    {v : Json} (hv : l.toGraph.toAsset .null = .ok (some v)) (hr : v.Reordered (.obj fields))
    (ports : List (String × Json))
    (hgapless : ∀ n ∈ (l.toGraph.cut ports).nodes,
      Relation.ReflTransGen (l.toGraph.cut ports).Feeds n.id l.rootId →
        (l.toGraph.cut ports).Gapless n) :
  ∃ saved, (l.toGraph.cut ports).assetOf l.rootId = .ok (some saved)
    ∧ (∀ stem' start', (stemValue policy stem').isSpellable = true →
      ∃ l', Layout.ofAsset saved stem' start' (Json.ofOption field) policy = .ok l')
    ∧ ∀ stem' start' policy' l',
      Layout.ofAsset saved stem' start' (Json.ofOption field) policy' = .ok l' →
        ∀ resolution low high height evaluation seed,
          DensitySamples.anonymous <$> DensityGrid.ofGraph (l.toGraph.cut ports) resolution low high
              height (.str l.rootId) evaluation seed
            = DensitySamples.anonymous <$> DensityGrid.ofGraph l'.toGraph resolution low high
              height (.str l'.rootId) evaluation seed
  := by
  have hnodes := l.toGraph.nodes_cut ports
  have hedges := l.toGraph.edges_cut ports
  have hmap : (l.toGraph.cut ports).nodeMap = l.toGraph.nodeMap := by
    rw [Graph.nodeMap, hnodes, Graph.nodeMap]
  have hcurrent := ((realizes_of_ofAsset hl).current h).of_sublist hnodes hedges
  have hreturns := Returns.of_toAsset (realizes_of_ofAsset hl) h.here hv hr
  obtain ⟨left, hpruned, hasset, halike⟩ := Graph.exists_pruned hnodes hedges hreturns h
    (unfold_rootId hl) hgapless
  rw [← hmap] at hasset halike
  use .obj left
  refine ⟨?_, ?_, ?_⟩
  · rw [Graph.assetOf_eq, hasset]
  · intro stem' start' hstem
    obtain ⟨hcolumn, hroom, -, hroot⟩ := (exists_ofAsset_iff stem start policy).mp ⟨l, hl⟩
    apply (exists_ofAsset_iff stem' start' policy).mpr
    refine ⟨hcolumn, hpruned.roomy h hroom, hstem, ?_⟩
    rwa [hpruned.field_typeKey h.here, isSpellable_shownType]
  · intro stem' start' policy' l' hl'
    rw [← unfold_rootId hl'] at halike
    have hcurrent' := (realizes_of_ofAsset hl').current (hpruned.mapping h)
    apply DensityGrid.ofGraph_alike hcurrent hcurrent' halike

/-- A blend of two constants. -/
def blend : Fields :=
  [("Type", .str "Interpolate"), ("Inputs", .arr [.obj (bare "Zero"), .obj (bare "One")])]

theorem parts_blend :
  parts blend = [.plain "Type" (.str "Interpolate"), .record "Inputs",
    .child ⟨"Inputs", some 0, bare "Zero"⟩, .child ⟨"Inputs", some 1, bare "One"⟩]
  := rfl

/-- A tree of a stable root and assets without fields is a fixed point. -/
theorem fixed_of_bare {fields : Fields} (h : Stable none fields)
    (hbare : ∀ part ∈ parts fields, ∀ t, part.asset? = some t → ∃ type, t = bare type)
    (hconnected : Connected fields) :
  Fixed none fields
  where
  stable := everywhere_over_bare h hbare fun parent type => (readable_bare parent type).stable
  connected part hmem t ht := by
    obtain ⟨type, rfl⟩ := hbare part hmem t ht
    apply everywhere_bare
    rfl
  rooted v hv := by
    rw [hconnected] at hv
    cases hv

theorem fixed_blend : Fixed none blend
  := by
  apply fixed_of_bare
  · constructor
    · constructor
      · simp [blend]
      · unfold Entries.Distinct
        decide
    · exact ⟨_, rfl, rfl⟩
    · decide
    · decide
    · decide
    · intro c hc hi
      have hitems : ∀ c ∈ children blend, c.index ≠ none := by decide
      exact (hitems c hc hi).elim
    · decide
  · rw [parts_blend]
    simp [Part.asset?]
  · rfl

/-- The port `InputA` of the root of the blend is the first item. -/
theorem slot_blend {g : Graph} (hg : g.Realizes (placeRoot "graph" none blend)) {n : Node}
    (hn : n ∈ g.nodes) (hid : n.id = "graph_1") :
  n.slot (.str "InputA") = .ok (Slot.arrayField, some 0)
  := by
  have hcontent : n.content = content none blend := (hg.depicts_root hn hid).content
  rw [show n.slot (.str "InputA") = n.content.slot (.str "InputA") from rfl, hcontent]
  rfl

/-- Without its second input the blend is saved and loaded with the same grids. -/
theorem grids_reloaded_blend :
  ∃ l saved l', Layout.ofAsset (.obj blend) .null (0.0, 0.0) .null {} = .ok l
    ∧ (l.toGraph.cut [("graph_1", .str "InputB")]).assetOf l.rootId = .ok (some saved)
    ∧ Layout.ofAsset saved .null (0.0, 0.0) .null {} = .ok l'
    ∧ ∀ resolution low high height evaluation seed,
      DensitySamples.anonymous <$> DensityGrid.ofGraph (l.toGraph.cut [("graph_1", .str "InputB")])
          resolution low high height (.str l.rootId) evaluation seed
        = DensitySamples.anonymous <$> DensityGrid.ofGraph l'.toGraph resolution low high height
          (.str l'.rootId) evaluation seed
  := by
  have hmapping : Everywhere (fun _ => Mapping) none blend :=
    fun parent t hreach => (fixed_blend.stable parent t hreach).mapping
  obtain ⟨l, hl⟩ : ∃ l, Layout.ofAsset (.obj blend) .null (0.0, 0.0) (Json.ofOption none) {}
      = .ok l := ⟨_, rfl⟩
  have hg : l.toGraph.Realizes (placeRoot "graph" none blend) := realizes_of_ofAsset hl
  obtain ⟨v, hv, hr⟩ := fixed_blend.toAsset_of_realizes hg
  have hedges : (l.toGraph.cut [("graph_1", .str "InputB")]).edges
      = [.link "graph_2" "graph_1" (.str "InputA")] := by
    have hplaced : l.edges = (placeRoot "graph" none blend).edges := (ofAsset_eq_ok hl).2.1
    show l.edges.filter _ = _
    rw [hplaced]
    rfl
  have hinputs : ∀ n, ∀ e ∈ (l.toGraph.cut [("graph_1", .str "InputB")]).inboundEdges n,
      n = "graph_1" ∧ e.targetPort = .str "InputA" := by
    intro n e he
    obtain ⟨hmem, htarget⟩ := List.mem_filter.mp he
    rw [hedges, List.mem_singleton] at hmem
    subst hmem
    exact ⟨(of_decide_eq_true htarget).symm, rfl⟩
  obtain ⟨saved, hsaved, hexists, hgrids⟩ := grids_reloaded hmapping hl hv hr
    [("graph_1", .str "InputB")] (by
      intro n hn _
      rw [l.toGraph.nodes_cut] at hn
      constructor
      · intro e he i hi j hj
        obtain ⟨hid, hport⟩ := hinputs n.id e he
        rw [hport, slot_blend hg hn hid] at hi
        cases hi
        omega
      · intro e he hempty
        rw [(hinputs n.id e he).2] at hempty
        simp at hempty)
  obtain ⟨l', hl'⟩ := hexists .null (0.0, 0.0) rfl
  use l, saved, l', hl, hsaved, hl'
  apply hgrids _ _ _ _ hl'

/-! ### Grids that change -/

/-- The densities of a graph on a grid with one sample. -/
def sampleOf (g : Graph) (id : String) : Except Fault (List Float) := do
  return (← DensityGrid.ofGraph g (.int 1) (.int 0) (.int 1) (.int 0) (.str id) {} (.int 0)).values

/-- Whether a tree is put together as it was, but with some ports disconnected has other densities
than the layout of what is saved of its root. -/
def Changes (fields : Fields) (ports : List (String × Json)) : Prop :=
  ∃ l saved l' values values',
    Layout.ofAsset (.obj fields) .null (0.0, 0.0) .null {} = .ok l
    ∧ (∃ v, l.toGraph.toAsset .null = .ok (some v) ∧ v.Reordered (.obj fields))
    ∧ (l.toGraph.cut ports).assetOf l.rootId = .ok (some saved)
    ∧ Layout.ofAsset saved .null (0.0, 0.0) .null {} = .ok l'
    ∧ sampleOf (l.toGraph.cut ports) l.rootId = .ok values
    ∧ sampleOf l'.toGraph l'.rootId = .ok values'
    ∧ values ≠ values'

/-- Whether a computation gives a value that passes a test. -/
def passes {α : Type} (x : Except Fault α) (test : α → Bool) : Bool :=
  match x with
  | .ok a => test a
  | .error _ => false

theorem exists_of_passes {α : Type} {x : Except Fault α} {test : α → Bool}
    (h : passes x test = true) :
  ∃ a, x = .ok a ∧ test a = true
  := by
  cases x with
  | error fault => cases h
  | ok a => exact ⟨a, rfl, h⟩

/-- The densities before saving and after loading can be computed. -/
theorem Changes.of_passes {fields : Fields} (h : Fixed none fields) {ports : List (String × Json)}
    (hpasses : passes (Layout.ofAsset (.obj fields) .null (0.0, 0.0) .null {}) (fun l =>
      passes ((l.toGraph.cut ports).assetOf l.rootId) fun found => found.any fun saved =>
        passes (Layout.ofAsset saved .null (0.0, 0.0) .null {}) fun l' =>
          passes (sampleOf (l.toGraph.cut ports) l.rootId) fun values =>
            passes (sampleOf l'.toGraph l'.rootId) fun values' => values ≠ values') = true) :
  Changes fields ports
  := by
  obtain ⟨l, hl, hpasses⟩ := exists_of_passes hpasses
  obtain ⟨found, hfound, hpasses⟩ := exists_of_passes hpasses
  obtain ⟨saved, rfl, hpasses⟩ := (Option.any_eq_true _ _).mp hpasses
  obtain ⟨l', hl', hpasses⟩ := exists_of_passes hpasses
  obtain ⟨values, hvalues, hpasses⟩ := exists_of_passes hpasses
  obtain ⟨values', hvalues', hne⟩ := exists_of_passes hpasses
  have hplaced : Layout.ofAsset (.obj fields) .null (0.0, 0.0) (Json.ofOption none) {} = .ok l := hl
  have hround := h.toAsset_of_realizes (realizes_of_ofAsset hplaced)
  use l, saved, l', values, values', hl, hround, hfound, hl', hvalues, hvalues'
  apply of_decide_eq_true hne

/-- An absolute value with an input under the empty name beside its item. -/
def nameless : Fields :=
  [("Type", .str "Abs"), ("Inputs", .arr [.obj (bare "Zero")]), ("", .obj (bare "One"))]

theorem parts_nameless :
  parts nameless = [.plain "Type" (.str "Abs"), .record "Inputs",
    .child ⟨"Inputs", some 0, bare "Zero"⟩, .child ⟨"", none, bare "One"⟩]
  := rfl

theorem fixed_nameless : Fixed none nameless
  := by
  apply fixed_of_bare
  · constructor
    · constructor
      · simp [nameless]
      · unfold Entries.Distinct
        decide
    · exact ⟨_, rfl, rfl⟩
    · decide
    · decide
    · decide
    · intro c hc hi _
      have hname : ∀ c ∈ children nameless, c.index = none → c.name = "" := by decide
      rw [hname c hc hi]
      decide
    · decide
  · rw [parts_nameless]
    simp [Part.asset?]
  · rfl

/-- The blend is zero without its first input, and one when it is loaded again: the second input
has moved up.  The absolute value is one as it stands, and zero when it is loaded again: its inputs
have one name in the input map, and the one that is written first has changed. -/
theorem changes_blend_nameless :
  Changes blend [("graph_1", .str "InputA")] ∧ Changes nameless []
  := by
  constructor
  · apply Changes.of_passes fixed_blend
    decide +kernel
  · apply Changes.of_passes fixed_nameless
    decide +kernel

end Layout

end AssetCanvas
