import AssetCanvas.Proofs.Assembling
import AssetCanvas.Proofs.Permuting
import AssetCanvas.Proofs.Reachability

/-!
# The order of edges

An asset is put together from the edges of a graph one after the other, but its arrays follow
the indices of their slots.  If no two edges into a node mean one slot, `Graph.Orderless`, then
permuting the edges of a graph permutes the keys of its assets and nothing else,
`Graph.sameAssets_of_perm`.
-/

namespace AssetCanvas

open Assembly Json

/-! ### Reordered results -/

namespace Json.Reordered

theorem filterMap_of_rel {found found' : List (Option Json)}
    (h : List.Forall₂ (Option.Rel Reordered) found found') :
  List.Forall₂ Reordered (found.filterMap id) (found'.filterMap id)
  := by
  apply List.rel_filterMap (R := Option.Rel Reordered) _ h
  exact fun _ _ hv => hv

/-- The assets that are found for some values are reordered if each of them is. -/
theorem related_found {ι : Type} (values : List ι) {f f' : ι → Except Fault (Option Json)}
    (hf : ∀ v, Fault.Related (Option.Rel Reordered) (f v) (f' v)) :
  Fault.Related (List.Forall₂ Reordered) (do return (← values.mapM f).filterMap id)
    (do return (← values.mapM f').filterMap id)
  := by
  apply (Fault.Related.mapM (List.forall₂_same.mpr fun v _ => hf v)).bind
  intro found found' hfound
  apply Fault.Related.ok (filterMap_of_rel hfound)

theorem countable_eq {v w : Json} (h : v.Reordered w) : Graph.countable v = Graph.countable w
  := by
  induction h with
  | trans _ _ ih ih' => rw [ih, ih']
  | _ => rfl

/-- Objects with reordered disconnected trees are counted together. -/
theorem related_counted {fields fields' : Fields} (hm : Mapping fields) (hm' : Mapping fields')
    (h : (Json.obj fields).Reordered (.obj fields')) {trees trees' : List Json}
    (htrees : List.Forall₂ Reordered trees trees') :
  Fault.Related Reordered (Graph.counted (Graph.withDisconnected (.obj fields) trees))
    (Graph.counted (Graph.withDisconnected (.obj fields') trees'))
  := by
  have hfind := (hm.reordered_iff hm').mp h
  cases htrees with
  | nil =>
    simp only [Graph.withDisconnected, List.isEmpty_nil, if_true, Graph.counted]
    have hkey := hfind Asset.disconnectedKey
    generalize Entries.find? fields (.text Asset.disconnectedKey) = x at hkey
    generalize Entries.find? fields' (.text Asset.disconnectedKey) = x' at hkey
    cases hkey with
    | none => apply Fault.Related.ok h
    | some hv =>
      simp only [countable_eq hv]
      split
      · apply Fault.Related.ok h
      · apply Fault.Related.error
  | cons htree hrest =>
    rw [Graph.counted_withDisconnected _ (List.cons_ne_nil _ _),
      Graph.counted_withDisconnected _ (List.cons_ne_nil _ _)]
    apply Fault.Related.ok
    apply ((hm.insert _ _).reordered_iff (hm'.insert _ _)).mpr
    intro s
    rw [Entries.find?_insert, Entries.find?_insert]
    split
    · apply Option.Rel.some (arr (.cons htree hrest))
    · apply hfind

theorem insert {fields fields' : Fields} (h : List.Forall₂ Reordered.Field fields fields')
    (key : Key) {v w : Json} (hv : v.Reordered w) :
  List.Forall₂ Reordered.Field (Entries.insert fields key v) (Entries.insert fields' key w)
  := by
  induction h with
  | nil => exact .cons ⟨rfl, hv⟩ .nil
  | @cons f f' rest rest' hf hrest ih =>
    obtain ⟨k, u⟩ := f
    obtain ⟨k', u'⟩ := f'
    obtain ⟨hk, hu⟩ := hf
    obtain rfl : k = k' := hk
    rw [Entries.insert, Entries.insert]
    split
    · exact .cons ⟨rfl, hv⟩ hrest
    · exact .cons ⟨rfl, hu⟩ ih

/-- Naming reordered assets in order. -/
theorem related_names (names : List Json) {assets assets' : List Json}
    (h : List.Forall₂ Reordered assets assets') {found found' : Fields}
    (hfound : List.Forall₂ Reordered.Field found found') :
  Fault.Related (List.Forall₂ Reordered.Field) ((names.zip assets).foldlM Graph.nameAsset found)
    ((names.zip assets').foldlM Graph.nameAsset found')
  := by
  induction h generalizing names found found' with
  | nil =>
    rw [List.zip_nil_right]
    apply Fault.Related.ok hfound
  | cons hv _ ih =>
    cases names with
    | nil => apply Fault.Related.ok hfound
    | cons name names =>
      rw [List.zip_cons_cons, List.zip_cons_cons, List.foldlM_cons, List.foldlM_cons,
        Graph.nameAsset, Graph.nameAsset]
      cases name.key with
      | error fault => apply Fault.Related.error
      | ok key => apply ih names (insert hfound key hv)

end Json.Reordered

/-! ### Permuted edges -/

namespace Graph

/-- Whether the plain fields of the nodes are mappings, and no two edges into a node mean one
slot. -/
structure Orderless (g : Graph) : Prop where
  fields : ∀ n ∈ g.nodes, ∀ fields, n.fields = .obj fields → Mapping fields
  slots : ∀ id n, Entries.find? g.nodeMap id = some n →
    (g.inboundEdges id).Pairwise fun e e' =>
      ∀ slot, n.slot e.targetPort = .ok slot → n.slot e'.targetPort ≠ .ok slot

theorem Orderless.subgraph {g : Graph} (h : g.Orderless) (ids : List String) :
  (g.subgraph ids).Orderless
  where
  fields n hn := h.fields n (List.mem_of_mem_filter hn)
  slots id n hfind := by
    rw [g.find?_nodeMap_subgraph (mem_of_find?_nodeMap_subgraph hfind)] at hfind
    apply List.Pairwise.sublist (List.filter_sublist.filter _) (h.slots id n hfind)

/-- Whether a graph has the nodes of another one, and its edges in any order. -/
structure Shuffles (g g' : Graph) : Prop where
  nodes : g'.nodes = g.nodes
  edges : g.edges.Perm g'.edges

variable {g g' : Graph}

theorem exists_obj_of_assetOf {id : String} {v : Json} (h : g.assetOf id = .ok (some v)) :
  ∃ fields, v = .obj fields
  := by
  rw [assetOf_eq] at h
  apply Outline.exists_obj h

/-- An asset of a graph is a mapping. -/
theorem Orderless.mapping (h : g.Orderless) {id : String} {fields : Fields}
    (hasset : g.assetOf id = .ok (some (.obj fields))) :
  Mapping fields
  := by
  rw [assetOf_eq, unfold] at hasset
  split at hasset
  · cases hfind : Entries.find? g.nodeMap id with
    | none =>
      rw [hfind] at hasset
      cases hasset
    | some n =>
      rw [hfind] at hasset
      obtain ⟨discriminant, -, hasset⟩ := Fault.bind_eq_ok_iff.mp hasset
      obtain ⟨own, hown, hasset⟩ := Fault.bind_eq_ok_iff.mp hasset
      obtain ⟨parts, hparts, hasset⟩ := Fault.bind_eq_ok_iff.mp hasset
      obtain rfl := Json.obj.inj (Option.some.inj (Except.ok.inj hasset))
      rw [Outline.eq_putAll_of_putInputs hparts]
      apply mapping_placed
      apply mapping_ownFields (h.fields n (mem_nodes_of_find? hfind).1) hown
  · cases hasset

/-! ### Assets of nodes, graphs and sections -/

namespace Shuffles

variable (h : g.Shuffles g')

include h

theorem symm : g'.Shuffles g
  where
  nodes := h.nodes.symm
  edges := h.edges.symm

theorem nodeMap_eq : g'.nodeMap = g.nodeMap
  := by
  rw [nodeMap, nodeMap, h.nodes]

theorem orderless (ho : g.Orderless) : g'.Orderless
  where
  fields n hn := ho.fields n (by rwa [← h.nodes])
  slots id n hfind := by
    rw [h.nodeMap_eq] at hfind
    apply (h.edges.filter _).pairwise (ho.slots id n hfind)
    intro e e' hne slot hslot hslot'
    apply hne slot hslot' hslot

theorem feedsEdge_eq (id : String) : g'.feedsEdge id = g.feedsEdge id
  := by
  rw [feedsEdge, feedsEdge, h.edges.any_eq]

theorem terminalNodes_eq : g'.terminalNodes = g.terminalNodes
  := by
  simp only [terminalNodes, h.nodes, h.feedsEdge_eq]

theorem roots_eq : g'.roots = g.roots
  := by
  rw [roots, roots, h.nodes, h.terminalNodes_eq]

theorem feeds_iff (source target : String) : g'.Feeds source target ↔ g.Feeds source target
  := by
  simp only [Feeds, h.edges.mem_iff]

/-- Permuting edges permutes the edges of subgraphs. -/
theorem subgraph {ids ids' : List String} (hids : ∀ id, id ∈ ids ↔ id ∈ ids') :
  (g.subgraph ids).Shuffles (g'.subgraph ids')
  where
  nodes := by
    simp only [Graph.subgraph, h.nodes, List.contains_eq_mem, hids]
  edges := by
    simp only [Graph.subgraph, List.contains_eq_mem, hids]
    apply h.edges.filter

theorem mem_ancestorIds_iff (id start : String) :
  id ∈ g.ancestorIds start ↔ id ∈ g'.ancestorIds start
  := by
  have hfeeds : g'.Feeds = g.Feeds := by
    funext source target
    rw [eq_iff_iff]
    apply h.feeds_iff
  rw [Graph.mem_ancestorIds_iff, Graph.mem_ancestorIds_iff, hfeeds]

variable (ho : g.Orderless)

include ho

/-- The asset of an id does not depend on the order of the edges. -/
theorem toAsset_unfold (fresh : List String) (id : String) :
  Fault.Related (Option.Rel Reordered) (g.unfold fresh id).toAsset (g'.unfold fresh id).toAsset
  := by
  induction fresh, id using walk_induction with
  | step fresh id ih =>
    rw [unfold, unfold, h.nodeMap_eq]
    by_cases hmem : id ∈ fresh
    · rw [dif_pos hmem, dif_pos hmem]
      cases hfind : Entries.find? g.nodeMap id with
      | none => exact .ok .none
      | some n =>
        have hn := (mem_nodes_of_find? hfind).1
        apply Outline.related_toAsset_perm (n := n.content) (h.edges.filter _) (ih hmem)
          (ho.fields n hn) (ho.slots id n hfind)
    · rw [dif_neg hmem, dif_neg hmem]
      exact .ok .none

theorem assetOf (id : String) :
  Fault.Related (Option.Rel Reordered) (g.assetOf id) (g'.assetOf id)
  := by
  rw [assetOf_eq, assetOf_eq, h.nodeMap_eq]
  apply h.toAsset_unfold ho

theorem assetsOf (ids : List String) :
  Fault.Related (List.Forall₂ Reordered) (g.assetsOf ids) (g'.assetsOf ids)
  := Reordered.related_found ids (h.assetOf ho)

theorem rootAssets : Fault.Related (List.Forall₂ Reordered) g.rootAssets g'.rootAssets
  := by
  rw [Graph.rootAssets, Graph.rootAssets, h.roots_eq]
  apply h.assetsOf ho

theorem assetOfValue (id : Json) :
  Fault.Related (Option.Rel Reordered) (g.assetOfValue id) (g'.assetOfValue id)
  := by
  rw [Graph.assetOfValue, Graph.assetOfValue]
  cases id.key with
  | error fault => apply Fault.Related.error
  | ok key =>
    simp only [Fault.ok_bind]
    split
    · apply h.assetOf ho
    · exact .ok .none

theorem assetsOfValues (ids : Json) :
  Fault.Related (List.Forall₂ Reordered) (g.assetsOfValues ids) (g'.assetsOfValues ids)
  := by
  rw [Graph.assetsOfValues, Graph.assetsOfValues]
  cases ids.items with
  | error fault => apply Fault.Related.error
  | ok values => apply Reordered.related_found values (h.assetOfValue ho)

/-- The assets of an id are reordered mappings. -/
theorem mappings_assetOf {id : String} {v v' : Json} (hv : g.assetOf id = .ok (some v))
    (hv' : g'.assetOf id = .ok (some v')) :
  ∃ fields fields', v = .obj fields ∧ v' = .obj fields' ∧ Mapping fields ∧ Mapping fields'
  := by
  obtain ⟨fields, rfl⟩ := exists_obj_of_assetOf hv
  obtain ⟨fields', rfl⟩ := exists_obj_of_assetOf hv'
  exact ⟨fields, fields', rfl, rfl, ho.mapping hv, (h.orderless ho).mapping hv'⟩

/-- The asset of the tree from a root does not depend on the order of the edges. -/
theorem assetFrom (primary : Node) :
  Fault.Related (Option.Rel Reordered) (g.assetFrom primary) (g'.assetFrom primary)
  := by
  have hstarts : g'.starts primary.id = g.starts primary.id := by
    rw [starts, starts, h.feedsEdge_eq, h.terminalNodes_eq]
  have hasset := h.assetOf ho primary.id
  rw [assetFrom_eq, assetFrom_eq, hstarts]
  generalize hx : g.assetOf primary.id = x at hasset
  generalize hx' : g'.assetOf primary.id = x' at hasset
  cases hasset with
  | error _ _ => apply Fault.Related.error
  | ok hfound =>
    cases hfound with
    | none => exact .ok .none
    | some hv =>
      obtain ⟨fields, fields', rfl, rfl, hm, hm'⟩ := h.mappings_assetOf ho hx hx'
      apply (h.assetsOf ho _).bind
      intro trees trees' htrees
      apply (Reordered.related_counted hm hm' hv htrees).bind
      intro w w' hw
      exact .ok (.some hw)

theorem toAsset (root : Json) :
  Fault.Related (Option.Rel Reordered) (g.toAsset root) (g'.toAsset root)
  := by
  have hprimary : g'.primaryRoot root = g.primaryRoot root := by
    have hnode : g'.node? = g.node? := by
      funext id
      rw [node?, node?, h.nodes]
    rw [primaryRoot, primaryRoot, h.roots_eq, hnode]
  rw [Graph.toAsset, Graph.toAsset, hprimary]
  cases g.primaryRoot root with
  | none => exact .ok .none
  | some primary => apply h.assetFrom ho

theorem addSection (tagged : List (Key × Node)) (name : Json) {found found' : Fields}
    (hfound : List.Forall₂ Reordered.Field found found') :
  Fault.Related (List.Forall₂ Reordered.Field) (g.addSection tagged found name)
    (g'.addSection tagged found' name)
  := by
  rw [Graph.addSection, Graph.addSection]
  cases name.key with
  | error fault => apply Fault.Related.error
  | ok name =>
    simp only [Fault.ok_bind]
    split
    next root hroot =>
      have hsection : (g.subgraph (g.ancestorIds root.id)).Shuffles
          (g'.subgraph (g'.ancestorIds root.id)) :=
        h.subgraph fun id => h.mem_ancestorIds_iff id root.id
      apply (hsection.assetOf (ho.subgraph _) root.id).bind
      intro asset asset' hasset
      cases hasset with
      | none => exact .ok hfound
      | some hv => exact .ok (Reordered.insert hfound name hv)
    next => exact .ok hfound

/-- The sections of a graph, up to the order of keys in their assets. -/
theorem toSections (names : Json) :
  Fault.Related (fun s s' => List.Forall₂ Reordered.Field s.assets s'.assets
    ∧ s.unassigned = s'.unassigned) (g.toSections names) (g'.toSections names)
  := by
  have htagged : g'.taggedRoots names = g.taggedRoots names := by
    rw [taggedRoots, taggedRoots, h.nodes]
  rw [Graph.toSections, Graph.toSections, htagged]
  cases g.taggedRoots names with
  | error fault => apply Fault.Related.error
  | ok tagged =>
    simp only [Fault.ok_bind]
    split
    · rw [untaggedSections, untaggedSections]
      apply (h.rootAssets ho).bind
      intro assets assets' hassets
      cases names.items with
      | error fault => apply Fault.Related.error
      | ok names =>
        apply (Reordered.related_names names hassets .nil).bind
        intro found found' hfound
        exact .ok ⟨hfound, by rw [hassets.length_eq]⟩
    · cases names.items with
      | error fault => apply Fault.Related.error
      | ok names =>
        have hadd : ∀ name ∈ names, ∀ found found', List.Forall₂ Reordered.Field found found' →
            Fault.Related (List.Forall₂ Reordered.Field) (g.addSection tagged found name)
              (g'.addSection tagged found' name) :=
          fun name _ found found' => h.addSection ho tagged name
        apply (Fault.Related.foldlM (List.forall₂_same.mpr hadd) .nil).bind
        intro found found' hfound
        exact .ok ⟨hfound, rfl⟩

end Shuffles

/-- Whether the asset of the whole graph, the assets of nodes and roots, and those of sections are
the same in two graphs up to the order of keys. -/
structure SameAssets (g g' : Graph) : Prop where
  whole : ∀ root, Fault.Related (Option.Rel Reordered) (g.toAsset root) (g'.toAsset root)
  ids : ∀ ids, Fault.Related (List.Forall₂ Reordered) (g.assetsOfValues ids) (g'.assetsOfValues ids)
  roots : Fault.Related (List.Forall₂ Reordered) g.rootAssets g'.rootAssets
  sections : ∀ names, Fault.Related (fun s s' => List.Forall₂ Reordered.Field s.assets s'.assets
    ∧ s.unassigned = s'.unassigned) (g.toSections names) (g'.toSections names)

/-- If no two edges into a node mean one slot, then permuting the edges permutes the keys of the
assets. -/
theorem sameAssets_of_perm (ho : g.Orderless) {edges : List Edge} (hp : g.edges.Perm edges) :
  g.SameAssets ⟨g.nodes, edges⟩
  := by
  have h : g.Shuffles ⟨g.nodes, edges⟩ := ⟨rfl, hp⟩
  constructor
  · apply h.toAsset ho
  · apply h.assetsOfValues ho
  · apply h.rootAssets ho
  · apply h.toSections ho

/-- A sum that is fed through a field and through two of its items, and that feeds one of its
constants. -/
def tangledSum : Graph where
  nodes :=
    [{ id := "sum", label := .str "Sum", assetType := .str "Sum" },
      { id := "zero", label := .str "Zero", assetType := .str "Zero" },
      { id := "one", label := .str "One", assetType := .str "One" }]
  edges :=
    [.link "one" "sum" (.str "Inputs[1]"), .link "zero" "sum" (.str "Inputs"),
      .link "zero" "sum" (.str "Inputs[0]"), .link "sum" "one" (.str "Input")]

theorem orderless_tangledSum : tangledSum.Orderless
  where
  fields n hn fields hfields := by
    simp only [tangledSum, List.mem_cons, List.not_mem_nil, or_false] at hn
    obtain rfl : fields = [] := by rcases hn with rfl | rfl | rfl <;> exact (Json.obj.inj hfields).symm
    exact ⟨by simp, .nil⟩
  slots id n hfind := by
    suffices ((tangledSum.inboundEdges n.id).map fun e => n.slot e.targetPort).Nodup by
      obtain ⟨-, rfl⟩ := mem_nodes_of_find? hfind
      apply (List.pairwise_map.mp this).imp
      intro e e' hne slot hslot hslot'
      exact hne (hslot.trans hslot'.symm)
    have hn := (mem_nodes_of_find? hfind).1
    simp only [tangledSum, List.mem_cons, List.not_mem_nil, or_false] at hn
    rcases hn with rfl | rfl | rfl
    · have hslots : (tangledSum.inboundEdges "sum").map (fun e => Node.slot
            { id := "sum", label := .str "Sum", assetType := .str "Sum" } e.targetPort)
          = [.ok ("Inputs", some 1), .ok ("Inputs", none), .ok ("Inputs", some 0)] := rfl
      rw [hslots]
      simp
    · apply List.Pairwise.nil
    · apply List.pairwise_singleton

/-- The edges of the sum may be reversed. -/
theorem sameAssets_tangledSum :
  tangledSum.Orderless ∧ tangledSum.SameAssets ⟨tangledSum.nodes, tangledSum.edges.reverse⟩
  := ⟨orderless_tangledSum,
    sameAssets_of_perm orderless_tangledSum (List.reverse_perm tangledSum.edges).symm⟩

end Graph

end AssetCanvas
