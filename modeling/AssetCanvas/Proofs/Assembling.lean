import AssetCanvas.Canvas
import AssetCanvas.Proofs.Forest

/-!
# When assets can be put together

Assets can be put together if the ports that the assembly reads can be read,
`Graph.Shaped.exists_assetOf_iff`.  The asset of a whole graph has one more condition: the root may
keep a value of its own under the key of disconnected trees, and then the value has to be one that
can be counted.  `Graph.Chokes` is the case in which it is not, and `Graph.assembly_succeeds_iff`
lists the conditions for the assets of nodes, of whole graphs and of sections.
-/

namespace AssetCanvas

open Assembly

namespace Graph

/-! ### Values under a key -/

/-- What stands under a field of an asset can be counted if a child is put there, or if what the
asset has of its own can be counted. -/
theorem countable_placed_iff {own : Fields} {writes : List Write}
    (h : ∀ w ∈ writes, countable w.2 = true) (field : String) :
  (∀ v, Entries.find? (placed own writes) (.text field) = some v → countable v = true)
    ↔ (∃ w ∈ writes, w.1.1 = field)
      ∨ ∀ v, Entries.find? own (.text field) = some v → countable v = true
  := by
  by_cases hput : ∃ w ∈ writes, w.1.1 = field
  · apply iff_of_true _ (.inl hput)
    obtain ⟨w, hw, rfl⟩ := hput
    intro v hv
    obtain ⟨items, hfound⟩ | ⟨child, hchild, hfound⟩ := find?_placed_of_mem own hw
    · obtain rfl := Option.some.inj (hfound.symm.trans hv)
      rfl
    · obtain rfl := Option.some.inj (hfound.symm.trans hv)
      apply h _ hchild
  · rw [find?_placed_of_forall own fun w hw heq => hput ⟨w, hw, heq⟩, or_iff_right hput]

theorem exists_counted_iff (fields : Fields) (trees : List Json) :
  (∃ v, counted (withDisconnected (.obj fields) trees) = .ok v)
    ↔ trees ≠ [] ∨ ∀ v, Entries.find? fields (.text Asset.disconnectedKey) = some v →
      countable v = true
  := by
  by_cases htrees : trees = []
  · rw [htrees, withDisconnected]
    simp only [List.isEmpty_nil, if_true, counted]
    cases Entries.find? fields (.text Asset.disconnectedKey) with
    | none => simp
    | some v => by_cases hv : countable v = true <;> simp [hv]
  · rw [counted_withDisconnected fields htrees]
    simp [htrees]

/-! ### Graphs -/

/-- The ids from whose assets the asset of a whole graph is made: the id of the root and, if the
root feeds no edge, those of the other nodes that feed none. -/
def starts (g : Graph) (id : String) : List String :=
  id :: if g.feedsEdge id then [] else (g.terminalNodes.filter fun n => n.id ≠ id).map Node.id

/-- Whether the value that a root has of its own under the key of disconnected trees cannot be
counted, and stays there: no child is put under the key, and there are no disconnected trees. -/
structure Chokes (g : Graph) (n : Node) : Prop where
  own : ∃ fields v, n.fields = .obj fields
    ∧ Entries.find? fields (.text Asset.disconnectedKey) = some v ∧ countable v = false
  stays : ∀ e ∈ g.inboundEdges n.id, e.source ∈ g.nodes.map Node.id → e.source ≠ n.id →
    ∀ index, n.slot e.targetPort ≠ .ok (Asset.disconnectedKey, index)
  alone : g.starts n.id = [n.id]

theorem not_chokes_iff (g : Graph) (n : Node) :
  ¬ g.Chokes n ↔ (g.starts n.id).tail ≠ []
    ∨ (∃ e ∈ g.inboundEdges n.id, e.source ∈ g.nodes.map Node.id ∧ e.source ≠ n.id
      ∧ ∃ index, n.slot e.targetPort = .ok (Asset.disconnectedKey, index))
    ∨ ∀ own v, n.fields = .obj own →
      Entries.find? own (.text Asset.disconnectedKey) = some v → countable v = true
  := by
  have halone : g.starts n.id = [n.id] ↔ (g.starts n.id).tail = [] := by
    rw [starts, List.tail_cons, List.cons.injEq, and_iff_right rfl]
  constructor
  · intro h
    by_contra hnone
    obtain ⟨htail, hnone⟩ := not_or.mp hnone
    obtain ⟨hkept, hown⟩ := not_or.mp hnone
    apply h
    constructor
    · obtain ⟨own, hown⟩ := not_forall.mp hown
      obtain ⟨v, hown⟩ := not_forall.mp hown
      obtain ⟨hfields, hown⟩ := Classical.not_imp.mp hown
      obtain ⟨hv, hcountable⟩ := Classical.not_imp.mp hown
      exact ⟨own, v, hfields, hv, by simpa using hcountable⟩
    · intro e he hnode hne index hslot
      apply hkept
      exact ⟨e, he, hnode, hne, index, hslot⟩
    · rw [halone]
      simpa using htail
  · rintro h ⟨⟨own, v, hfields, hv, hcountable⟩, hstays, hstarts⟩
    rcases h with htail | ⟨e, he, hnode, hne, index, hslot⟩ | hown
    · exact htail (halone.mp hstarts)
    · exact hstays e he hnode hne index hslot
    · rw [hown own v hfields hv] at hcountable
      cases hcountable

/-- What a node has of its own in its asset are the fields of the node, apart from the
discriminant. -/
theorem find?_ownFields {n : Node} {discriminant : Json} {own fields : Fields}
    (h : ownFields n discriminant = .ok own) (hfields : n.fields = .obj fields) {field : String}
    (hfield : field ≠ Asset.typeKey) :
  Entries.find? own (.text field) = Entries.find? fields (.text field)
  := by
  have hplain : Entries.find? (fields.filter fun f => f.1 != .text Asset.typeKey) (.text field)
      = Entries.find? fields (.text field) := by
    apply Entries.find?_filter_of
    intro f _ hf
    rw [Key.eq_of_beq_text hf]
    simp [bne, hfield]
  rw [ownFields, hfields] at h
  obtain rfl := Except.ok.inj h
  rw [← hplain]
  split
  · rfl
  · simp [Entries.find?, Ne.symm hfield]

/-- The asset of the tree from a root has the assets of the other starts as its disconnected
trees. -/
theorem assetFrom_eq (g : Graph) (primary : Node) :
  g.assetFrom primary = do
    match ← g.assetOf primary.id with
    | none => return none
    | some asset => do
      let trees ← g.assetsOf (g.starts primary.id).tail
      return some (← counted (withDisconnected asset trees))
  := by
  rw [assetFrom]
  congr 1
  funext found
  cases found with
  | none => rfl
  | some asset =>
    rw [starts, List.tail_cons]
    by_cases hfeeds : g.feedsEdge primary.id = true
    · simp only [if_pos hfeeds]
      rfl
    · simp only [if_neg hfeeds]
      rfl

/-- The other starts of a graph are nodes. -/
theorem mem_nodes_of_starts {g : Graph} {id other : String} (h : other ∈ (g.starts id).tail) :
  other ∈ g.nodes.map Node.id
  := by
  rw [starts, List.tail_cons] at h
  split at h
  · cases h
  · obtain ⟨n, hn, rfl⟩ := List.mem_map.mp h
    apply List.mem_map_of_mem
    apply List.mem_of_mem_filter (List.mem_of_mem_filter hn)

/-- The root of the asset of a graph is a node of the graph. -/
theorem mem_of_primaryRoot {g : Graph} {root : Json} {primary : Node}
    (h : g.primaryRoot root = some primary) :
  primary ∈ g.nodes
  := by
  unfold primaryRoot at h
  split at h
  · have hroots := List.mem_of_mem_head? h
    unfold roots at hroots
    simp only at hroots
    split at hroots
    · split at hroots
      · apply List.mem_of_mem_take hroots
      · apply List.mem_of_mem_filter hroots
    · apply List.mem_of_mem_filter hroots
  · obtain ⟨id, -, hnode⟩ := Option.bind_eq_some_iff.mp h
    apply List.mem_of_find?_eq_some hnode

namespace Shaped

variable {g : Graph}

/-- The asset of a node is made of the fields of the node and of the assets of the sources of the
edges into it, in the slots of their ports. -/
theorem exists_placed (h : g.Shaped) {n : Node} (hfind : Entries.find? g.nodeMap n.id = some n)
    {fields : Fields} (hasset : g.assetOf n.id = .ok (some (.obj fields))) :
  ∃ discriminant own writes, ownFields n discriminant = .ok own ∧ fields = placed own writes
    ∧ (∀ w ∈ writes, ∃ t, w.2 = .obj t)
    ∧ ∀ slot, (∃ w ∈ writes, w.1 = slot) ↔ ∃ e ∈ g.inboundEdges n.id,
      e.source ∈ g.nodes.map Node.id ∧ e.source ≠ n.id ∧ n.slot e.targetPort = .ok slot
  := by
  have hlegible := (h.exists_assetOf_iff n.id).mp ⟨_, hasset⟩
  have hkey := Entries.mem_keys_of_find? hfind
  rw [assetOf_eq, unfold, dif_pos hkey, hfind] at hasset
  obtain ⟨discriminant, hdiscriminant, hasset⟩ := Fault.bind_eq_ok_iff.mp hasset
  obtain ⟨own, hown, hasset⟩ := Fault.bind_eq_ok_iff.mp hasset
  obtain ⟨parts, hparts, hasset⟩ := Fault.bind_eq_ok_iff.mp hasset
  obtain rfl := Json.obj.inj (Option.some.inj (Except.ok.inj hasset))
  obtain ⟨writes, rfl, hwrites⟩ := Outline.exists_writes hparts
  have hsource : ∀ e ∈ g.inboundEdges n.id,
      (∃ child, (g.unfold (Walk.without (Entries.keys g.nodeMap) n.id) e.source).toAsset
        = .ok (some child)) ↔ e.source ∈ g.nodes.map Node.id ∧ e.source ≠ n.id := by
    intro e he
    obtain ⟨hsome, hexists⟩ := h.exists_toAsset_iff
      (fun other hother => (Walk.mem_without.mp hother).1) e.source
    rw [← mem_keys_nodeMap_iff, ← Walk.mem_without]
    constructor
    · rintro ⟨child, hchild⟩
      apply (hsome _ hchild).mp rfl
    · intro hmem
      obtain ⟨found, hfound⟩ := hexists.mpr ((forall_meets_iff hkey).mp hlegible e he).2
      obtain ⟨child, rfl⟩ := Option.isSome_iff_exists.mp ((hsome _ hfound).mpr hmem)
      exact ⟨child, hfound⟩
  have hslot : ∀ port, n.slot port = slotOf n.content discriminant port := by
    intro port
    rw [Node.slot, show n.discriminant = .ok discriminant from hdiscriminant]
    rfl
  refine ⟨discriminant, own, writes, hown, rfl, ?_, ?_⟩
  · intro w hw
    obtain ⟨input, -, hinput, -⟩ := (hwrites w).mp hw
    apply Outline.exists_obj hinput
  · intro slot
    constructor
    · rintro ⟨w, hw, rfl⟩
      obtain ⟨input, hinput, hchild, hs⟩ := (hwrites w).mp hw
      obtain ⟨e, he, rfl⟩ := List.mem_map.mp hinput
      obtain ⟨hnode, hne⟩ := (hsource e he).mp ⟨w.2, hchild⟩
      refine ⟨e, he, hnode, hne, ?_⟩
      rw [hslot]
      apply hs
    · rintro ⟨e, he, hnode, hne, hs⟩
      obtain ⟨child, hchild⟩ := (hsource e he).mpr ⟨hnode, hne⟩
      rw [hslot] at hs
      refine ⟨(slot, child), ?_, rfl⟩
      apply (hwrites _).mpr
      exact ⟨_, List.mem_map_of_mem he, hchild, hs⟩

/-- What the asset of a node has under the key of disconnected trees can be counted exactly if a
child is put there, or if what the node has there of its own can be counted. -/
theorem countable_assetOf_iff (h : g.Shaped) {n : Node}
    (hfind : Entries.find? g.nodeMap n.id = some n) {fields : Fields}
    (hasset : g.assetOf n.id = .ok (some (.obj fields))) :
  (∀ v, Entries.find? fields (.text Asset.disconnectedKey) = some v → countable v = true)
    ↔ (∃ e ∈ g.inboundEdges n.id, e.source ∈ g.nodes.map Node.id ∧ e.source ≠ n.id
        ∧ ∃ index, n.slot e.targetPort = .ok (Asset.disconnectedKey, index))
      ∨ ∀ own v, n.fields = .obj own →
        Entries.find? own (.text Asset.disconnectedKey) = some v → countable v = true
  := by
  obtain ⟨discriminant, own, writes, hown, rfl, hobj, hwrites⟩ := h.exists_placed hfind hasset
  have hcountable : ∀ w ∈ writes, countable w.2 = true := by
    intro w hw
    obtain ⟨t, ht⟩ := hobj w hw
    rw [ht]
    rfl
  rw [countable_placed_iff hcountable]
  apply or_congr
  · constructor
    · rintro ⟨⟨⟨_, index⟩, child⟩, hw, rfl⟩
      obtain ⟨e, he, hnode, hne, hslot⟩ := (hwrites _).mp ⟨_, hw, rfl⟩
      exact ⟨e, he, hnode, hne, index, hslot⟩
    · rintro ⟨e, he, hnode, hne, index, hslot⟩
      obtain ⟨w, hw, hslot'⟩ := (hwrites _).mpr ⟨e, he, hnode, hne, hslot⟩
      exact ⟨w, hw, congrArg Prod.fst hslot'⟩
  · obtain ⟨fields, hfields⟩ := h.fields n (mem_nodes_of_find? hfind).1
    rw [find?_ownFields hown hfields (by decide)]
    constructor
    · intro hall own v hv
      rw [hfields] at hv
      obtain rfl := Json.obj.inj hv
      apply hall v
    · intro hall v
      apply hall fields v hfields

/-- The assets of some ids are put together exactly if the asset of each of them is. -/
theorem exists_assetsOf_iff (h : g.Shaped) (ids : List String) :
  (∃ found, g.assetsOf ids = .ok found) ↔ ∀ id ∈ ids, g.Legible id
  := by
  rw [assetsOf, Fault.exists_bind_pure_iff, Fault.exists_mapM_iff]
  simp only [h.exists_assetOf_iff]

/-- Some nodes have no assets only if there are none. -/
theorem assetsOf_eq_nil_iff (h : g.Shaped) {ids : List String}
    (hids : ∀ id ∈ ids, id ∈ g.nodes.map Node.id) {found : List Json}
    (hfound : g.assetsOf ids = .ok found) :
  found = [] ↔ ids = []
  := by
  obtain ⟨assets, hassets, hfound⟩ := Fault.bind_eq_ok_iff.mp hfound
  obtain rfl := Except.ok.inj hfound
  rw [Fault.mapM_eq_ok_iff] at hassets
  cases hassets with
  | nil => simp
  | @cons id asset rest assets hasset _ =>
    have hsome := (h.isSome_assetOf_iff hasset).mpr (hids id (by simp))
    obtain ⟨v, rfl⟩ := Option.isSome_iff_exists.mp hsome
    simp

/-- The asset of the tree from a root is put together exactly if the ports that the assembly reads
can be read, and the root does not choke. -/
theorem exists_assetFrom_iff (h : g.Shaped) {primary n : Node}
    (hfind : Entries.find? g.nodeMap primary.id = some n) :
  (∃ found, g.assetFrom primary = .ok found)
    ↔ (∀ id ∈ g.starts primary.id, g.Legible id) ∧ ¬ g.Chokes n
  := by
  obtain ⟨hn, hid⟩ := mem_nodes_of_find? hfind
  have hstarts : g.starts primary.id = primary.id :: (g.starts primary.id).tail := rfl
  have hnode : primary.id ∈ g.nodes.map Node.id := by
    rw [← hid]
    apply List.mem_map_of_mem hn
  rw [assetFrom_eq, hstarts, List.forall_mem_cons, ← h.exists_assetOf_iff,
    ← h.exists_assetsOf_iff, List.tail_cons, ← hid]
  rw [← hid] at hfind hnode
  cases hasset : g.assetOf n.id with
  | error fault => simp
  | ok found =>
    obtain ⟨asset, rfl⟩ := Option.isSome_iff_exists.mp ((h.isSome_assetOf_iff hasset).mpr hnode)
    rw [assetOf_eq] at hasset
    obtain ⟨fields, rfl⟩ := Outline.exists_obj hasset
    rw [← assetOf_eq] at hasset
    simp only [Fault.ok_bind]
    cases htrees : g.assetsOf (g.starts n.id).tail with
    | error fault => simp
    | ok trees =>
      have hnil := h.assetsOf_eq_nil_iff (fun _ => mem_nodes_of_starts) htrees
      rw [Fault.ok_bind, Fault.exists_bind_pure_iff, exists_counted_iff,
        h.countable_assetOf_iff hfind hasset, not_chokes_iff, ne_eq, ne_eq, hnil]
      simp

/-- A part of a graph with attributes of the usual kinds has such attributes. -/
theorem subgraph (h : g.Shaped) (ids : List String) : (g.subgraph ids).Shaped
  where
  labels n hn := h.labels n (List.mem_of_mem_filter hn)
  ports e he := h.ports e (List.mem_of_mem_filter he)
  types n hn := h.types n (List.mem_of_mem_filter hn)
  fields n hn := h.fields n (List.mem_of_mem_filter hn)
  records n hn := h.records n (List.mem_of_mem_filter hn)

end Shaped

/-- Texts agree with equal texts only. -/
theorem eq_of_agrees {nested : Bool} {s : String} {v : Json}
    (h : Json.agrees nested (.str s) v = true) :
  v = .str s
  := by
  cases v <;> simp_all [Json.agrees, Json.sameAtom, Json.number?]

/-- The tags of sections with textual names can be looked up. -/
theorem exists_taggedRoots (g : Graph) (names : List String) :
  ∃ tagged, g.taggedRoots (.arr (names.map Json.str)) = .ok tagged
  := by
  rw [taggedRoots, Fault.exists_foldlM_iff (P := fun _ => True)]
  · simp
  · intro tagged n _
    rw [addTagged, Json.contains, Fault.ok_bind]
    split
    · rename_i hany
      obtain ⟨name, hname, hagrees⟩ := List.any_eq_true.mp hany
      obtain ⟨s, -, rfl⟩ := List.mem_map.mp hname
      rw [eq_of_agrees hagrees]
      simp [Json.key, Json.key?]
    · simp

namespace Shaped

variable {g : Graph}

/-- The assets of sections with textual names are put together exactly if the ports that the
assembly reads can be read: those of the parts of the graph above the roots with the names, or
those above the roots of the graph if no node has one of the names. -/
theorem exists_toSections_iff (h : g.Shaped) {names : List String} {tagged : List (Key × Node)}
    (htagged : g.taggedRoots (.arr (names.map Json.str)) = .ok tagged) :
  (∃ found, g.toSections (.arr (names.map Json.str)) = .ok found)
    ↔ if tagged = [] then ∀ n ∈ g.roots, g.Legible n.id
      else ∀ name ∈ names, ∀ root, Entries.find? tagged (.text name) = some root →
        (g.subgraph (g.ancestorIds root.id)).Legible root.id
  := by
  rw [toSections, htagged, Fault.ok_bind]
  by_cases hnil : tagged = []
  · rw [if_pos hnil, hnil]
    have hroots := h.exists_assetsOf_iff (g.roots.map Node.id)
    rw [List.forall_mem_map] at hroots
    simp only [List.isEmpty_nil, if_true, untaggedSections, rootAssets]
    rw [← hroots]
    cases g.assetsOf (g.roots.map Node.id) with
    | error fault => simp
    | ok assets =>
      rw [Fault.ok_bind, Json.items, Fault.ok_bind, Fault.exists_bind_pure_iff,
        Fault.exists_foldlM_iff (P := fun _ => True)]
      · simp
      · rintro found ⟨name, asset⟩ hentry
        obtain ⟨s, -, rfl⟩ := List.mem_map.mp (List.of_mem_zip hentry).1
        simp [nameAsset, Json.key, Json.key?]
  · rw [if_neg hnil, if_neg (by simpa using hnil), Json.items, Fault.ok_bind,
      Fault.exists_bind_pure_iff, List.foldlM_map]
    apply Fault.exists_foldlM_iff
    intro found name _
    have hkey : (Json.str name).key = .ok (.text name) := rfl
    rw [addSection, hkey, Fault.ok_bind]
    cases hroot : Entries.find? tagged (.text name) with
    | none => simp
    | some root =>
      have hsection : (∃ found, g.sectionAsset root = .ok found)
          ↔ (g.subgraph (g.ancestorIds root.id)).Legible root.id :=
        (h.subgraph (g.ancestorIds root.id)).exists_assetOf_iff root.id
      constructor
      · rintro ⟨found', hfound'⟩ root' hroot'
        obtain rfl := Option.some.inj hroot'
        obtain ⟨asset, hasset, -⟩ := Fault.bind_eq_ok_iff.mp hfound'
        apply hsection.mp ⟨asset, hasset⟩
      · intro hlegible
        obtain ⟨asset, hasset⟩ := hsection.mpr (hlegible root rfl)
        simp only [hasset, Fault.ok_bind]
        cases asset <;> exact ⟨_, rfl⟩

/-- The asset of a whole graph is put together exactly if its root does not choke, and the ports
that the assembly reads can be read; and there is one exactly if there is a root. -/
theorem exists_toAsset_root_iff (h : g.Shaped) (root : Json) :
  ((∃ found, g.toAsset root = .ok found)
      ↔ ∀ primary n, g.primaryRoot root = some primary →
        Entries.find? g.nodeMap primary.id = some n →
          (∀ id ∈ g.starts primary.id, g.Legible id) ∧ ¬ g.Chokes n)
    ∧ ∀ found, g.toAsset root = .ok found →
      (found.isSome = true ↔ (g.primaryRoot root).isSome = true)
  := by
  cases hprimary : g.primaryRoot root with
  | none => simp [toAsset, hprimary]
  | some primary =>
    obtain ⟨n, hfind⟩ : ∃ n, Entries.find? g.nodeMap primary.id = some n := by
      apply Entries.mem_keys_iff.mp
      apply mem_keys_nodeMap_iff.mpr
      apply List.mem_map_of_mem (mem_of_primaryRoot hprimary)
    simp only [toAsset, hprimary]
    constructor
    · rw [h.exists_assetFrom_iff hfind]
      constructor
      · intro hstarts primary' n' hprimary' hfind'
        obtain rfl := Option.some.inj hprimary'
        obtain rfl := Option.some.inj (hfind.symm.trans hfind')
        exact hstarts
      · intro hall
        apply hall primary n rfl hfind
    · intro found hfound
      rw [assetFrom_eq] at hfound
      obtain ⟨asset, hasset, hfound⟩ := Fault.bind_eq_ok_iff.mp hfound
      have hsome := (h.isSome_assetOf_iff hasset).mpr
        (List.mem_map_of_mem (mem_of_primaryRoot hprimary))
      obtain ⟨v, rfl⟩ := Option.isSome_iff_exists.mp hsome
      obtain ⟨trees, -, hfound⟩ := Fault.bind_eq_ok_iff.mp hfound
      obtain ⟨v', -, hfound⟩ := Fault.bind_eq_ok_iff.mp hfound
      obtain rfl := Except.ok.inj hfound
      simp

/-- The assets of some ids, given as values, are put together exactly if those of the ids are. -/
theorem exists_assetsOfValues_iff (h : g.Shaped) (ids : List String) :
  (∃ found, g.assetsOfValues (.arr (ids.map Json.str)) = .ok found) ↔ ∀ id ∈ ids, g.Legible id
  := by
  have hvalues : g.assetsOfValues (.arr (ids.map Json.str)) = g.assetsOf ids := by
    rw [assetsOfValues, Json.items, Fault.ok_bind, List.mapM_map]
    rfl
  rw [hvalues, h.exists_assetsOf_iff]

end Shaped

/-! ### Graphs of layouts -/

namespace Realizes

open Asset Layout

variable {g : Graph} {stem : String} {field : Option String} {fields : Fields}

/-- The graph of a tree of mappings with textual discriminants has attributes of the usual
kinds. -/
theorem shaped (h : g.Realizes (placeRoot stem field fields))
    (hmapping : Everywhere (fun _ => Json.Mapping) field fields)
    (htypes : Everywhere (fun _ t => Json.field t typeKey = .null
      ∨ ∃ type, Json.field t typeKey = .str type) field fields) :
  g.Shaped
  where
  toTextual := h.textual hmapping
  types n hn := by
    obtain ⟨parent, t, hreach, hdepicts⟩ := h.exists_depicts hn
    have htype : n.assetType = Json.field t typeKey := by
      rw [← assetType_classify t parent]
      exact congrArg Node.assetType hdepicts.content
    rw [htype]
    apply htypes parent t hreach
  fields n hn := by
    obtain ⟨parent, t, -, hdepicts⟩ := h.exists_depicts hn
    exact ⟨_, congrArg Node.fields hdepicts.content⟩
  records n hn := by
    obtain ⟨parent, t, -, hdepicts⟩ := h.exists_depicts hn
    right
    exact ⟨_, congrArg Node.arrayFields hdepicts.content⟩

/-- The graph of a tree has the assets of its disconnected trees beside the one of the root. -/
theorem starts_root (h : g.Realizes (placeRoot stem field fields)) :
  (g.starts (nodeId stem 1)).tail = [] ↔ loose fields = []
  := by
  have hlength := length_terminals_placeParts stem (parts fields)
    (.ofAsset stem 0 .start field fields) (m := 1) 0 rfl (Nat.le_refl _)
  rw [starts, List.tail_cons, h.feedsEdge_root, h.terminalIds_without_root, loose_eq,
    ← List.length_eq_zero_iff, ← List.length_eq_zero_iff (l := List.flatMap _ _), ← hlength]
  simp

/-- The node of a tree chokes exactly if the tree has of its own a value under the key of
disconnected trees that cannot be counted, no child that is put there, and no disconnected
trees. -/
theorem not_chokes_root_iff (h : g.Realizes (placeRoot stem field fields)) {n : Node}
    (hn : n ∈ g.nodes) (hid : n.id = nodeId stem 1) :
  ¬ g.Chokes n ↔ loose fields ≠ []
    ∨ (∃ c ∈ children fields, ∃ index,
      (content field fields).slot (portOf field fields c) = .ok (disconnectedKey, index))
    ∨ ∀ v, Entries.find? (plain fields) (.text disconnectedKey) = some v → countable v = true
  := by
  have hdepicts := h.depicts_root hn hid
  have hports := hdepicts.forall_ports_iff (P := fun port =>
    ∀ index, n.slot port ≠ .ok (disconnectedKey, index))
  have hfields : n.fields = .obj (plain fields) := congrArg Node.fields hdepicts.content
  have hsource : ∀ e ∈ g.edges, e.source ∈ g.nodes.map Node.id ∧ e.source ≠ n.id := by
    intro e he
    use (h.endsIn he).1
    intro hroot
    have hfeeds := h.feedsEdge_root
    rw [feedsEdge, List.any_eq_false] at hfeeds
    apply hfeeds e he
    rw [hroot, hid, decide_eq_true rfl]
  rw [not_chokes_iff, ne_eq, ne_eq, hid, h.starts_root, ← hid]
  apply or_congr_right
  apply or_congr
  · rw [← not_iff_not]
    constructor
    · intro hnone hchild
      obtain ⟨c, hc, index, hslot⟩ := hchild
      have hstays := hports.mp (by
        intro e he index hslot
        apply hnone
        obtain ⟨hnode, hne⟩ := hsource e (List.mem_of_mem_filter he)
        exact ⟨e, he, hnode, hne, index, hslot⟩)
      apply hstays c hc index
      rw [hdepicts.slot_eq]
      apply hslot
    · rintro hnone ⟨e, he, -, -, index, hslot⟩
      have hstays := hports.mpr (by
        intro c hc index hslot
        apply hnone
        rw [hdepicts.slot_eq] at hslot
        exact ⟨c, hc, index, hslot⟩)
      apply hstays e he index hslot
  · constructor
    · intro hall v
      apply hall (plain fields) v hfields
    · intro hall own v hown
      rw [hfields] at hown
      obtain rfl := Json.obj.inj hown
      apply hall v

end Realizes

/-- When the assets of a graph are put together: the asset of the whole graph exactly if its root
does not choke and the ports that the assembly reads can be read, and the assets of some ids, of
the roots and of sections exactly if these ports can be read. -/
structure Assembles (g : Graph) : Prop where
  whole : ∀ root, (∃ found, g.toAsset root = .ok found)
    ↔ ∀ primary n, g.primaryRoot root = some primary →
      Entries.find? g.nodeMap primary.id = some n →
        (∀ id ∈ g.starts primary.id, g.Legible id) ∧ ¬ g.Chokes n
  found : ∀ root found, g.toAsset root = .ok found →
    (found.isSome = true ↔ (g.primaryRoot root).isSome = true)
  ids : ∀ ids : List String, (∃ found, g.assetsOfValues (.arr (ids.map Json.str)) = .ok found)
    ↔ ∀ id ∈ ids, g.Legible id
  roots : (∃ found, g.rootAssets = .ok found) ↔ ∀ n ∈ g.roots, g.Legible n.id
  sections : ∀ names : List String, ∃ tagged,
    g.taggedRoots (.arr (names.map Json.str)) = .ok tagged
      ∧ ((∃ found, g.toSections (.arr (names.map Json.str)) = .ok found)
        ↔ if tagged = [] then ∀ n ∈ g.roots, g.Legible n.id
          else ∀ name ∈ names, ∀ root, Entries.find? tagged (.text name) = some root →
            (g.subgraph (g.ancestorIds root.id)).Legible root.id)

theorem Shaped.assembles {g : Graph} (h : g.Shaped) : g.Assembles
  where
  whole root := (h.exists_toAsset_root_iff root).1
  found root := (h.exists_toAsset_root_iff root).2
  ids := h.exists_assetsOfValues_iff
  roots := by
    rw [rootAssets, h.exists_assetsOf_iff, List.forall_mem_map]
  sections names := by
    obtain ⟨tagged, htagged⟩ := g.exists_taggedRoots names
    use tagged, htagged
    apply h.exists_toSections_iff htagged

/-- Graphs with attributes of the usual kinds assemble.  The asset of the layout of a tree is put
together exactly if the ports that the assembly reads can be read and the tree has disconnected
trees, or a child that is put under their key, or nothing of its own there that cannot be
counted. -/
theorem assembly_succeeds_iff (g : Graph) (fields : Fields) (stem : Json) (start : Float × Float)
    (field : Option String) (policy : LayoutPolicy) :
  (g.Shaped → g.Assembles)
    ∧ ∀ l, Asset.Everywhere (fun _ => Json.Mapping) field fields →
      Asset.Everywhere (fun _ t => Json.field t Asset.typeKey = .null
        ∨ ∃ type, Json.field t Asset.typeKey = .str type) field fields →
      Layout.ofAsset (.obj fields) stem start (Json.ofOption field) policy = .ok l →
        ((∃ v, l.toGraph.toAsset .null = .ok (some v))
          ↔ (∀ id ∈ l.toGraph.starts l.rootId, l.toGraph.Legible id)
            ∧ (Asset.loose fields ≠ []
              ∨ (∃ c ∈ Asset.children fields, ∃ index, (Asset.content field fields).slot
                (Asset.portOf field fields c) = .ok (Asset.disconnectedKey, index))
              ∨ ∀ v, Entries.find? (Asset.plain fields) (.text Asset.disconnectedKey) = some v →
                countable v = true))
  := by
  constructor
  · apply Shaped.assembles
  · intro l hmapping htypes hl
    have hg := Layout.realizes_of_ofAsset hl
    have hassembles := (hg.shaped hmapping htypes).assembles
    obtain ⟨primary, hprimary, hid⟩ := hg.exists_primaryRoot
    have hmem := mem_of_primaryRoot hprimary
    have hfind := l.toGraph.find?_nodeMap hg.nodup_ids hmem
    rw [(Layout.ofAsset_eq_ok hl).1, ← hid, ← hg.not_chokes_root_iff hmem hid]
    constructor
    · rintro ⟨v, hv⟩
      apply (hassembles.whole .null).mp ⟨_, hv⟩ primary primary hprimary hfind
    · intro hstarts
      obtain ⟨found, hfound⟩ := (hassembles.whole .null).mpr (by
        intro primary' n' hprimary' hfind'
        rw [hprimary] at hprimary'
        obtain rfl := Option.some.inj hprimary'
        rw [hfind] at hfind'
        obtain rfl := Option.some.inj hfind'
        exact hstarts)
      obtain ⟨v, rfl⟩ := Option.isSome_iff_exists.mp
        ((hassembles.found .null found hfound).mpr (by rw [hprimary]; rfl))
      exact ⟨v, hfound⟩

/-- A constant with a number under the key of disconnected trees. -/
def numberedTrees : Fields := [("Type", .str "Constant"), ("$DisconnectedTrees", .int 5)]

/-- The constant is laid out, but its asset is not put together again. -/
theorem assembly_fails_numberedTrees :
  ∃ l, Layout.ofAsset (.obj numberedTrees) .null (0.0, 0.0) .null {} = .ok l
    ∧ ¬ ∃ v, l.toGraph.toAsset .null = .ok (some v)
  := by
  have hparts : Asset.parts numberedTrees
      = [.plain "Type" (.str "Constant"), .plain "$DisconnectedTrees" (.int 5)] := rfl
  have hleaf : ∀ {P : Option String → Fields → Prop}, P none numberedTrees →
      Asset.Everywhere P none numberedTrees := by
    intro P here
    apply Asset.Everywhere.leaf here
    simp [hparts, Asset.Part.asset?]
  have hfits : Asset.Everywhere (fun _ => Asset.Fits) none numberedTrees := by
    apply hleaf
    constructor
    · rfl
    · decide
    · decide
    · simp [hparts]
  obtain ⟨l, hl⟩ := (Layout.exists_ofAsset_iff_of_fits .null (0.0, 0.0) LayoutPolicy.spaced_standard
    hfits).mpr ⟨rfl, rfl⟩
  use l, hl
  have hmapping : Json.Mapping numberedTrees := by
    constructor
    · simp [numberedTrees]
    · unfold Entries.Distinct
      decide
  rw [(assembly_succeeds_iff l.toGraph numberedTrees .null (0.0, 0.0) none {}).2 l (hleaf hmapping)
    (hleaf (.inr ⟨"Constant", rfl⟩)) hl]
  rintro ⟨-, hloose | ⟨c, hc, -⟩ | hcountable⟩
  · apply hloose
    rw [Asset.loose_eq, hparts]
    rfl
  · rw [Asset.children, hparts] at hc
    cases hc
  · have hfive := hcountable (.int 5) rfl
    cases hfive

end Graph

end AssetCanvas
