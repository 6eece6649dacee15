import AssetCanvas.Proofs.Pruning
import AssetCanvas.Proofs.Sections

/-!
# Taking a canvas apart

The sections of a canvas are put together again from what lies above their roots.  A tree that
comes back from its own layout comes back from the canvas without its list of disconnected trees,
`Asset.severed`, since no edge leads from these to the root.  `Canvas.sections_come_back_iff`
says so of every canvas, and that nothing else is lost or moved.
-/

namespace AssetCanvas

open Layout Asset Json

/-! ### The part above a root -/

namespace Graph

/-- What lies above the root of a part of a canvas is put together as in the part alone. -/
theorem Separate.assetOf_ancestors {g : Graph} {parts : List Graph} (h : Separate parts)
    (hnodes : g.nodes = parts.flatMap Graph.nodes) (hedges : g.edges = parts.flatMap Graph.edges)
    {part : Graph} (hpart : part ∈ parts) {root : String} (hroot : root ∈ part.nodes.map Node.id) :
  (g.subgraph (g.ancestorIds root)).assetOf root = part.assetOf root
  := by
  have habove {id : String} :
      id ∈ g.ancestorIds root ↔ Relation.ReflTransGen part.Feeds id root := by
    rw [mem_ancestorIds_iff, h.leads_iff hedges hpart hroot]
  have hnodup : ((g.subgraph (g.ancestorIds root)).nodes.map Node.id).Nodup :=
    (h.nodup_ids hnodes).sublist (List.filter_sublist.map _)
  rw [assetOf_eq, assetOf_eq]
  congr 1
  apply Eq.symm
  apply unfold_eq_of_sameAt
  intro id hid
  obtain ⟨n, hn, rfl⟩ : ∃ n ∈ part.nodes, n.id = id := by
    apply List.mem_map.mp
    rcases Relation.ReflTransGen.cases_head hid with rfl | ⟨-, ⟨e, he, rfl, -⟩, -⟩
    · exact hroot
    · exact (h.ends part hpart e he).1
  have hfind := part.find?_nodeMap (h.nodup part hpart) hn
  have hfind' : Entries.find? (g.subgraph (g.ancestorIds root)).nodeMap n.id = some n := by
    apply find?_nodeMap _ hnodup
    rw [subgraph, List.mem_filter, hnodes]
    exact ⟨List.mem_flatMap.mpr ⟨part, hpart, hn⟩, by simpa using habove.mpr hid⟩
  refine ⟨?_, ?_, ?_⟩
  · exact iff_of_true (Entries.mem_keys_of_find? hfind) (Entries.mem_keys_of_find? hfind')
  · rw [hfind, hfind']
  · rw [← h.inboundEdges_eq hedges hpart (List.mem_map_of_mem hn)]
    congr 1
    -- the edges into an id above the root come from ids above the root
    rw [inboundEdges, inboundEdges, subgraph, List.filter_filter]
    apply List.filter_congr
    intro e he
    by_cases htarget : e.target = n.id
    · have hsource : Relation.ReflTransGen part.Feeds e.source root := by
        rw [← h.leads_iff hedges hpart hroot]
        apply Relation.ReflTransGen.head ⟨e, he, rfl, htarget⟩
        rwa [h.leads_iff hedges hpart hroot]
      simp [htarget, habove.mpr hsource, habove.mpr hid]
    · simp [htarget]

end Graph

/-! ### Lists of disconnected trees -/

namespace Asset

/-- Whether an asset has a list of disconnected trees. -/
def Laden (fields : Fields) : Prop :=
  ∃ trees, Entries.find? fields (.text disconnectedKey) = some (.arr trees)

/-- The fields of an asset without its list of disconnected trees. -/
def severed (fields : Fields) : Fields :=
  match Entries.find? fields (.text disconnectedKey) with
  | some (.arr _) => Entries.erase fields (.text disconnectedKey)
  | _ => fields

variable {parent : Option String} {fields : Fields}

theorem severed_of_laden (h : Laden fields) :
  severed fields = Entries.erase fields (.text disconnectedKey)
  := by
  obtain ⟨trees, htrees⟩ := h
  rw [severed, htrees]

theorem severed_of_not_laden (h : ¬ Laden fields) : severed fields = fields
  := by
  unfold severed
  split
  · rename_i trees htrees
    exact (h ⟨trees, htrees⟩).elim
  · rfl

theorem mapping_severed (h : Mapping fields) : Mapping (severed fields)
  := by
  unfold severed
  split
  · exact h.sublist List.filter_sublist
  · exact h

theorem find?_severed {s : String} (h : s = disconnectedKey → ¬ Laden fields) :
  Entries.find? (severed fields) (.text s) = Entries.find? fields (.text s)
  := by
  by_cases hladen : Laden fields
  · have hne : disconnectedKey ≠ s := fun heq => h heq.symm hladen
    rw [severed_of_laden hladen, Entries.find?_erase]
    simp [hne]
  · rw [severed_of_not_laden hladen]

theorem find?_severed_disconnectedKey (h : Laden fields) :
  Entries.find? (severed fields) (.text disconnectedKey) = none
  := by
  rw [severed_of_laden h, Entries.find?_erase]
  simp

/-- Nothing is put together under the key of a list of disconnected trees. -/
theorem find?_composed_disconnectedKey (h : Mapping fields) (hladen : Laden fields)
    (value : Child → Json) :
  Entries.find? (composed fields (writes value fields)) (.text disconnectedKey) = none
  := by
  obtain ⟨trees, htrees⟩ := hladen
  have hnone : ∀ w ∈ writes value fields, w.1.1 ≠ disconnectedKey := by
    rw [writes, List.forall_mem_map]
    intro c hc hname
    replace hname : c.name = disconnectedKey := hname
    obtain ⟨-, v, hv, ⟨-, rfl, -⟩ | ⟨i, ts, -, hdisc, -⟩⟩ := exists_value h hc
    · rw [hname, htrees] at hv
      cases hv
    · exact hdisc hname
  have hparts : valueParts (.text disconnectedKey) (.arr trees) = treeParts 0 trees := by
    simp [valueParts]
  rw [find?_composed_of_forall hnone, find?_own _ (by decide), find?_plain h, htrees,
    Option.bind_some, hparts, filterMap_plain?_treeParts]
  rfl

/-- A tree that comes back from its layout is put together from its outline as it was, without its
list of disconnected trees. -/
theorem reordered_severed {stem : String} {g : Graph}
    (hg : g.Realizes (placeRoot stem parent fields)) (h : Mapping fields) {v : Json}
    (hasset : g.toAsset .null = .ok (some v)) (hv : v.Reordered (.obj fields)) :
  ∃ w, (outline parent fields).toAsset = .ok (some w) ∧ w.Reordered (.obj (severed fields))
  := by
  have hreturns := Returns.of_toAsset hg h hasset hv
  obtain ⟨htoAsset, -⟩ := hreturns.toAsset_eq h
  refine ⟨_, htoAsset, ?_⟩
  apply (Mapping.reordered_iff (mapping_composed h _) (mapping_severed h)).mpr
  intro s
  by_cases hlist : s = disconnectedKey ∧ Laden fields
  · obtain ⟨rfl, hladen⟩ := hlist
    rw [find?_composed_disconnectedKey h hladen, find?_severed_disconnectedKey hladen]
    exact .none
  · rw [find?_severed fun heq hladen => hlist ⟨heq, hladen⟩]
    cases hfind : Entries.find? fields (.text s) with
    | some u =>
      obtain ⟨fields', hasset', hagain⟩ := hreturns.again
      obtain rfl := Json.obj.inj (Option.some.inj (Except.ok.inj (hasset'.symm.trans htoAsset)))
      obtain ⟨w, hw, hreordered⟩ := hagain s u hfind (by
        rintro rfl items rfl
        exact hlist ⟨rfl, items, hfind⟩)
      rw [hw]
      exact .some hreordered
    | none =>
      -- what is put together of the whole graph has nothing there either
      rw [hg.toAsset_eq, htoAsset, Fault.ok_bind] at hasset
      obtain ⟨trees, -, hasset⟩ := Fault.bind_eq_ok_iff.mp hasset
      obtain ⟨v', hcounted, hasset⟩ := Fault.bind_eq_ok_iff.mp hasset
      obtain rfl : v' = v := Option.some.inj (Except.ok.inj hasset)
      obtain ⟨fields', rfl, hsame⟩ := Graph.find?_of_counted hcounted
      have hnone : Entries.find? fields' (.text s) = none := by
        have hrel := h.find?_reordered hv.symm s
        rw [hfind] at hrel
        generalize Entries.find? fields' (.text s) = found at hrel
        cases hrel
        rfl
      rw [← hsame s, hnone]
      · exact .none
      · rintro rfl items
        rw [hnone]
        simp

end Asset

/-! ### Tags -/

namespace Canvas

/-- The names of the sections of a canvas, as values. -/
def names (sections : Fields) : List Json := sections.map fun s => s.1.toJson

variable {sections : Fields} {parts : List Graph} {others : List Json}

/-- A node without a tag belongs to none of some sections. -/
theorem addTagged_null (hothers : ∀ v ∈ others, ∃ name, v = .str name) {n : Node}
    (hn : n.sectionTag = .null) (tagged : List (Key × Node)) :
  Graph.addTagged (.arr others) tagged n = .ok tagged
  := by
  have hnone : others.any (fun v => agrees true v .null) = false := by
    rw [List.any_eq_false]
    intro v hv
    obtain ⟨name, rfl⟩ := hothers v hv
    simp [agrees, sameAtom, number?]
  simp [Graph.addTagged, Json.contains, hn, hnone]

/-- A node with the name of a section belongs to the section. -/
theorem addTagged_name {name : String} (hname : .str name ∈ others) {n : Node}
    (hn : n.sectionTag = .str name) (tagged : List (Key × Node)) :
  Graph.addTagged (.arr others) tagged n = .ok (Entries.insert tagged (.text name) n)
  := by
  have hsome : others.any (fun v => agrees true v (.str name)) = true := by
    rw [List.any_eq_true]
    use .str name, hname
    simp [agrees, sameAtom]
  simp [Graph.addTagged, Json.contains, hn, hsome, Json.key, Json.key?]

/-- Of the nodes of a section, the root is tagged. -/
theorem exists_root_of_holds {s : Key × Json} {part : Graph} {name : String} {fields : Fields}
    (h : Holds s part name fields) (hothers : ∀ v ∈ others, ∃ name, v = .str name)
    (hname : .str name ∈ others) (tagged : List (Key × Node)) :
  ∃ root, root.id = nodeId name 1 ∧ part.nodes.foldlM (Graph.addTagged (.arr others)) tagged
    = .ok (Entries.insert tagged s.1 root)
  := by
  obtain ⟨root, rest, hnodes, hid, htag, hrest⟩ := h.tags
  use root, hid
  have hskip (l : List Node) (hl : ∀ n ∈ l, n.sectionTag = .null) (m : List (Key × Node)) :
      l.foldlM (Graph.addTagged (.arr others)) m = .ok m := by
    induction l with
    | nil => rfl
    | cons n l ih =>
      rw [List.forall_mem_cons] at hl
      rw [List.foldlM_cons, addTagged_null hothers hl.1, Fault.ok_bind, ih hl.2]
  rw [hnodes, List.foldlM_cons, addTagged_name hname htag, Fault.ok_bind, hskip rest hrest,
    h.section_eq]

/-- The tagged nodes of a canvas are the roots of the sections, in order. -/
theorem exists_roots (h : List.Forall₂ (fun s part => ∃ name fields, Holds s part name fields)
      sections parts) (hothers : ∀ v ∈ others, ∃ name, v = .str name)
    (hnames : names sections ⊆ others) (tagged : List (Key × Node)) :
  ∃ roots : List (Key × Node),
    List.Forall₂ (fun s root => s.1 = root.1 ∧ ∃ name fields, ∃ part ∈ parts,
        Holds s part name fields ∧ root.2.id = nodeId name 1) sections roots
      ∧ (parts.flatMap Graph.nodes).foldlM (Graph.addTagged (.arr others)) tagged
        = .ok (roots.foldl (fun m root => Entries.insert m root.1 root.2) tagged)
  := by
  induction h generalizing tagged with
  | nil => exact ⟨[], .nil, rfl⟩
  | @cons s part sections parts hpart _ ih =>
    obtain ⟨name, fields, hholds⟩ := hpart
    obtain ⟨hname, hnames⟩ := List.cons_subset.mp hnames
    have hname' : .str name ∈ others := by
      rw [hholds.section_eq] at hname
      exact hname
    obtain ⟨root, hid, hroot⟩ := exists_root_of_holds hholds hothers hname' tagged
    obtain ⟨roots, hroots, hfold⟩ := ih hnames (Entries.insert tagged s.1 root)
    refine ⟨(s.1, root) :: roots, .cons ?_ (hroots.imp ?_), ?_⟩
    · exact ⟨rfl, name, fields, part, by simp, hholds, hid⟩
    · rintro s' root' ⟨hkey, name', fields', part', hmem, hrest⟩
      exact ⟨hkey, name', fields', part', List.mem_cons_of_mem _ hmem, hrest⟩
    · rw [List.flatMap_cons, List.foldlM_append, hroot, Fault.ok_bind, hfold]
      rfl

/-! ### Assets of sections -/

/-- The sections whose roots have assets are gathered under their names. -/
theorem exists_found {g : Graph} {tagged : List (Key × Node)} {R : Key × Json → Json → Prop}
    (htextual : ∀ s ∈ sections, ∃ name, s.1 = .text name)
    (h : ∀ s ∈ sections, ∃ root w, Entries.find? tagged s.1 = some root
      ∧ g.sectionAsset root = .ok (some w) ∧ R s w) (found : Fields) :
  ∃ assets : Fields, List.Forall₂ (fun s entry => s.1 = entry.1 ∧ R s entry.2) sections assets
    ∧ (names sections).foldlM (g.addSection tagged) found
      = .ok (assets.foldl (fun m entry => Entries.insert m entry.1 entry.2) found)
  := by
  induction sections generalizing found with
  | nil => exact ⟨[], .nil, rfl⟩
  | cons s rest ih =>
    rw [List.forall_mem_cons] at htextual h
    obtain ⟨⟨name, hname⟩, htextual⟩ := htextual
    obtain ⟨⟨root, w, hroot, hasset, hR⟩, h⟩ := h
    obtain ⟨assets, hassets, hfold⟩ := ih htextual h (Entries.insert found s.1 w)
    refine ⟨(s.1, w) :: assets, .cons ⟨rfl, hR⟩ hassets, ?_⟩
    have hstep : g.addSection tagged found s.1.toJson = .ok (Entries.insert found s.1 w) := by
      rw [hname] at hroot ⊢
      simp [Graph.addSection, Key.toJson, Json.key, Json.key?, hroot, hasset]
    rw [names, List.map_cons, List.foldlM_cons, hstep, Fault.ok_bind]
    exact hfold

theorem textual_names (hs : Mapping sections) : ∀ v ∈ names sections, ∃ name, v = .str name
  := by
  rw [names, List.forall_mem_map]
  intro s hmem
  obtain ⟨name, hname⟩ := hs.textual s hmem
  exact ⟨name, by rw [hname]; rfl⟩

theorem keys_eq_of_forall₂ {ν : Type} {P : Key × Json → Key × ν → Prop} {entries : List (Key × ν)}
    (h : List.Forall₂ (fun s entry => s.1 = entry.1 ∧ P s entry) sections entries) :
  Entries.keys entries = Entries.keys sections
  := by
  apply Eq.symm
  apply Fault.map_eq_map_of_forall₂
  exact h.imp fun s entry hentry => hentry.1

/-- The sections of a canvas are put together as their trees are from their outlines. -/
theorem exists_toSections {policy : LayoutPolicy} {origin : Float × Float} {index : Nat} {g : Graph}
    (hs : Mapping sections) (hassets : ∀ s ∈ sections, s.2.isAsset = true)
    (hg : ofSectionsFrom policy origin index sections = .ok g)
    (houtline : ∀ name fields, (Key.text name, Json.obj fields) ∈ sections →
      ∃ w, (outline (some name) fields).toAsset = .ok (some w)) :
  ∃ found, g.toSections (.arr (names sections)) = .ok ⟨found, 0⟩
    ∧ List.Forall₂ (fun s entry => s.1 = entry.1 ∧ ∃ name fields, s = (.text name, .obj fields)
        ∧ (outline (some name) fields).toAsset = .ok (some entry.2)) sections found
  := by
  obtain ⟨parts, hnodes, hedges, hparts⟩ := exists_parts_of_ofSectionsFrom hg
  have hholds := exists_holds hs hparts
  have hseparate := separate_of_holds hs hholds
  rw [assets, List.filter_eq_self.mpr hassets] at hholds
  obtain ⟨roots, hroots, htagged⟩ := exists_roots hholds (textual_names hs) (List.Subset.refl _) []
  have hdistinct : Entries.Distinct roots := by
    rw [Entries.Distinct, keys_eq_of_forall₂ hroots]
    exact hs.distinct
  have htagged' : g.taggedRoots (.arr (names sections)) = .ok roots := by
    rw [Graph.taggedRoots, hnodes, htagged]
    exact congrArg Except.ok hdistinct.ofList_eq
  have hsections : ∀ s ∈ sections, ∃ root w, Entries.find? roots s.1 = some root
      ∧ g.sectionAsset root = .ok (some w) ∧ ∃ name fields, s = (.text name, .obj fields)
        ∧ (outline (some name) fields).toAsset = .ok (some w) := by
    intro s hmem
    obtain ⟨root, hroot, hkey, name, fields, part, hpart, hholds, hid⟩ :=
      Fault.exists_of_mem_right hroots.flip hmem
    have hsection := hholds.section_eq
    obtain ⟨w, hw⟩ := houtline name fields (hsection ▸ hmem)
    refine ⟨root.2, w, ?_, ?_, name, fields, hsection, hw⟩
    · rw [hkey]
      exact hdistinct.find?_of_mem hroot
    · have hin : nodeId name 1 ∈ part.nodes.map Node.id := by
        obtain ⟨first, rest, hfirst, hid, -⟩ := hholds.tags
        simp [hfirst, hid]
      rw [Graph.sectionAsset, hid, hseparate.assetOf_ancestors hnodes hedges hpart hin,
        hholds.realizes.assetOf_root, hw]
  obtain ⟨found, hfound, hfold⟩ := exists_found hs.textual hsections []
  have hmapping : Entries.Distinct found := by
    rw [Entries.Distinct, keys_eq_of_forall₂ hfound]
    exact hs.distinct
  use found
  refine ⟨?_, hfound⟩
  rw [Graph.toSections, htagged', Fault.ok_bind]
  cases hroots with
  | nil =>
    cases hfound
    cases hparts
    simp [Graph.untaggedSections, Graph.rootAssets, Graph.roots, Graph.terminalNodes, hnodes,
      Graph.assetsOf, names, Json.items]
  | cons =>
    rw [if_neg (by simp), Json.items, Fault.ok_bind, hfold]
    exact congrArg (fun m => Except.ok (Graph.SectionAssets.mk m 0)) hmapping.ofList_eq

/-! ### What comes back -/

/-- A section whose tree comes back from its own layout. -/
structure ComesBack (s : Key × Json) : Prop where
  tree : ∃ fields, s.2 = .obj fields ∧ Mapping fields
  again : ∃ g v, Graph.ofAsset s.2 s.1.toJson s.1.toJson = .ok g
    ∧ g.toAsset .null = .ok (some v) ∧ v.Reordered s.2

/-- A tree that comes back has a layout wherever it starts, is an asset, and is put together from
its outline without its list of disconnected trees. -/
theorem ComesBack.outline {name : String} {fields : Fields}
    (h : ComesBack (.text name, .obj fields)) :
  (∀ start, ∃ l, Layout.ofAsset (.obj fields) (.str name) start (.str name) {} = .ok l)
    ∧ (Json.obj fields).isAsset = true
    ∧ ∃ w, (outline (some name) fields).toAsset = .ok (some w)
      ∧ w.Reordered (.obj (severed fields))
  := by
  obtain ⟨fields', heq, hmapping⟩ := h.tree
  obtain rfl := Json.obj.inj heq
  obtain ⟨g, v, hg, hv, hreordered⟩ := h.again
  obtain ⟨l, hl, hg⟩ := Fault.bind_eq_ok_iff.mp hg
  obtain rfl := Except.ok.inj hg
  replace hl : Layout.ofAsset (.obj fields) (.str name) (0.0, 0.0) (Json.ofOption (some name)) {}
      = .ok l := hl
  have hrealizes := realizes_of_ofAsset hl
  refine ⟨?_, ?_, reordered_severed hrealizes hmapping hv hreordered⟩
  · intro start
    have hroom := (exists_ofAsset_iff (.str name) (0.0, 0.0) {}).mp ⟨l, hl⟩
    exact (exists_ofAsset_iff (.str name) start {}).mpr hroom
  · exact (Returns.of_toAsset hrealizes hmapping hv hreordered).typed

section Severed

variable {sections found : Fields}
  (h : List.Forall₂ (fun s entry => s.1 = entry.1 ∧ ∃ fields, s.2 = .obj fields
    ∧ entry.2.Reordered (.obj (severed fields))) sections found)

include h

theorem mapping_of_severed (hs : Mapping sections) : Mapping found
  := by
  constructor
  · intro entry hentry
    obtain ⟨s, hmem, hkey, -⟩ := Fault.exists_of_mem_right h hentry
    rw [← hkey]
    exact hs.textual s hmem
  · rw [Entries.Distinct, keys_eq_of_forall₂ h]
    exact hs.distinct

/-- Sections without their lists of disconnected trees are the sections as they were exactly if
there are no such lists. -/
theorem reordered_severed_iff (hs : Mapping sections) :
  (Json.obj found).Reordered (.obj sections)
    ↔ ∀ s ∈ sections, ∀ fields, s.2 = .obj fields → ¬ Laden fields
  := by
  have hmapping := mapping_of_severed h hs
  constructor
  · rintro hreordered ⟨key, asset⟩ hmem fields hfields hladen
    obtain rfl : asset = .obj fields := hfields
    obtain ⟨name, hname⟩ := hs.textual _ hmem
    obtain rfl : key = .text name := hname
    obtain ⟨⟨key, w⟩, hentry, hkey, fields', heq, hw⟩ := Fault.exists_of_mem_right h.flip hmem
    obtain rfl : Key.text name = key := hkey
    obtain rfl := Json.obj.inj heq
    -- under the name stands the tree with its list and the tree without it
    obtain ⟨u, hu, hwu⟩ := hmapping.exists_of_reordered hreordered
      (hmapping.distinct.find?_of_mem hentry)
    obtain rfl := Option.some.inj ((hs.distinct.find?_of_mem hmem).symm.trans hu)
    have hcontains := (hw.symm.trans hwu).contains_eq (.text disconnectedKey)
    obtain ⟨trees, htrees⟩ := hladen
    rw [Entries.contains, find?_severed_disconnectedKey ⟨trees, htrees⟩, Entries.contains,
      htrees] at hcontains
    cases hcontains
  · intro hnone
    apply Reordered.symm
    apply Reordered.obj
    apply ((List.forall₂_and_left _ _).mpr ⟨hnone, h⟩).imp
    rintro s entry ⟨hs, hkey, fields, hfields, hw⟩
    rw [severed_of_not_laden (hs fields hfields)] at hw
    use hkey
    rw [hfields]
    exact hw.symm

end Severed

/-- Sections whose trees come back from their own layouts come back from their canvas under their
names, each without its list of disconnected trees; so the sections come back as they were exactly
if none of them has such a list. -/
theorem sections_come_back_iff (sections : Fields) (hs : Mapping sections)
    (h : ∀ s ∈ sections, ComesBack s) (hsize : sections.length ≤ capacity)
    (origin : Float × Float) :
  ∃ g found, ofSections (.obj sections) origin {} = .ok g
    ∧ g.toSections (.arr (names sections)) = .ok ⟨found, 0⟩
    ∧ List.Forall₂ (fun s entry => s.1 = entry.1 ∧ ∃ fields, s.2 = .obj fields
        ∧ entry.2.Reordered (.obj (severed fields))) sections found
    ∧ ((Json.obj found).Reordered (.obj sections)
      ↔ ∀ s ∈ sections, ∀ fields, s.2 = .obj fields → ¬ Laden fields)
  := by
  have hcome : ∀ name fields, (Key.text name, Json.obj fields) ∈ sections →
      ComesBack (.text name, .obj fields) := fun name fields hmem => h _ hmem
  have hexists : ∃ g, ofSectionsFrom {} origin 0 sections = .ok g := by
    have hspacing : ∃ a, (LayoutPolicy.sectionSpacing {}).number = .ok a ∧ a.Moderate :=
      ⟨_, rfl, trivial⟩
    apply exists_ofSectionsFrom hspacing hs.textual
    · intro name fields hmem
      exact (hcome name fields (List.mem_of_mem_filter hmem)).outline.1
    · rwa [Nat.zero_add]
  obtain ⟨g, hg⟩ := hexists
  have hassets : ∀ s ∈ sections, s.2.isAsset = true := by
    rintro ⟨key, asset⟩ hmem
    obtain ⟨name, hname⟩ := hs.textual _ hmem
    obtain rfl : key = .text name := hname
    obtain ⟨fields, hfields, -⟩ := (h _ hmem).tree
    obtain rfl : asset = .obj fields := hfields
    exact (hcome name fields hmem).outline.2.1
  obtain ⟨found, htoSections, hfound⟩ := exists_toSections hs hassets hg fun name fields hmem => by
    obtain ⟨w, hw, -⟩ := (hcome name fields hmem).outline.2.2
    exact ⟨w, hw⟩
  have hsevered : List.Forall₂ (fun s entry => s.1 = entry.1 ∧ ∃ fields, s.2 = .obj fields
      ∧ entry.2.Reordered (.obj (severed fields))) sections found := by
    apply (Fault.forall₂_mem hfound).imp
    rintro s entry ⟨hmem, -, hkey, name, fields, rfl, houtline⟩
    obtain ⟨w, hw, hreordered⟩ := (hcome name fields hmem).outline.2.2
    obtain rfl := Option.some.inj (Except.ok.inj (hw.symm.trans houtline))
    exact ⟨hkey, fields, rfl, hreordered⟩
  exact ⟨g, found, hg, htoSections, hsevered, reordered_severed_iff hsevered hs⟩

/-- An asset with a disconnected tree. -/
def beside : Fields := [("Type", .str "Zero"), ("$DisconnectedTrees", .arr [.obj (bare "One")])]

theorem canonical_beside (parent : Option String) : Canonical parent beside
  := by
  have hparts : parts beside = [.plain "Type" (.str "Zero"), .tree 0 (bare "One")] := rfl
  have hchildren : children beside = [] := rfl
  have hbare : ∀ part ∈ parts beside, ∀ t, part.asset? = some t → ∃ type, t = bare type := by
    rw [hparts]
    simp [Part.asset?]
  have hreadable : Readable parent beside := by
    constructor
    · constructor
      · simp [beside]
      · unfold Entries.Distinct
        decide
    · use "Zero"
      rfl
    all_goals try simp [hchildren]
    rw [hparts]
    decide
  constructor
  · apply everywhere_over_bare hreadable hbare readable_bare
  · intro part hmem t ht
    obtain ⟨type, rfl⟩ := hbare part hmem t ht
    apply everywhere_bare
    rfl
  · intro v hv
    obtain rfl : Json.arr [.obj (bare "One")] = v := Option.some.inj hv
    exact ⟨_, rfl, by decide, by decide⟩

/-- A section with a disconnected tree. -/
def besideAlone : Fields := [("A", .obj beside)]

/-- The section comes back from its own layout, and not from its canvas. -/
theorem not_sections_come_back_beside :
  (∀ s ∈ besideAlone, ComesBack s) ∧ ∃ g found,
    ofSections (.obj besideAlone) (0.0, 0.0) {} = .ok g
      ∧ g.toSections (.arr (names besideAlone)) = .ok ⟨found, 0⟩
      ∧ ¬ (Json.obj found).Reordered (.obj besideAlone)
  := by
  have hcanonical := canonical_beside (some "A")
  have hcome : ∀ s ∈ besideAlone, ComesBack s := by
    intro s hmem
    obtain rfl := List.mem_singleton.mp hmem
    constructor
    · exact ⟨beside, rfl, hcanonical.readable.here.mapping⟩
    · have hlayout : ∃ l, Layout.ofAsset (.obj beside) (.str "A") (0.0, 0.0)
          (Json.ofOption (some "A")) {} = .ok l := by
        apply exists_ofAsset (0.0, 0.0) LayoutPolicy.spaced_standard rfl
        intro parent t hreach
        exact (hcanonical.readable parent t hreach).placeable
      obtain ⟨l, hl⟩ := hlayout
      obtain ⟨v, hv, hreordered⟩ :=
        hcanonical.fixed.toAsset_of_realizes (realizes_of_ofAsset hl)
      refine ⟨l.toGraph, v, ?_, hv, hreordered⟩
      replace hl : Layout.ofAsset (.obj beside) (.str "A") (0.0, 0.0) (.str "A") {} = .ok l := hl
      simp [Graph.ofAsset, Key.toJson, hl]
  have hmapping : Mapping besideAlone := by
    constructor
    · simp [besideAlone]
    · simp [besideAlone, Entries.Distinct, Entries.keys]
  obtain ⟨g, found, hg, hfound, -, hiff⟩ :=
    sections_come_back_iff besideAlone hmapping hcome (by decide) (0.0, 0.0)
  refine ⟨hcome, g, found, hg, hfound, ?_⟩
  rw [hiff]
  intro hnone
  exact hnone _ (List.mem_singleton_self _) beside rfl ⟨_, rfl⟩

end Canvas

end AssetCanvas
