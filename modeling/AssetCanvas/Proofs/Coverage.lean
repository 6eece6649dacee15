import AssetCanvas.Proofs.Agreement
import AssetCanvas.Proofs.Assembling
import AssetCanvas.Proofs.RoundTrip
import Mathlib.Data.Fintype.EquivFin
import Mathlib.Data.Fintype.Sets

/-!
# Coverage

The asset of a whole graph is put together from walks that start at the nodes that feed no edge.
In an acyclic graph without problems every node leads to such a node,
`Graph.Acyclic.exists_terminal`.  If the ports of every node mean slots that are apart, then the
asset of a source stands inside the asset of its target, `Graph.inside_source`, so the asset of
the whole graph has the assets of all nodes inside it, `Graph.covers`.
-/

namespace AssetCanvas

open Assembly

/-! ### Values inside values -/

/-- Whether a value is an item or a field of another one, or stands inside such a value. -/
inductive Json.Inside : Json → Json → Prop
  | item {v : Json} {items : List Json} : v ∈ items → Inside v (.arr items)
  | field {key : Key} {v : Json} {fields : Fields} : (key, v) ∈ fields → Inside v (.obj fields)
  | trans {u v w : Json} : Inside u v → Inside v w → Inside u w

theorem Json.Inside.of_find? {fields : Fields} {key : Key} {v : Json}
    (h : Entries.find? fields key = some v) :
  v.Inside (.obj fields)
  := by
  obtain ⟨key', -, hmem⟩ := Entries.mem_of_find? h
  apply Inside.field hmem

/-- What stands inside an object stands inside every object with more fields. -/
theorem Json.Inside.mono {v w : Json} (h : v.Inside w) {fields fields' : Fields}
    (hw : w = .obj fields) (hsub : fields ⊆ fields') :
  v.Inside (.obj fields')
  := by
  induction h with
  | item _ => cases hw
  | field hmem =>
    obtain rfl := Json.obj.inj hw
    apply Inside.field (hsub hmem)
  | trans huv _ _ ih => apply huv.trans (ih hw)

/-- The items of an array in the order of their indices are the items. -/
theorem Assembly.mem_inOrder_iff {items : List (Nat × Json)} {v : Json} :
  v ∈ inOrder items ↔ ∃ index, (index, v) ∈ items
  := by
  simp [inOrder]

/-- A child in a slot of the parts of an asset stands inside the asset. -/
theorem Assembly.Parts.inside_of_child? {parts : Parts} (h : Entries.Distinct parts.items)
    {slot : String × Option Nat} {child : Json} (hchild : parts.child? slot = some child) :
  child.Inside (.obj parts.toFields)
  := by
  obtain ⟨field, index⟩ := slot
  cases index with
  | none => apply Json.Inside.of_find? hchild
  | some index =>
    obtain ⟨items, hitems, hitem⟩ := Option.bind_eq_some_iff.mp hchild
    obtain ⟨index', -, hmem⟩ := Entries.mem_of_find? hitem
    have harray : Entries.find? parts.toFields (.text field) = some (.arr (inOrder items)) := by
      rw [find?_toFields h, hitems]
      rfl
    apply Json.Inside.trans _ (Json.Inside.of_find? harray)
    apply Json.Inside.item
    exact mem_inOrder_iff.mpr ⟨index', hmem⟩

/-! ### Slots that are apart -/

/-- Whether two slots are different fields or different items of one array. -/
def Slot.Apart (slot slot' : String × Option Nat) : Prop :=
  slot.1 ≠ slot'.1 ∨ ∃ index index', slot.2 = some index ∧ slot'.2 = some index' ∧ index ≠ index'

namespace Graph

/-- Whether the ports of every node mean slots that are apart, and no node uses the key of
disconnected trees. -/
structure Roomy (g : Graph) : Prop where
  slots : ∀ n ∈ g.nodes, ∀ e ∈ g.inboundEdges n.id, ∀ e' ∈ g.inboundEdges n.id,
    e.targetPort ≠ e'.targetPort → ∃ slot slot', n.slot e.targetPort = .ok slot
      ∧ n.slot e'.targetPort = .ok slot' ∧ Slot.Apart slot slot'
  plain : ∀ n ∈ g.nodes, ∀ fields, n.fields = .obj fields →
    Entries.find? fields (.text Asset.disconnectedKey) = none
  ports : ∀ n ∈ g.nodes, ∀ e ∈ g.inboundEdges n.id, ∀ index,
    n.slot e.targetPort ≠ .ok (Asset.disconnectedKey, index)

variable {g : Graph}

/-! ### Paths to terminal nodes -/

/-- Whether the first of two nodes is downstream of the second. -/
def Downstream (g : Graph) (a b : {id // id ∈ g.nodes.map Node.id}) : Prop :=
  Relation.TransGen g.Feeds b a

/-- Among the finitely many nodes of an acyclic graph no path goes on downstream without end. -/
theorem Acyclic.wellFounded_downstream (h : g.Acyclic) : WellFounded g.Downstream
  := by
  have : IsTrans _ g.Downstream := ⟨fun _ _ _ hab hbc => hbc.trans hab⟩
  have : Std.Irrefl g.Downstream := ⟨fun a => h a⟩
  apply Finite.wellFounded_of_trans_of_irrefl

/-- Every node of an acyclic graph whose edges end in nodes leads to a node that feeds no
edge. -/
theorem Acyclic.exists_terminal (h : g.Acyclic)
    (hends : ∀ e ∈ g.edges, e.target ∈ g.nodes.map Node.id) {n : Node} (hn : n ∈ g.nodes) :
  ∃ t ∈ g.terminalNodes, Relation.ReflTransGen g.Feeds n.id t.id
  := by
  have hid : n.id ∈ g.nodes.map Node.id := List.mem_map_of_mem hn
  suffices ∀ id : {id // id ∈ g.nodes.map Node.id},
      ∃ t ∈ g.terminalNodes, Relation.ReflTransGen g.Feeds id t.id by
    apply this ⟨n.id, hid⟩
  intro id
  induction id using h.wellFounded_downstream.induction with
  | _ id ih =>
    by_cases hfeeds : g.feedsEdge id = true
    · obtain ⟨e, he, hsource⟩ := List.any_eq_true.mp hfeeds
      have hfeeds : g.Feeds id e.target := ⟨e, he, by simpa using hsource, rfl⟩
      obtain ⟨t, ht, hpath⟩ := ih ⟨e.target, hends e he⟩ (.single hfeeds)
      use t, ht
      apply Relation.ReflTransGen.head hfeeds hpath
    · obtain ⟨m, hm, hmid⟩ := List.mem_map.mp id.2
      use m
      constructor
      · rw [← hmid] at hfeeds
        apply List.mem_filter.mpr
        exact ⟨hm, by simpa using hfeeds⟩
      · rw [hmid]

/-! ### Sources inside targets -/

section Valid

variable (ht : g.Typed) (hp : g.problems = .ok []) (ha : g.Acyclic) (hr : g.Roomy)

include ht hp

/-- Two edges into one port are one. -/
theorem eq_of_targetPort {n : Node} {e e' : Edge} (he : e ∈ g.inboundEdges n.id)
    (he' : e' ∈ g.inboundEdges n.id) (h : e.targetPort = e'.targetPort) :
  e = e'
  := by
  obtain ⟨hmem, htarget⟩ := List.mem_filter.mp he
  obtain ⟨hmem', htarget'⟩ := List.mem_filter.mp he'
  apply List.inj_on_of_nodup_map ((problems_eq_nil_iff ht.ports).mp hp).2.2 hmem hmem'
  rw [feeding, feeding, h, decide_eq_true_iff.mp htarget, decide_eq_true_iff.mp htarget']

include hr

/-- The asset of a node has nothing under the key of disconnected trees. -/
theorem find?_disconnectedKey {n : Node} (hn : n ∈ g.nodes) {fields : Fields}
    (hasset : g.assetOf n.id = .ok (some (.obj fields))) :
  Entries.find? fields (.text Asset.disconnectedKey) = none
  := by
  have hfind := find?_of_problems ht hp hn
  obtain ⟨discriminant, own, writes, hown, rfl, -, hwrites⟩ := ht.shaped.exists_placed hfind hasset
  obtain ⟨fields, hfields⟩ := ht.fields n hn
  rw [find?_placed_of_forall, find?_ownFields hown hfields (by decide), hr.plain n hn fields hfields]
  rintro ⟨⟨field, index⟩, child⟩ hw rfl
  obtain ⟨e, he, -, -, hslot⟩ := (hwrites _).mp ⟨_, hw, rfl⟩
  apply hr.ports n hn e he index hslot

/-- An edge whose port shares its field only with other items prevails. -/
theorem Roomy.prevails {n : Node} (hn : n ∈ g.nodes) {e : Edge} (he : e ∈ g.inboundEdges n.id)
    {slot : String × Option Nat} (hslot : n.slot e.targetPort = .ok slot) :
  g.Prevails n e slot
  := by
  have hapart : ∀ e' ∈ g.inboundEdges n.id, ∀ slot', n.slot e'.targetPort = .ok slot' →
      e = e' ∨ Slot.Apart slot slot' := by
    intro e' he' slot' hslot'
    by_cases hports : e.targetPort = e'.targetPort
    · left
      apply eq_of_targetPort ht hp he he' hports
    · right
      obtain ⟨slot₁, slot₂, hslot₁, hslot₂, h⟩ := hr.slots n hn e he e' he' hports
      obtain rfl := Except.ok.inj (hslot.symm.trans hslot₁)
      obtain rfl := Except.ok.inj (hslot'.symm.trans hslot₂)
      exact h
  constructor
  · obtain ⟨last, hlast⟩ := exists_lastInto? he hslot
    obtain ⟨hmem, hsame⟩ := mem_of_lastInto? hlast
    use last, hlast
    rcases hapart last hmem slot hsame with rfl | hne | ⟨index, index', hindex, hindex', hne⟩
    · rfl
    · exact (hne rfl).elim
    · exact (hne (Option.some.inj (hindex.symm.trans hindex'))).elim
  · intro hfield e' he' index hitem
    rcases hapart e' he' _ hitem with rfl | hne | ⟨index', -, hindex', -, -⟩
    · rw [Except.ok.inj (hslot.symm.trans hitem)] at hfield
      cases hfield
    · exact hne rfl
    · rw [hfield] at hindex'
      cases hindex'

include ha

/-- The asset of a source stands inside the asset of its target. -/
theorem inside_source {e : Edge} (he : e ∈ g.edges) {v w : Json}
    (hv : g.assetOf e.source = .ok (some v)) (hw : g.assetOf e.target = .ok (some w)) :
  v.Inside w
  := by
  obtain ⟨n, hn, htarget⟩ := List.mem_map.mp (((problems_eq_nil_iff ht.ports).mp hp).2.1 e he).2
  have hin : e ∈ g.inboundEdges n.id := List.mem_filter.mpr ⟨he, by simp [htarget]⟩
  obtain ⟨slot, hslot⟩ := ht.exists_slot_of_mem hn he
  have hprevails := hr.prevails ht hp hn hin hslot
  obtain ⟨child, hchild, ⟨parts, hparts, hplaced⟩, -⟩ :=
    (places_iff ht hp ha hn he).mpr hprevails
  obtain rfl := Option.some.inj (Except.ok.inj (hv.symm.trans hchild))
  obtain ⟨own, write, -, hwritten⟩ := exists_brings ht hp ha hn
  obtain rfl := Except.ok.inj (hparts.symm.trans hwritten)
  rw [← htarget, assetOf_eq_partsOf (find?_of_problems ht hp hn), hparts] at hw
  obtain rfl := Option.some.inj (Except.ok.inj hw)
  apply Parts.inside_of_child? (reached_putAll _ _).distinct hplaced

/-- The asset of an id stands inside the asset of every id downstream. -/
theorem inside_of_path {id id' : String} (hpath : Relation.TransGen g.Feeds id id')
    {v w : Json} (hv : g.assetOf id = .ok (some v)) (hw : g.assetOf id' = .ok (some w)) :
  v.Inside w
  := by
  induction hpath generalizing w with
  | single hfeeds =>
    obtain ⟨e, he, rfl, rfl⟩ := hfeeds
    apply inside_source ht hp ha hr he hv hw
  | tail _ hfeeds ih =>
    obtain ⟨e, he, rfl, rfl⟩ := hfeeds
    obtain ⟨fields, hu⟩ := exists_assetOf_source ht hp he
    apply (ih hu).trans
    apply inside_source ht hp ha hr he hu hw

/-- The asset of a node stands inside the assets of all other nodes to which a path leads. -/
theorem inside_of_ne {n t : Node} (hn : n ∈ g.nodes) (ht' : t ∈ g.nodes)
    (hpath : Relation.ReflTransGen g.Feeds n.id t.id) (hne : n ≠ t) {v w : Json}
    (hv : g.assetOf n.id = .ok (some v)) (hw : g.assetOf t.id = .ok (some w)) :
  v.Inside w
  := by
  rcases Relation.reflTransGen_iff_eq_or_transGen.mp hpath with hid | hpath
  · have hnodup := ((problems_eq_nil_iff ht.ports).mp hp).1
    exact (hne (List.inj_on_of_nodup_map hnodup hn ht' hid.symm)).elim
  · apply inside_of_path ht hp ha hr hpath hv hw

end Valid

/-! ### Whole graphs -/

/-- The object with some trees under the key of disconnected trees, which it does not have. -/
theorem counted_withDisconnected_of_none {fields : Fields} (trees : List Json)
    (h : Entries.find? fields (.text Asset.disconnectedKey) = none) :
  ∃ whole, counted (withDisconnected (.obj fields) trees) = .ok (.obj whole) ∧ fields ⊆ whole
    ∧ Entries.find? whole (.text Asset.disconnectedKey)
      = if trees = [] then none else some (.arr trees)
  := by
  by_cases hnil : trees = []
  · use fields
    rw [hnil, counted_withDisconnected_nil h, if_pos rfl]
    exact ⟨rfl, List.Subset.refl fields, h⟩
  · use Entries.insert fields (.text Asset.disconnectedKey) (.arr trees)
    rw [counted_withDisconnected fields hnil, if_neg hnil, Entries.find?_insert]
    refine ⟨rfl, ?_, by simp⟩
    rw [Entries.insert_of_find?_eq_none h]
    apply List.subset_append_left

/-- Whether an object is the asset of a whole graph with the assets of all nodes: of the root
itself, of the other nodes inside it, and of the other terminal nodes as the disconnected
trees. -/
structure Covers (g : Graph) (root : Node) (rest : List Node) (whole : Fields) : Prop where
  terminals : g.terminalNodes = root :: rest
  asset : g.toAsset .null = .ok (some (.obj whole))
  inside : ∀ n ∈ g.nodes, n ≠ root → ∃ v, g.assetOf n.id = .ok (some v) ∧ v.Inside (.obj whole)
  trees : ∃ trees, List.Forall₂ (fun n tree => g.assetOf n.id = .ok (some tree)) rest trees
    ∧ Entries.find? whole (.text Asset.disconnectedKey)
      = if trees = [] then none else some (.arr trees)

/-- The root of a graph without tagged nodes is the first node that feeds no edge. -/
theorem primaryRoot_of_untagged (htagged : ∀ n ∈ g.nodes, n.isOutput = false) {root : Node}
    {rest : List Node} (h : g.terminalNodes = root :: rest) :
  g.primaryRoot .null = some root
  := by
  have hnone : g.nodes.filter Node.isOutput = [] := by
    apply List.filter_eq_nil_iff.mpr
    intro n hn
    simp [htagged n hn]
  simp [primaryRoot, Json.isNull, roots, hnone, h]

/-- The disconnected trees of the first terminal node are the assets of the other ones. -/
theorem disconnectedAssets_of_terminals (hnodup : (g.nodes.map Node.id).Nodup) {root : Node}
    {rest : List Node} (h : g.terminalNodes = root :: rest) {trees : List Json}
    (htrees : List.Forall₂ (fun n tree => g.assetOf n.id = .ok (some tree)) rest trees) :
  g.disconnectedAssets root.id = .ok trees
  := by
  have hids : ((root :: rest).map Node.id).Nodup := by
    rw [← h]
    apply List.Nodup.sublist (List.filter_sublist.map Node.id) hnodup
  have hothers : (root :: rest).filter (fun n => n.id ≠ root.id) = rest := by
    rw [List.filter_cons_of_neg (by simp), List.filter_eq_self]
    intro n hn
    rw [List.map_cons, List.nodup_cons] at hids
    apply decide_eq_true
    intro hid
    apply hids.1
    rw [← hid]
    apply List.mem_map_of_mem hn
  have hassets : (rest.map Node.id).mapM g.assetOf = .ok (trees.map some) := by
    rw [Fault.mapM_eq_ok_iff, List.forall₂_map_left_iff, List.forall₂_map_right_iff]
    apply htrees
  rw [disconnectedAssets, h, hothers, assetsOf, hassets, Fault.ok_bind]
  simp

/-- The asset of a graph without tagged nodes is that of its first terminal node, with the assets of
the other ones as its disconnected trees. -/
theorem exists_toAsset (htagged : ∀ n ∈ g.nodes, n.isOutput = false)
    (hnodup : (g.nodes.map Node.id).Nodup) {root : Node} {rest : List Node}
    (h : g.terminalNodes = root :: rest) {fields : Fields}
    (hroot : g.assetOf root.id = .ok (some (.obj fields)))
    (hnone : Entries.find? fields (.text Asset.disconnectedKey) = none) {trees : List Json}
    (htrees : List.Forall₂ (fun n tree => g.assetOf n.id = .ok (some tree)) rest trees) :
  ∃ whole, g.toAsset .null = .ok (some (.obj whole)) ∧ fields ⊆ whole
    ∧ Entries.find? whole (.text Asset.disconnectedKey)
      = if trees = [] then none else some (.arr trees)
  := by
  obtain ⟨whole, hwhole, hkept, hkey⟩ := counted_withDisconnected_of_none trees hnone
  refine ⟨whole, ?_, hkept, hkey⟩
  have hterminal : root ∈ g.terminalNodes := by simp [h]
  have hfeeds : g.feedsEdge root.id = false := by simpa using (List.mem_filter.mp hterminal).2
  have hdisconnected := disconnectedAssets_of_terminals hnodup h htrees
  rw [toAsset, primaryRoot_of_untagged htagged h]
  simp only [assetFrom, hroot, hfeeds, hdisconnected, hwhole, Fault.ok_bind]
  rfl

/-- The asset of a whole acyclic graph without problems, without tagged nodes and with ports that
are apart has the assets of all nodes in it. -/
theorem exists_covers (hnodes : g.nodes ≠ []) (ht : g.Typed) (ha : g.Acyclic)
    (hp : g.problems = .ok []) (htagged : ∀ n ∈ g.nodes, n.isOutput = false) (hr : g.Roomy) :
  ∃ root rest whole, g.Covers root rest whole
  := by
  obtain ⟨hnodup, hends, -⟩ := (problems_eq_nil_iff ht.ports).mp hp
  have hterminal : ∀ n ∈ g.nodes, ∃ t ∈ g.terminalNodes, Relation.ReflTransGen g.Feeds n.id t.id :=
    fun n hn => ha.exists_terminal (fun e he => (hends e he).2) hn
  have hassets : ∀ n ∈ g.nodes, ∃ fields, g.assetOf n.id = .ok (some (.obj fields)) :=
    fun n hn => ht.exists_assetOf (List.mem_map_of_mem hn)
  choose! fieldsOf hfieldsOf using hassets
  obtain ⟨root, rest, hroots⟩ : ∃ root rest, g.terminalNodes = root :: rest := by
    obtain ⟨n, hn⟩ := List.exists_mem_of_ne_nil _ hnodes
    obtain ⟨t, ht, -⟩ := hterminal n hn
    apply List.exists_cons_of_ne_nil (List.ne_nil_of_mem ht)
  have hsub : ∀ t ∈ root :: rest, t ∈ g.nodes := by
    rw [← hroots]
    exact fun t ht => List.mem_of_mem_filter ht
  have hroot := hsub root (by simp)
  have htrees : List.Forall₂ (fun n tree => g.assetOf n.id = .ok (some tree)) rest
      (rest.map fun n => .obj (fieldsOf n)) := by
    rw [List.forall₂_map_right_iff, List.forall₂_same]
    exact fun t ht => hfieldsOf t (hsub t (List.mem_cons_of_mem _ ht))
  obtain ⟨whole, hwhole, hkept, hkey⟩ := exists_toAsset htagged hnodup hroots
    (hfieldsOf root hroot) (find?_disconnectedKey ht hp hr hroot (hfieldsOf root hroot)) htrees
  refine ⟨root, rest, whole, hroots, hwhole, ?_, _, htrees, hkey⟩
  intro n hn hne
  refine ⟨_, hfieldsOf n hn, ?_⟩
  obtain ⟨t, hmem, hpath⟩ := hterminal n hn
  rw [hroots] at hmem
  rcases List.mem_cons.mp hmem with rfl | hrest
  · apply Json.Inside.mono _ rfl hkept
    apply inside_of_ne ht hp ha hr hn hroot hpath hne (hfieldsOf n hn) (hfieldsOf t hroot)
  · have htree : Json.obj (fieldsOf t) ∈ rest.map fun n => Json.obj (fieldsOf n) :=
      List.mem_map_of_mem hrest
    rw [if_neg (List.ne_nil_of_mem htree)] at hkey
    have hinside : (Json.obj (fieldsOf t)).Inside (.obj whole) :=
      (Json.Inside.item htree).trans (.of_find? hkey)
    by_cases hnt : n = t
    · rw [hnt]
      apply hinside
    · have ht' := hsub t hmem
      apply (inside_of_ne ht hp ha hr hn ht' hpath hnt (hfieldsOf n hn) (hfieldsOf t ht')).trans
      apply hinside

/-- A sum of two constants beside a third one. -/
def sumBesideOne : Graph where
  nodes :=
    [{ id := "sum", label := .str "Sum", assetType := .str "Sum" },
      { id := "zero", label := .str "Zero", assetType := .str "Zero" },
      { id := "one", label := .str "One", assetType := .str "One" },
      { id := "loose", label := .str "One", assetType := .str "One" }]
  edges := [.link "one" "sum" (.str "Inputs[1]"), .link "zero" "sum" (.str "Inputs[0]")]

theorem mem_edges_sumBesideOne {e : Edge} (he : e ∈ sumBesideOne.edges) :
  e = .link "one" "sum" (.str "Inputs[1]") ∨ e = .link "zero" "sum" (.str "Inputs[0]")
  := by
  simpa [sumBesideOne] using he

theorem typed_sumBesideOne : sumBesideOne.Typed
  where
  labels := by simp [sumBesideOne]
  ports := by simp [sumBesideOne, Edge.Textual, Edge.link]
  types := by simp [sumBesideOne]
  fields := by simp [sumBesideOne]
  records := by simp [sumBesideOne]
  indices := by
    intro e he port hport
    rcases mem_edges_sumBesideOne he with rfl | rfl
    · cases hport
      exact ⟨_, rfl⟩
    · cases hport
      exact ⟨_, rfl⟩

/-- The edges of the sum feed two items of its array. -/
theorem slot_sumBesideOne {n : Node} (hn : n ∈ sumBesideOne.nodes) {e : Edge}
    (he : e ∈ sumBesideOne.inboundEdges n.id) :
  n.slot e.targetPort = .ok ("Inputs", some (if e.source = "one" then 1 else 0))
  := by
  obtain ⟨hmem, htarget⟩ := List.mem_filter.mp he
  simp only [sumBesideOne, List.mem_cons, List.not_mem_nil, or_false] at hn
  rcases mem_edges_sumBesideOne hmem with rfl | rfl
  · rcases hn with rfl | rfl | rfl | rfl
    · rfl
    all_goals simp [Edge.link] at htarget
  · rcases hn with rfl | rfl | rfl | rfl
    · rfl
    all_goals simp [Edge.link] at htarget

theorem roomy_sumBesideOne : sumBesideOne.Roomy
  where
  slots := by
    intro n hn e he e' he' hports
    refine ⟨_, _, slot_sumBesideOne hn he, slot_sumBesideOne hn he', .inr ⟨_, _, rfl, rfl, ?_⟩⟩
    rcases mem_edges_sumBesideOne (List.mem_of_mem_filter he) with rfl | rfl
    · rcases mem_edges_sumBesideOne (List.mem_of_mem_filter he') with rfl | rfl
      · exact (hports rfl).elim
      · decide
    · rcases mem_edges_sumBesideOne (List.mem_of_mem_filter he') with rfl | rfl
      · decide
      · exact (hports rfl).elim
  plain := by
    intro n hn fields hfields
    simp only [sumBesideOne, List.mem_cons, List.not_mem_nil, or_false] at hn
    rcases hn with rfl | rfl | rfl | rfl <;> cases hfields <;> rfl
  ports := by
    intro n hn e he index
    simp [slot_sumBesideOne hn he, Asset.disconnectedKey]

/-- The asset of the sum has its constants and the constant beside it. -/
theorem exists_covers_sumBesideOne :
  sumBesideOne.Acyclic ∧ sumBesideOne.problems = .ok [] ∧ sumBesideOne.Roomy
    ∧ ∃ root rest whole, sumBesideOne.Covers root rest whole
  := by
  have hacyclic : sumBesideOne.Acyclic := by
    apply acyclic_of_apart
    decide
  refine ⟨hacyclic, rfl, roomy_sumBesideOne, ?_⟩
  apply exists_covers (by simp [sumBesideOne]) typed_sumBesideOne hacyclic rfl _ roomy_sumBesideOne
  simp [sumBesideOne, Node.isOutput, Json.truthy]

end Graph

end AssetCanvas
