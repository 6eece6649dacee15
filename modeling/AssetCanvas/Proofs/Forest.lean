import AssetCanvas.Proofs.Depiction
import AssetCanvas.Proofs.Placement

/-!
# Layouts as forests

The graph of a layout is an ordered forest.  Its nodes are the assets of the descent, numbered
from one on; an edge leads from a node to one with a smaller number; the root and the roots of
the disconnected trees feed no edge, and every other node feeds one.  `Asset.visits` lists the
assets of the descent with a mark on those that stand free, `Layout.forall₂_stands` compares the
marks with the edges, part by part, and `Layout.ordered_forest` says it of every layout.
-/

namespace AssetCanvas

namespace Asset

/-! ### Visits -/

/-- A visit of a descent: an asset, the field that holds it, and whether it stands free, as the
root or as a disconnected tree. -/
structure Visit where
  parent : Option String
  fields : Fields
  free : Bool

/-- The visit of the asset below a part. -/
def Part.visit? : Part → Option Visit
  | .child c => some ⟨c.key.text?, c.fields, false⟩
  | .tree _ t => some ⟨none, t, true⟩
  | _ => none

theorem Part.asset_of_visit {part : Part} {v : Visit} (h : part.visit? = some v) :
  part.asset? = some v.fields
  := by
  cases part <;> simp [visit?] at h <;> simp [← h, asset?]

/-- The visits of a descent, in pre-order. -/
def visits (v : Visit) : List Visit :=
  v :: (parts v.fields).attach.flatMap fun ⟨part, _⟩ =>
    match _hvisit : part.visit? with
    | some w => visits w
    | none => []
termination_by sizeOf v.fields
decreasing_by
  rename_i hmem
  apply sizeOf_lt_of_mem_parts hmem (Part.asset_of_visit _hvisit)

/-- The visits of a descent from a part. -/
def Part.visits (part : Part) : List Visit :=
  match part.visit? with
  | some w => Asset.visits w
  | none => []

theorem visits_eq (v : Visit) : visits v = v :: (parts v.fields).flatMap Part.visits
  := by
  rw [visits]
  conv_rhs => rw [← List.attach_map_subtype_val (parts v.fields), List.flatMap_map]
  congr 2
  funext ⟨part, _⟩
  cases part <;> rfl

theorem visits_child (c : Child) :
  (Part.child c).visits
    = ⟨c.key.text?, c.fields, false⟩ :: (parts c.fields).flatMap Part.visits
  := by
  apply visits_eq

theorem visits_tree (index : Nat) (t : Fields) :
  (Part.tree index t).visits = ⟨none, t, true⟩ :: (parts t).flatMap Part.visits
  := by
  apply visits_eq

/-- The free visits below some parts are those of the disconnected trees. -/
theorem free_visits_parts (ps : List Part) :
  ((ps.flatMap Part.visits).filter Visit.free).map Visit.fields = ps.flatMap Part.loose
  := by
  induction ps using parts_induction with
  | nil => rfl
  | cons part rest ihasset ihrest =>
    simp only [List.flatMap_cons, List.map_append, List.filter_append, ihrest,
      List.append_left_inj]
    cases part with
    | child c =>
      rw [visits_child, List.filter_cons_of_neg (by simp), ihasset c.fields rfl, ← loose_eq]
      rfl
    | tree index t =>
      rw [visits_tree, List.filter_cons_of_pos (by simp), List.map_cons, ihasset t rfl, ← loose_eq]
      rfl
    | _ => rfl

/-- The root and the disconnected trees stand free. -/
theorem free_visits (field : Option String) (fields : Fields) :
  ((visits ⟨field, fields, true⟩).filter Visit.free).map Visit.fields = fields :: loose fields
  := by
  rw [visits_eq, List.filter_cons_of_pos rfl, List.map_cons, free_visits_parts, loose_eq]

/-! ### Plain fields -/

/-- A plain field holds no asset and no array of assets. -/
theorem kind_of_mem_plain {fields : Fields} {f : Key × Json} (h : f ∈ plain fields) :
  f.2.kind ≠ .asset ∧ f.2.kind ≠ .assetArray
  := by
  obtain ⟨part, hmem, hplain⟩ := List.mem_filterMap.mp h
  obtain ⟨⟨key, v⟩, -, hpart⟩ := List.mem_flatMap.mp hmem
  obtain rfl : f = (key, v) := (key_of_mem_valueParts hpart).2.1 f hplain
  have hkey : (key == .text typeKey) = false := key_of_mem_plain h
  cases v with
  | obj t =>
    by_cases hc : Entries.contains t (.text typeKey) = true
    · have hchild : valueParts key (.obj t) = [.child ⟨key, none, t⟩] := by
        simp only [valueParts, bne, hkey, hc]
        rfl
      rw [hchild, List.mem_singleton] at hpart
      rw [hpart] at hplain
      cases hplain
    · simp [Json.kind, hc]
  | arr items =>
    refine ⟨?_, ?_⟩
    · simp only [Json.kind]
      split <;> simp
    · intro harray
      by_cases hd : (key == .text disconnectedKey) = true
      · have htrees : valueParts key (.arr items) = treeParts 0 items := by
          simp only [valueParts, hd, if_true]
        rw [htrees] at hpart
        rcases mem_treeParts hpart with ⟨i, t, rfl⟩ | ⟨i, rfl⟩ <;> cases hplain
      · have hitems : valueParts key (.arr items) = .record key :: itemParts key 0 items := by
          simp only [valueParts, hd, bne, hkey, harray]
          rfl
        rw [hitems] at hpart
        rcases List.mem_cons.mp hpart with rfl | hitem
        · cases hplain
        · obtain ⟨i, t, rfl⟩ := key_of_mem_itemParts hitem
          cases hplain
  | _ => simp [Json.kind]

end Asset

namespace Layout

open Asset

/-! ### Edges of the nodes -/

/-- Members that are paired with marks are filtered by the marks. -/
theorem filter_eq_of_forall₂ {α β : Type} {p : α → Bool} {q : β → Bool} {as : List α}
    {bs : List β} (h : List.Forall₂ (fun a b => p a = q b) as bs) :
  as.filter p = ((as.zip bs).filter fun c => q c.2).map Prod.fst
    ∧ (as.filter p).length = (bs.filter q).length
  := by
  induction h with
  | nil => exact ⟨rfl, rfl⟩
  | @cons a b as bs hab _ ih =>
    obtain ⟨hzip, hlength⟩ := ih
    rw [List.zip_cons_cons, List.filter_cons, List.filter_cons, List.filter_cons, hab, hzip]
    cases q b with
    | false => exact ⟨rfl, by rwa [← hzip]⟩
    | true =>
      refine ⟨rfl, ?_⟩
      rw [← hzip]
      simp [hlength]

/-- A node feeds an edge exactly if the asset of its visit does not stand free. -/
def Stands (edges : List Edge) (m : PlacedNode) (v : Visit) : Prop :=
  (edges.any fun e => e.source = m.owner.id) = !v.free

theorem forall₂_stands_congr {edges edges' : List Edge} {nodes : List PlacedNode}
    {vs : List Visit} (h : List.Forall₂ (Stands edges) nodes vs)
    (hedges : ∀ m ∈ nodes, (edges'.any fun e => e.source = m.owner.id)
      = edges.any fun e => e.source = m.owner.id) :
  List.Forall₂ (Stands edges') nodes vs
  := by
  apply ((List.forall₂_and_left _ _).mpr ⟨hedges, h⟩).imp
  rintro m v ⟨hm, hstands⟩
  rw [Stands, hm]
  apply hstands

theorem forall₂_stands_append {stem : String} {m n : Nat} {F G : Fragment}
    {vs ws : List Visit} (hF : F.Numbered stem m n)
    (hG : G.Numbered stem m (n + F.nodes.length))
    (hleft : List.Forall₂ (Stands F.edges) F.nodes vs)
    (hright : List.Forall₂ (Stands G.edges) G.nodes ws) :
  List.Forall₂ (Stands (F ++ G).edges) (F ++ G).nodes (vs ++ ws)
  := by
  rw [Fragment.nodes_append]
  apply List.rel_append
  · apply forall₂_stands_congr hleft
    intro node hmem
    apply Fragment.any_source_left hF hG hmem
  · apply forall₂_stands_congr hright
    intro node hmem
    apply Fragment.any_source_right hF hG hmem

/-- The nodes of a layout stand as the visits of the descent say. -/
theorem forall₂_stands (stem : String) (ps : List Part) (owner : Owner) {m n : Nat}
    (index : Nat) (ho : owner.id = nodeId stem m) (hm : m ≤ n) :
  List.Forall₂ (Stands (placeParts stem owner n index ps).edges)
    (placeParts stem owner n index ps).nodes (ps.flatMap Part.visits)
  := by
  induction ps using parts_induction generalizing owner m n index with
  | nil => apply List.Forall₂.nil
  | cons part rest ihasset ihrest =>
    have hfirst := numbered_placePart stem part owner index ho hm
    have hrest := numbered_placeParts stem rest owner
      (n := n + (placePart stem owner n index part).nodes.length)
      (index + (placePart stem owner n index part).children) ho (Nat.le_add_right_of_le hm)
    have hpart : List.Forall₂ (Stands (placePart stem owner n index part).edges)
        (placePart stem owner n index part).nodes part.visits := by
      cases part with
      | child c =>
        have hbody := ihasset c.fields rfl (childOwner stem owner n index c) (m := n + 1) 0 rfl
          (Nat.le_refl _)
        have hnumbered := numbered_placeParts stem (parts c.fields)
          (childOwner stem owner n index c) (m := n + 1) (n := n + 1) 0 rfl (Nat.le_refl _)
        rw [placePart_child, visits_child]
        apply List.Forall₂.cons
        · simp [Stands, Fragment.ofChild, Edge.link]
        · apply forall₂_stands_congr hbody
          intro node hmem
          apply Fragment.any_source_body hnumbered owner rfl _ _ _ hmem
      | tree position t =>
        have hbody := ihasset t rfl (treeOwner stem owner n position t) (m := n + 1) 0 rfl
          (Nat.le_refl _)
        have hnumbered := numbered_placeParts stem (parts t)
          (treeOwner stem owner n position t) (m := n + 1) (n := n + 1) 0 rfl (Nat.le_refl _)
        rw [placePart_tree, visits_tree]
        apply List.Forall₂.cons _ hbody
        apply hnumbered.not_source
        left
        apply Nat.le_refl
      | _ => apply List.Forall₂.nil
    rw [placeParts, List.flatMap_cons]
    apply forall₂_stands_append hfirst hrest hpart
    apply ihrest owner _ ho (Nat.le_add_right_of_le hm)

/-- The nodes of the layout of a tree stand as the visits of the descent say. -/
theorem stands_placeRoot (stem : String) (field : Option String) (fields : Fields) :
  List.Forall₂ (Stands (placeRoot stem field fields).edges) (placeRoot stem field fields).nodes
    (visits ⟨field, fields, true⟩)
  := by
  have hbody := forall₂_stands stem (parts fields) (.ofAsset stem 0 .start field fields) (m := 1)
    0 rfl (Nat.le_refl _)
  rw [placeRoot_eq, visits_eq]
  apply List.Forall₂.cons _ hbody
  apply (numbered_body stem field fields).not_source
  left
  apply Nat.le_refl

/-- As many nodes of a layout feed no edge as there are disconnected trees. -/
theorem length_terminals_placeParts (stem : String) (ps : List Part) (owner : Owner) {m n : Nat}
    (index : Nat) (ho : owner.id = nodeId stem m) (hm : m ≤ n) :
  (placeParts stem owner n index ps).terminals.length = (ps.flatMap Part.loose).length
  := by
  have hfree : List.Forall₂ (fun node v =>
      (!(placeParts stem owner n index ps).edges.any fun e => e.source = node.owner.id)
        = Visit.free v) (placeParts stem owner n index ps).nodes (ps.flatMap Part.visits) := by
    apply (forall₂_stands stem ps owner index ho hm).imp
    intro node v hstands
    rw [show _ = _ from hstands, Bool.not_not]
  rw [Fragment.terminals, (filter_eq_of_forall₂ hfree).2, ← free_visits_parts, List.length_map]

end Layout

/-! ### Ordered forests -/

namespace Graph

open Asset Layout

/-- A graph with the nodes of the assets of a descent in order, numbered from one on, in which
every edge leads from a node to one with a smaller number.  The root and the roots of the
disconnected trees feed no edge, every other node feeds one, and the nodes keep no nested asset
in their fields. -/
structure Forest (g : Graph) (stem : String) (field : Option String) (fields : Fields) : Prop where
  ids : g.nodes.map Node.id
    = (List.range' 1 (descent field fields).length).map (nodeId stem)
  contents : List.Forall₂ (fun n a => n.content = Asset.content a.1 a.2) g.nodes
    (descent field fields)
  falls : ∀ e ∈ g.edges, ∃ a b, e.source = nodeId stem a ∧ e.target = nodeId stem b
    ∧ 0 < b ∧ b < a ∧ a ≤ (descent field fields).length
  feeds : List.Forall₂ (fun n v => (g.edges.filter fun e => e.source = n.id).length
    = if v.free then 0 else 1) g.nodes (visits ⟨field, fields, true⟩)
  size : g.edges.length + (loose fields).length + 1 = (descent field fields).length
  terminals : g.terminalNodes
    = ((g.nodes.zip (visits ⟨field, fields, true⟩)).filter fun p => p.2.free).map Prod.fst
  own : ∀ n ∈ g.nodes, ∃ own, n.fields = .obj own ∧ ∀ f ∈ own, (f.1 == .text typeKey) = false
    ∧ f.2.kind ≠ .asset ∧ f.2.kind ≠ .assetArray

/-- If no two edges lead from one node, a node feeds one edge or none. -/
theorem length_filter_source {g : Graph} (h : (g.edges.map Edge.source).Nodup) (id : String) :
  (g.edges.filter fun e => e.source = id).length = if g.feedsEdge id then 1 else 0
  := by
  have hcount : (g.edges.filter fun e => e.source = id).length
      = (g.edges.map Edge.source).count id := by
    rw [List.count, List.countP_map, List.countP_eq_length_filter]
    rfl
  have hmem : id ∈ g.edges.map Edge.source ↔ g.feedsEdge id = true := by
    simp [feedsEdge]
  rw [hcount, h.count]
  simp only [hmem]

/-- If no two edges lead from one node, there are as many edges as nodes that feed one. -/
theorem length_edges {g : Graph} (h : (g.edges.map Edge.source).Nodup)
    (hids : (g.nodes.map Node.id).Nodup) (hends : ∀ e ∈ g.edges, e.source ∈ g.nodes.map Node.id) :
  g.edges.length = (g.nodes.filter fun n => g.feedsEdge n.id).length
  := by
  have hperm : (g.edges.map Edge.source).Perm
      ((g.nodes.filter fun n => g.feedsEdge n.id).map Node.id) := by
    rw [List.perm_ext_iff_of_nodup h (hids.sublist (List.filter_sublist.map _))]
    intro id
    constructor
    · intro hmem
      obtain ⟨e, he, rfl⟩ := List.mem_map.mp hmem
      obtain ⟨n, hn, hid⟩ := List.mem_map.mp (hends e he)
      apply List.mem_map.mpr
      use n
      rw [List.mem_filter, hid]
      refine ⟨⟨hn, ?_⟩, rfl⟩
      simp only [feedsEdge, List.any_eq_true, decide_eq_true_eq]
      use e, he
    · intro hmem
      obtain ⟨n, hn, rfl⟩ := List.mem_map.mp hmem
      obtain ⟨e, he, hsource⟩ := List.any_eq_true.mp (List.mem_filter.mp hn).2
      rw [← decide_eq_true_iff.mp hsource]
      apply List.mem_map_of_mem he
  rw [← List.length_map (f := Edge.source), hperm.length_eq, List.length_map]

namespace Realizes

variable {g : Graph} {stem : String} {field : Option String} {fields : Fields}

/-- The nodes of a graph of the form of a layout feed edges as the visits of the descent say. -/
theorem feedsEdge_visits (h : g.Realizes (placeRoot stem field fields)) :
  List.Forall₂ (fun n v => g.feedsEdge n.id = !v.free) g.nodes (visits ⟨field, fields, true⟩)
  := by
  have hplaced : List.Forall₂ (fun id v => g.feedsEdge id = !v.free)
      ((placeRoot stem field fields).nodes.map fun m => m.owner.id)
      (visits ⟨field, fields, true⟩) := by
    rw [List.forall₂_map_left_iff]
    apply (stands_placeRoot stem field fields).imp
    intro m v hstands
    rw [h.feedsEdge_eq]
    apply hstands
  rw [← Fragment.ids, ← h.ids_eq, List.forall₂_map_left_iff] at hplaced
  apply hplaced

/-- A graph of the form of the layout of a tree is an ordered forest. -/
theorem forest (h : g.Realizes (placeRoot stem field fields)) : g.Forest stem field fields
  := by
  have hnumbered := numbered_placeRoot stem field fields
  have hstands := h.feedsEdge_visits
  have hfree : List.Forall₂ (fun n v => (!g.feedsEdge n.id) = v.free) g.nodes
      (visits ⟨field, fields, true⟩) := by
    apply hstands.imp
    intro n v hn
    rw [hn, Bool.not_not]
  have hlength : (placeRoot stem field fields).nodes.length = (descent field fields).length :=
    (describes_placeRoot stem field fields).length_eq
  constructor
  · rw [h.ids_eq, hnumbered.ids, hlength]
  · have hcontents : List.Forall₂ (fun p a => p.2 = Asset.content a.1 a.2)
        ((placeRoot stem field fields).nodes.map fun m => (m.owner.id, m.content))
        (descent field fields) := by
      rw [List.forall₂_map_left_iff]
      apply (describes_placeRoot stem field fields).imp
      intro m a hdescribes
      apply hdescribes.content
    rw [← h.nodes, List.forall₂_map_left_iff] at hcontents
    apply hcontents
  · intro e he
    obtain ⟨e', he', hsource, htarget, -⟩ := h.exists_edge he
    rw [hsource, htarget, ← hlength]
    apply exists_of_mem_placeRoot stem field fields he'
  · apply hstands.imp
    intro n v hn
    rw [length_filter_source h.nodup_sources, hn]
    cases v.free <;> rfl
  · have hedges := length_edges h.nodup_sources h.nodup_ids fun e he => (h.endsIn he).1
    have hnodes := List.length_eq_length_filter_add (l := g.nodes) fun n => g.feedsEdge n.id
    have hfreed := (filter_eq_of_forall₂ hfree).2
    have hloose := congrArg List.length (free_visits field fields)
    rw [List.length_map, List.length_cons] at hloose
    rw [← hlength, ← Fragment.length_ids, ← h.ids_eq, List.length_map]
    omega
  · rw [terminalNodes]
    apply (filter_eq_of_forall₂ hfree).1
  · intro n hn
    obtain ⟨parent, t, -, hdepicts⟩ := h.exists_depicts hn
    use plain t, congrArg Node.fields hdepicts.content
    intro f hf
    use key_of_mem_plain hf
    apply kind_of_mem_plain hf

end Realizes

end Graph

/-! ### Layouts -/

namespace Layout

open Asset

/-- A tree of assets that fit has a layout exactly if the stem of the ids and the discriminant of the
root have a spelling, and every layout of a tree is an ordered forest. -/
theorem ordered_forest (fields : Fields) (stem : Json) (start : Float × Float)
    (field : Option String) (policy : LayoutPolicy) :
  (policy.Spaced → Everywhere (fun _ => Fits) field fields →
      ((∃ l, Layout.ofAsset (.obj fields) stem start (Json.ofOption field) policy = .ok l)
        ↔ (stemValue policy stem).isSpellable = true
          ∧ (Json.field fields typeKey).isSpellable = true))
    ∧ ∀ l, Layout.ofAsset (.obj fields) stem start (Json.ofOption field) policy = .ok l →
      l.rootId = nodeId (stemOf policy stem) 1
        ∧ l.toGraph.Forest (stemOf policy stem) field fields
  := by
  constructor
  · intro hp hfits
    apply exists_ofAsset_iff_of_fits stem start hp hfits
  · intro l hl
    use (ofAsset_eq_ok hl).1
    apply (realizes_of_ofAsset hl).forest

/-- An asset without a discriminant over one whose discriminant is a number, with a list of
disconnected trees below it. -/
def scattered : Fields :=
  [("Type", .null), ("Input", .obj [("Type", .int 5),
    ("$DisconnectedTrees", .arr [.null, .obj (bare "Abs")])])]

/-- The asset below the example. -/
def scatteredInput : Fields :=
  [("Type", .int 5), ("$DisconnectedTrees", .arr [.null, .obj (bare "Abs")])]

theorem parts_scattered :
  parts scattered = [.plain "Type" .null, .child ⟨"Input", none, scatteredInput⟩]
  := rfl

theorem parts_scatteredInput :
  parts scatteredInput = [.plain "Type" (.int 5), .skipped 0, .tree 1 (bare "Abs")]
  := rfl

/-- A property holds everywhere in the example if it holds of its three assets. -/
theorem everywhere_scattered {P : Option String → Fields → Prop} (here : P none scattered)
    (input : P (some "Input") scatteredInput) (below : ∀ parent type, P parent (bare type)) :
  Everywhere P none scattered
  := by
  apply Everywhere.of_parts here
  intro part hmem t ht
  obtain rfl : Part.child ⟨"Input", none, scatteredInput⟩ = part := by
    rw [parts_scattered] at hmem
    simp only [List.mem_cons, List.not_mem_nil, or_false] at hmem
    rcases hmem with rfl | rfl
    · cases ht
    · rfl
  obtain rfl := Option.some.inj ht
  apply everywhere_over_bare input _ below
  rw [parts_scatteredInput]
  simp [Part.asset?]

theorem everywhere_fits_scattered : Everywhere (fun _ => Fits) none scattered
  := by
  apply everywhere_scattered
  · constructor
    · rfl
    · decide
    · decide
    · simp [parts_scattered]
  · constructor
    · rfl
    · decide
    · decide
    · rw [parts_scatteredInput]
      simp [capacity]
  · intro parent type
    apply (readable_bare parent type).placeable.fits

/-- The three assets are an ordered forest of two trees. -/
theorem ordered_forest_scattered :
  ∃ l, Layout.ofAsset (.obj scattered) .null (0.0, 0.0) .null {} = .ok l
    ∧ l.toGraph.Forest "graph" none scattered ∧ l.nodes.length = 3 ∧ l.edges.length = 1
  := by
  obtain ⟨hexists, hforest⟩ := ordered_forest scattered .null (0.0, 0.0) none {}
  obtain ⟨l, hl⟩ := (hexists LayoutPolicy.spaced_standard everywhere_fits_scattered).mpr
    ⟨rfl, rfl⟩
  obtain ⟨-, hg⟩ := hforest l hl
  obtain ⟨-, hedges, hnodes⟩ := ofAsset_eq_ok hl
  have hplaced := hnodes.length_eq
  use l, hl, hg
  constructor
  · rw [← hplaced]
    rfl
  · rw [hedges]
    rfl

/-- An asset whose discriminant has too many digits, and a policy whose columns are too far apart,
allow no layout. -/
theorem not_ordered_forest_power :
  (¬ ∃ l, Layout.ofAsset (.obj [("Type", .int (10 ^ Numeral.maxIntDigits))]) .null (0.0, 0.0) .null
        {} = .ok l)
    ∧ ¬ ∃ l, Layout.ofAsset (.obj (bare "Constant")) .null (0.0, 0.0) .null
        { columnSpacing := .int (10 ^ 400) } = .ok l
  := by
  constructor
  · intro hexists
    rw [show Json.null = Json.ofOption none from rfl, exists_ofAsset_iff] at hexists
    obtain ⟨-, -, -, hroot⟩ := hexists
    change (Json.int (10 ^ Numeral.maxIntDigits)).isSpellable = true at hroot
    rw [Json.not_isSpellable_power] at hroot
    cases hroot
  · intro hexists
    rw [show Json.null = Json.ofOption none from rfl, exists_ofAsset_iff] at hexists
    obtain ⟨htold, -⟩ := hexists
    have hnone : Binary64.ofInt? (10 ^ 400) = none := by decide +kernel
    obtain ⟨x, hx⟩ := told_int_iff.mp htold
    rw [hnone] at hx
    cases hx

end Layout

end AssetCanvas
