import AssetCanvas.Proofs.Realization

/-!
# The assets of a layout

`Asset.descent` lists the assets that a descent reaches, in pre-order, with the fields that hold
them.  The nodes of a layout are the nodes of these assets, in this order, and the edges into the
node of an asset feed the ports of its children: `Layout.forall₂_describes`.
-/

namespace AssetCanvas

namespace Asset

/-- The assets that a descent reaches, in pre-order, with the fields that hold them. -/
def descent (parent : Option String) (fields : Fields) : List (Option String × Fields) :=
  (parent, fields) :: (parts fields).attach.flatMap fun ⟨part, _⟩ =>
    match _hasset : part.asset? with
    | some t => descent part.parent? t
    | none => []
termination_by sizeOf fields
decreasing_by
  rename_i hmem
  apply sizeOf_lt_of_mem_parts hmem _hasset

/-- The assets that a descent reaches from a part. -/
def Part.descent (part : Part) : List (Option String × Fields) :=
  match part.asset? with
  | some t => Asset.descent part.parent? t
  | none => []

theorem descent_eq (parent : Option String) (fields : Fields) :
  descent parent fields = (parent, fields) :: (parts fields).flatMap Part.descent
  := by
  rw [descent]
  conv_rhs => rw [← List.attach_map_subtype_val (parts fields), List.flatMap_map]
  congr 2
  funext ⟨part, _⟩
  cases part <;> rfl

theorem descent_of_asset {part : Part} {t : Fields} (h : part.asset? = some t) :
  part.descent = (part.parent?, t) :: (parts t).flatMap Part.descent
  := by
  rw [Part.descent, h]
  apply descent_eq

theorem mem_descent_of_part {part : Part} {a : Option String × Fields} :
  a ∈ part.descent ↔ ∃ t, part.asset? = some t ∧ a ∈ descent part.parent? t
  := by
  unfold Part.descent
  cases part.asset? with
  | none => simp
  | some t => simp

/-- The listed assets are those that a descent reaches. -/
theorem mem_descent_iff {parent parent' : Option String} {fields fields' : Fields} :
  (parent', fields') ∈ descent parent fields ↔ Reaches parent fields parent' fields'
  := by
  constructor
  · intro h
    induction fields using Asset.induction generalizing parent with
    | step fields ih =>
      rw [descent_eq] at h
      rcases List.mem_cons.mp h with heq | h
      · obtain ⟨rfl, rfl⟩ := Prod.mk.inj heq
        apply Reaches.here
      · obtain ⟨part, hpart, hmem⟩ := List.mem_flatMap.mp h
        obtain ⟨t, ht, hmem⟩ := mem_descent_of_part.mp hmem
        apply Reaches.step hpart ht (ih part hpart t ht hmem)
  · intro h
    induction h with
    | here parent fields =>
      rw [descent_eq]
      apply List.mem_cons_self
    | step hpart ht _ ih =>
      rw [descent_eq]
      apply List.mem_cons_of_mem
      apply List.mem_flatMap.mpr
      exact ⟨_, hpart, mem_descent_of_part.mpr ⟨_, ht, ih⟩⟩

end Asset

namespace Layout

open Asset

/-- The ports of a node that some edges feed, in the order of the edges. -/
def portsAt (edges : List Edge) (id : String) : List Json :=
  (edges.filter fun e => e.target = id).map Edge.targetPort

theorem portsAt_append (edges edges' : List Edge) (id : String) :
  portsAt (edges ++ edges') id = portsAt edges id ++ portsAt edges' id
  := by
  simp [portsAt]

/-- The edges of a layout feed the ports of its children on the node of an asset. -/
theorem portsAt_placeParts (stem : String) (ps : List Part) (owner : Owner) {m n : Nat}
    (index : Nat) (ho : owner.id = nodeId stem m) (hm : m ≤ n) :
  portsAt (placeParts stem owner n index ps).edges owner.id
    = (ps.filterMap Part.child?).map (childPort owner.assetType owner.label)
  := by
  induction ps generalizing n index with
  | nil => rfl
  | cons part rest ih =>
    have hbelow : ∀ {child : Owner} {t : Fields}, child.id = nodeId stem (n + 1) →
        portsAt (bodyOf stem child n t).edges owner.id = [] := by
      intro child t hchild
      have hbody := numbered_placeParts stem (parts t) child 0 hchild (Nat.le_refl _)
      rw [portsAt, ho, hbody.filter_target_eq_nil (by omega) (by omega)]
      rfl
    rw [placeParts, Fragment.edges_append, portsAt_append, ih _ (Nat.le_add_right_of_le hm)]
    cases part with
    | child c =>
      have hfirst : (Part.child c).child? = some c := rfl
      rw [placePart_child, Fragment.ofChild, portsAt_append, hbelow rfl,
        List.filterMap_cons_some hfirst]
      simp [portsAt, Edge.link]
    | tree position t =>
      rw [placePart_tree, Fragment.ofTree, hbelow rfl]
      rfl
    | _ => rfl

/-- A node is the node of an asset, and some edges feed the ports of the children of the asset. -/
structure Describes (edges : List Edge) (m : PlacedNode) (a : Option String × Fields) : Prop where
  content : m.content = Asset.content a.1 a.2
  ports : portsAt edges m.owner.id = (children a.2).map (portOf a.1 a.2)

/-- The root of the layout of an asset describes the asset. -/
theorem describes_root {stem : String} {n : Nat} {place : Place} {parent : Option String}
    {fields : Fields} {owner : Owner} (ho : owner = .ofAsset stem n place parent fields) :
  Describes (bodyOf stem owner n fields).edges
    ⟨owner, (bodyOf stem owner n fields).plain, (bodyOf stem owner n fields).arrays⟩
    (parent, fields)
  where
  content := by
    rw [bodyOf, placeParts_plain, placeParts_arrays, ho]
    rfl
  ports := by
    have hid : owner.id = nodeId stem (n + 1) := by rw [ho]; rfl
    rw [portsAt_placeParts stem (parts fields) owner 0 hid (Nat.le_refl _), ho]
    rfl

theorem forall₂_describes_congr {edges edges' : List Edge} {nodes : List PlacedNode}
    {as : List (Option String × Fields)} (h : List.Forall₂ (Describes edges) nodes as)
    (hedges : ∀ m ∈ nodes, (edges'.filter fun e => e.target = m.owner.id)
      = edges.filter fun e => e.target = m.owner.id) :
  List.Forall₂ (Describes edges') nodes as
  := by
  apply ((List.forall₂_and_left _ _).mpr ⟨hedges, h⟩).imp
  rintro m a ⟨hm, hdescribes⟩
  constructor
  · apply hdescribes.content
  · rw [portsAt, hm]
    apply hdescribes.ports

theorem forall₂_describes_append {stem : String} {m n : Nat} {F G : Fragment}
    {as bs : List (Option String × Fields)} (hm : m ≤ n) (hF : F.Numbered stem m n)
    (hG : G.Numbered stem m (n + F.nodes.length))
    (hleft : List.Forall₂ (Describes F.edges) F.nodes as)
    (hright : List.Forall₂ (Describes G.edges) G.nodes bs) :
  List.Forall₂ (Describes (F ++ G).edges) (F ++ G).nodes (as ++ bs)
  := by
  rw [Fragment.nodes_append]
  apply List.rel_append
  · apply forall₂_describes_congr hleft
    intro node hmem
    apply Fragment.filter_target_left hm hF hG hmem
  · apply forall₂_describes_congr hright
    intro node hmem
    apply Fragment.filter_target_right hm hF hG hmem

/-- The nodes of a layout describe the assets of the descent, in order. -/
theorem forall₂_describes (stem : String) (ps : List Part) (owner : Owner) {m n : Nat}
    (index : Nat) (ho : owner.id = nodeId stem m) (hm : m ≤ n) :
  List.Forall₂ (Describes (placeParts stem owner n index ps).edges)
    (placeParts stem owner n index ps).nodes (ps.flatMap Part.descent)
  := by
  induction ps using parts_induction generalizing owner m n index with
  | nil => apply List.Forall₂.nil
  | cons part rest ihasset ihrest =>
    have hfirst := numbered_placePart stem part owner index ho hm
    have hrest := numbered_placeParts stem rest owner
      (n := n + (placePart stem owner n index part).nodes.length)
      (index + (placePart stem owner n index part).children) ho (Nat.le_add_right_of_le hm)
    have hpart : List.Forall₂ (Describes (placePart stem owner n index part).edges)
        (placePart stem owner n index part).nodes part.descent := by
      cases part with
      | child c =>
        have hbody := ihasset c.fields rfl (childOwner stem owner n index c) (m := n + 1) 0 rfl
          (Nat.le_refl _)
        have hasset : List.Forall₂
            (Describes (bodyOf stem (childOwner stem owner n index c) n c.fields).edges)
            (placePart stem owner n index (.child c)).nodes (Part.child c).descent := by
          rw [placePart_child, descent_of_asset (t := c.fields) rfl]
          apply List.Forall₂.cons _ hbody
          apply describes_root rfl
        apply forall₂_describes_congr hasset
        intro node hmem
        apply filter_target_child ho hm hmem
      | tree position t =>
        have hbody := ihasset t rfl (treeOwner stem owner n position t) (m := n + 1) 0 rfl
          (Nat.le_refl _)
        rw [placePart_tree, descent_of_asset (t := t) rfl]
        apply List.Forall₂.cons _ hbody
        apply describes_root rfl
      | _ => apply List.Forall₂.nil
    rw [placeParts, List.flatMap_cons]
    apply forall₂_describes_append hm hfirst hrest hpart
    apply ihrest owner _ ho (Nat.le_add_right_of_le hm)

/-- The nodes of the layout of a tree describe the assets of the tree. -/
theorem describes_placeRoot (stem : String) (field : Option String) (fields : Fields) :
  List.Forall₂ (Describes (placeRoot stem field fields).edges)
    (placeRoot stem field fields).nodes (descent field fields)
  := by
  have hbody := forall₂_describes stem (parts fields) (.ofAsset stem 0 .start field fields)
    (m := 1) 0 rfl (Nat.le_refl _)
  rw [placeRoot, placeFields_eq, descent_eq]
  apply List.Forall₂.cons _ hbody
  apply describes_root rfl

/-- Every edge of a layout feeds the port of a child of an asset of the tree. -/
theorem port_of_mem_edges {stem : String} {field : Option String} {fields : Fields} {e : Edge}
    (h : e ∈ (placeRoot stem field fields).edges) :
  ∃ parent t, Reaches field fields parent t ∧ ∃ c ∈ children t, e.targetPort = portOf parent t c
  := by
  have hroot := numbered_placeRoot stem field fields
  have htarget : e.target ∈ (placeRoot stem field fields).ids := by
    obtain ⟨a, b, -, ht, hlow, hlt, hhigh⟩ := exists_of_mem_placeRoot stem field fields h
    apply hroot.mem_ids.mpr
    use b, ht
    omega
  obtain ⟨m, hm, hid⟩ := List.mem_map.mp htarget
  obtain ⟨a, ha, hdescribes⟩ := Fault.exists_of_mem_right
    (describes_placeRoot stem field fields).flip hm
  have hport : e.targetPort ∈ portsAt (placeRoot stem field fields).edges m.owner.id := by
    apply List.mem_map_of_mem
    rw [List.mem_filter]
    use h
    simpa using hid.symm
  rw [hdescribes.ports] at hport
  obtain ⟨c, hc, heq⟩ := List.mem_map.mp hport
  use a.1, a.2, mem_descent_iff.mp ha, c, hc
  apply heq.symm

end Layout

end AssetCanvas
