import AssetCanvas.Proofs.Parts
import AssetCanvas.Proofs.Ports
import Mathlib.Data.List.Nodup

/-!
# The numbers of nodes

The nodes of a fragment are numbered in a row, and an edge of a fragment leads from one of them
to a node with a smaller number: a node of the fragment or the one to which the fields belong.
`Fragment.Numbered` says so, and `numbered_placeParts` proves it of every layout.  Fragments
with numbers in different rows share no node, so an edge belongs to one of them.
-/

namespace AssetCanvas.Layout

open Asset

/-! ### Ids -/

theorem toList_nodeId (stem : String) (number : Nat) :
  (nodeId stem number).toList = stem.toList ++ '_' :: Nat.toDigits 10 number
  := by
  simp [nodeId, toString, Nat.repr]

/-- Different numbers give different ids. -/
@[simp] theorem nodeId_inj (stem : String) {a b : Nat} : nodeId stem a = nodeId stem b ↔ a = b
  := by
  constructor
  · intro h
    have hlist := congrArg String.toList h
    rw [toList_nodeId, toList_nodeId, List.append_cancel_left_eq, List.cons.injEq] at hlist
    rw [← Digit.toNat_toDigits a, hlist.2, Digit.toNat_toDigits]
  · rintro rfl
    rfl

theorem nodeId_ne_empty (stem : String) (number : Nat) : nodeId stem number ≠ ""
  := by
  intro h
  have hlist := congrArg String.toList h
  rw [toList_nodeId] at hlist
  simp at hlist

/-- The ids of the nodes of a fragment. -/
def Fragment.ids (F : Fragment) : List String := F.nodes.map fun m => m.owner.id

theorem Fragment.length_ids (F : Fragment) : F.ids.length = F.nodes.length
  := by
  simp [ids]

/-- The nodes of the fragment have the numbers from `n + 1` on.  An edge leads from one of them
to a node with a smaller number: to another one of them or to the node number `m`. -/
structure Fragment.Numbered (stem : String) (m n : Nat) (F : Fragment) : Prop where
  ids : F.ids = (List.range' (n + 1) F.nodes.length).map (nodeId stem)
  edge : ∀ e ∈ F.edges, ∃ a b, e.source = nodeId stem a ∧ e.target = nodeId stem b ∧
    b < a ∧ n < a ∧ a ≤ n + F.nodes.length ∧ (b = m ∨ n < b)

namespace Fragment.Numbered

variable {stem : String} {m n : Nat} {F G : Fragment}

/-- The ids of a fragment are those of its numbers. -/
theorem mem_ids (h : F.Numbered stem m n) {id : String} :
  id ∈ F.ids ↔ ∃ a, id = nodeId stem a ∧ n < a ∧ a ≤ n + F.nodes.length
  := by
  rw [h.ids, List.mem_map]
  constructor
  · rintro ⟨a, hmem, rfl⟩
    rw [List.mem_range'_1] at hmem
    use a, rfl
    omega
  · rintro ⟨a, rfl, hlow, hhigh⟩
    use a
    rw [List.mem_range'_1]
    constructor
    · omega
    · rfl

theorem nodup_ids (h : F.Numbered stem m n) : F.ids.Nodup
  := by
  rw [h.ids]
  apply List.Nodup.map _ List.nodup_range'
  intro a b hab
  apply (nodeId_inj stem).mp hab

/-- A node with the number of its owner has no place in the fragment. -/
theorem not_mem_ids (h : F.Numbered stem m n) {a : Nat} (ha : a ≤ n) :
  nodeId stem a ∉ F.ids
  := by
  intro hmem
  obtain ⟨b, hb, hlow, -⟩ := h.mem_ids.mp hmem
  rw [nodeId_inj] at hb
  omega

theorem empty : ({} : Fragment).Numbered stem m n
  where
  ids := rfl
  edge _ h := nomatch h

/-- A fragment without nodes and edges is numbered. -/
theorem of_nodes_eq_nil (hn : F.nodes = []) (he : F.edges = []) : F.Numbered stem m n
  where
  ids := by simp [Fragment.ids, hn]
  edge e h := by simp [he] at h

theorem append (h : F.Numbered stem m n) (h' : G.Numbered stem m (n + F.nodes.length)) :
  (F ++ G).Numbered stem m n
  where
  ids := by
    have hids : (F ++ G).ids = F.ids ++ G.ids := by simp [Fragment.ids]
    rw [hids, h.ids, h'.ids, ← List.map_append, nodes_append, List.length_append]
    congr 1
    rw [show n + F.nodes.length + 1 = n + 1 + 1 * F.nodes.length by omega, List.range'_append]
  edge e hmem := by
    rw [edges_append, List.mem_append] at hmem
    rw [nodes_append, List.length_append]
    rcases hmem with hmem | hmem
    · obtain ⟨a, b, hs, ht, hlt, hlow, hhigh, hb⟩ := h.edge e hmem
      use a, b, hs, ht, hlt, hlow
      omega
    · obtain ⟨a, b, hs, ht, hlt, hlow, hhigh, hb⟩ := h'.edge e hmem
      use a, b, hs, ht, hlt
      omega

/-- The fragment of an asset whose node comes first. -/
theorem close {body : Fragment} (h : body.Numbered stem (n + 1) (n + 1)) (owner : Owner)
    (ho : owner.id = nodeId stem (n + 1)) (hnodes : F.nodes = body.close owner)
    (hedges : ∀ e ∈ F.edges, e ∈ body.edges ∨
      e.source = owner.id ∧ e.target = nodeId stem m ∧ m ≤ n) :
  F.Numbered stem m n
  where
  ids := by
    have hids : F.ids = owner.id :: body.ids := by simp [Fragment.ids, hnodes, Fragment.close]
    rw [hids, h.ids, hnodes, Fragment.close, List.length_cons, List.range'_succ, List.map_cons, ho]
  edge e hmem := by
    have hlength : F.nodes.length = body.nodes.length + 1 := by
      simp [hnodes, Fragment.close]
    rcases hedges e hmem with hmem | ⟨hs, ht, hm⟩
    · obtain ⟨a, b, hs, ht, hlt, hlow, hhigh, hb⟩ := h.edge e hmem
      use a, b, hs, ht, hlt
      omega
    · use n + 1, m, hs.trans ho, ht
      omega

/-- No edge of a numbered fragment leads to a node with another number. -/
theorem filter_target_eq_nil (h : F.Numbered stem m n) {k : Nat} (hk : k ≠ m)
    (hk' : k ≤ n ∨ n + F.nodes.length < k) :
  (F.edges.filter fun e => e.target = nodeId stem k) = []
  := by
  rw [List.filter_eq_nil_iff]
  intro e hmem
  obtain ⟨a, b, -, ht, hlt, hlow, hhigh, hb⟩ := h.edge e hmem
  rw [ht, decide_eq_true_iff, nodeId_inj]
  omega

end Fragment.Numbered

/-- The edges into a node of the first of two fragments are edges of that fragment. -/
theorem Fragment.filter_target_left {stem : String} {m n : Nat} {F G : Fragment} (hm : m ≤ n)
    (hF : F.Numbered stem m n) (hG : G.Numbered stem m (n + F.nodes.length)) {node : PlacedNode}
    (h : node ∈ F.nodes) :
  ((F ++ G).edges.filter fun e => e.target = node.owner.id)
    = F.edges.filter fun e => e.target = node.owner.id
  := by
  obtain ⟨a, ha, hlow, hhigh⟩ := hF.mem_ids.mp (List.mem_map_of_mem h)
  rw [edges_append, List.filter_append, ha, hG.filter_target_eq_nil, List.append_nil]
  · omega
  · omega

/-- The edges into a node of the second of two fragments are edges of that fragment. -/
theorem Fragment.filter_target_right {stem : String} {m n : Nat} {F G : Fragment} (hm : m ≤ n)
    (hF : F.Numbered stem m n) (hG : G.Numbered stem m (n + F.nodes.length)) {node : PlacedNode}
    (h : node ∈ G.nodes) :
  ((F ++ G).edges.filter fun e => e.target = node.owner.id)
    = G.edges.filter fun e => e.target = node.owner.id
  := by
  obtain ⟨a, ha, hlow, hhigh⟩ := hG.mem_ids.mp (List.mem_map_of_mem h)
  rw [edges_append, List.filter_append, ha, hF.filter_target_eq_nil, List.nil_append]
  · omega
  · omega

/-- The nodes of a layout are numbered in a row. -/
theorem numbered_placeParts (stem : String) (ps : List Part) (owner : Owner) {m n : Nat}
    (index : Nat) (ho : owner.id = nodeId stem m) (hm : m ≤ n) :
  (placeParts stem owner n index ps).Numbered stem m n
  := by
  induction ps using parts_induction generalizing owner m n index with
  | nil => apply Fragment.Numbered.empty
  | cons part rest ihasset ihrest =>
    have hfirst : (placePart stem owner n index part).Numbered stem m n := by
      cases part with
      | child c =>
        have hbody := ihasset c.fields rfl (childOwner stem owner n index c) (m := n + 1)
          (n := n + 1) 0 rfl (Nat.le_refl _)
        rw [← placeFields_eq] at hbody
        apply hbody.close (childOwner stem owner n index c) rfl rfl
        intro e hmem
        rcases List.mem_append.mp hmem with hmem | hmem
        · left
          apply hmem
        · obtain rfl := List.mem_singleton.mp hmem
          right
          use rfl, ho
      | tree position t =>
        have hbody := ihasset t rfl (treeOwner stem owner n position t) (m := n + 1)
          (n := n + 1) 0 rfl (Nat.le_refl _)
        rw [← placeFields_eq] at hbody
        apply hbody.close (treeOwner stem owner n position t) rfl rfl
        intro e hmem
        left
        apply hmem
      | _ => apply Fragment.Numbered.of_nodes_eq_nil rfl rfl
    apply hfirst.append
    apply ihrest owner _ ho (Nat.le_add_right_of_le hm)

theorem numbered_placePart (stem : String) (part : Part) (owner : Owner) {m n : Nat}
    (index : Nat) (ho : owner.id = nodeId stem m) (hm : m ≤ n) :
  (placePart stem owner n index part).Numbered stem m n
  := by
  rw [← placeParts_singleton]
  apply numbered_placeParts stem [part] owner index ho hm

/-- An edge of a layout comes from a node of its own. -/
theorem nodup_sources_placeParts (stem : String) (ps : List Part) (owner : Owner) {m n : Nat}
    (index : Nat) (ho : owner.id = nodeId stem m) (hm : m ≤ n) :
  ((placeParts stem owner n index ps).edges.map Edge.source).Nodup
  := by
  induction ps using parts_induction generalizing owner m n index with
  | nil => apply List.nodup_nil
  | cons part rest ihasset ihrest =>
    have hfirst := numbered_placePart stem part owner index ho hm
    have hrest := numbered_placeParts stem rest owner
      (n := n + (placePart stem owner n index part).nodes.length)
      (index + (placePart stem owner n index part).children) ho (Nat.le_add_right_of_le hm)
    rw [placeParts, Fragment.edges_append, List.map_append, List.nodup_append']
    refine ⟨?_, ihrest owner _ ho (Nat.le_add_right_of_le hm), ?_⟩
    · cases part with
      | child c =>
        have hchild := ihasset c.fields rfl (childOwner stem owner n index c) (m := n + 1)
          (n := n + 1) 0 rfl (Nat.le_refl _)
        have hbody := numbered_placeParts stem (parts c.fields) (childOwner stem owner n index c)
          (m := n + 1) (n := n + 1) 0 rfl (Nat.le_refl _)
        rw [← placeFields_eq] at hchild hbody
        simp only [placePart, Fragment.ofChild, List.map_append, List.nodup_append']
        refine ⟨hchild, List.nodup_singleton _, ?_⟩
        -- the edges below the child come from nodes with greater numbers
        intro id hbelow hlink
        obtain ⟨e, he, rfl⟩ := List.mem_map.mp hbelow
        obtain ⟨a, b, hs, -, hlt, hlow, -, -⟩ := hbody.edge e he
        have hself := List.mem_singleton.mp hlink
        have hid : e.source = nodeId stem (n + 1) := hself
        rw [hs, nodeId_inj] at hid
        omega
      | tree position t =>
        have htree := ihasset t rfl (treeOwner stem owner n position t) (m := n + 1)
          (n := n + 1) 0 rfl (Nat.le_refl _)
        rw [← placeFields_eq] at htree
        apply htree
      | _ => apply List.nodup_nil
    · intro id hleft hright
      obtain ⟨e, he, rfl⟩ := List.mem_map.mp hleft
      obtain ⟨e', he', heq⟩ := List.mem_map.mp hright
      obtain ⟨a, b, hs, -, -, -, hhigh, -⟩ := hfirst.edge e he
      obtain ⟨a', b', hs', -, -, hlow', -, -⟩ := hrest.edge e' he'
      rw [hs, hs', nodeId_inj] at heq
      omega

end AssetCanvas.Layout
