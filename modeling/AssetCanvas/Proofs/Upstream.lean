import AssetCanvas.Proofs.Forest
import AssetCanvas.Proofs.Reachability

/-!
# The primary tree of a layout

The disconnected trees of a layout hang on no edge.  `Asset.marks` marks the assets of a descent
that belong to the primary tree, which ends where a disconnected tree begins.  An edge of a
layout joins two nodes with one mark, and every marked node below the root feeds an edge,
`Layout.markedBy_placeParts`; so the ids above the root are those of the primary tree,
`Graph.Realizes.leads_iff`.
-/

namespace AssetCanvas

namespace Asset

/-! ### Marks -/

/-- Whether the asset below a part is joined to the asset whose part it is. -/
def Part.joined : Part → Bool
  | .child _ => true
  | _ => false

/-- The marks of the assets of a descent, in pre-order: whether an asset belongs to the primary
tree, for an asset of it or of a disconnected tree. -/
def marks (primary : Bool) (fields : Fields) : List Bool :=
  primary :: (parts fields).attach.flatMap fun ⟨part, _⟩ =>
    match _hasset : part.asset? with
    | some t => marks (primary && part.joined) t
    | none => []
termination_by sizeOf fields
decreasing_by
  rename_i hmem
  apply sizeOf_lt_of_mem_parts hmem _hasset

/-- The marks of the assets of a descent from a part. -/
def Part.marks (primary : Bool) (part : Part) : List Bool :=
  match part.asset? with
  | some t => Asset.marks (primary && part.joined) t
  | none => []

theorem marks_eq (primary : Bool) (fields : Fields) :
  marks primary fields = primary :: (parts fields).flatMap (Part.marks primary)
  := by
  rw [marks]
  conv_rhs => rw [← List.attach_map_subtype_val (parts fields), List.flatMap_map]
  congr 2
  funext ⟨part, _⟩
  cases part <;> rfl

theorem marks_child (primary : Bool) (c : Child) :
  (Part.child c).marks primary = primary :: (parts c.fields).flatMap (Part.marks primary)
  := by
  rw [Part.marks, ← marks_eq]
  simp [Part.asset?, Part.joined]

theorem marks_tree (primary : Bool) (index : Nat) (t : Fields) :
  (Part.tree index t).marks primary = false :: (parts t).flatMap (Part.marks false)
  := by
  rw [Part.marks, ← marks_eq]
  simp [Part.asset?, Part.joined]

end Asset

namespace Layout

open Asset

/-! ### Marked fragments -/

/-- The nodes of a fragment have marks, below an owner with a mark: the ends of an edge have the
same mark, and every node of the primary tree feeds an edge. -/
structure Fragment.MarkedBy (owner : String) (primary : Bool) (F : Fragment) (marks : List Bool) :
    Prop where
  length : F.ids.length = marks.length
  edge : ∀ e ∈ F.edges, ∃ mark, (e.source, mark) ∈ F.ids.zip marks
    ∧ (e.target, mark) ∈ (owner, primary) :: F.ids.zip marks
  fed : ∀ id, (id, true) ∈ F.ids.zip marks → ∃ e ∈ F.edges, e.source = id

namespace Fragment.MarkedBy

variable {owner : String} {primary : Bool} {F G : Fragment} {marks marks' : List Bool}

/-- A fragment without nodes and edges has no marks. -/
theorem of_nodes_eq_nil (hn : F.nodes = []) (he : F.edges = []) : F.MarkedBy owner primary []
  where
  length := by simp [Fragment.ids, hn]
  edge e h := by simp [he] at h
  fed id h := by simp at h

theorem append (h : F.MarkedBy owner primary marks) (h' : G.MarkedBy owner primary marks') :
  (F ++ G).MarkedBy owner primary (marks ++ marks')
  := by
  have hids : (F ++ G).ids = F.ids ++ G.ids := by simp [Fragment.ids]
  have hzip : (F ++ G).ids.zip (marks ++ marks') = F.ids.zip marks ++ G.ids.zip marks' := by
    rw [hids, List.zip_append h.length]
  constructor
  · rw [hids, List.length_append, List.length_append, h.length, h'.length]
  · intro e he
    rw [hzip]
    rcases List.mem_append.mp he with he | he
    · obtain ⟨mark, hsource, htarget⟩ := h.edge e he
      use mark, List.mem_append_left _ hsource
      rcases List.mem_cons.mp htarget with heq | htarget
      · simp [heq]
      · simp [htarget]
    · obtain ⟨mark, hsource, htarget⟩ := h'.edge e he
      use mark, List.mem_append_right _ hsource
      rcases List.mem_cons.mp htarget with heq | htarget
      · simp [heq]
      · simp [htarget]
  · intro id hid
    rw [hzip] at hid
    rcases List.mem_append.mp hid with hid | hid
    · obtain ⟨e, he, hsource⟩ := h.fed id hid
      exact ⟨e, List.mem_append_left _ he, hsource⟩
    · obtain ⟨e, he, hsource⟩ := h'.fed id hid
      exact ⟨e, List.mem_append_right _ he, hsource⟩

/-- The fragment of an asset is marked by the owner of the asset if an edge joins the asset to it,
or if the asset is none of the primary tree. -/
theorem close {body : Fragment} {root : Owner} {mark : Bool}
    (h : body.MarkedBy root.id mark marks) (hnodes : F.nodes = body.close root)
    (hbelow : body.edges ⊆ F.edges)
    (hedges : ∀ e ∈ F.edges,
      e ∈ body.edges ∨ (e.source, e.target, mark) = (root.id, owner, primary))
    (hmark : mark = true → ∃ e ∈ F.edges, e.source = root.id) :
  F.MarkedBy owner primary (mark :: marks)
  := by
  have hids : F.ids = root.id :: body.ids := by simp [Fragment.ids, hnodes, Fragment.close]
  have hzip : F.ids.zip (mark :: marks) = (root.id, mark) :: body.ids.zip marks := by
    rw [hids, List.zip_cons_cons]
  constructor
  · rw [hids, List.length_cons, List.length_cons, h.length]
  · intro e he
    rw [hzip]
    rcases hedges e he with he | heq
    · obtain ⟨b, hsource, htarget⟩ := h.edge e he
      exact ⟨b, List.mem_cons_of_mem _ hsource, List.mem_cons_of_mem _ htarget⟩
    · simp only [Prod.mk.injEq] at heq
      obtain ⟨hsource, htarget, rfl⟩ := heq
      use mark
      simp [hsource, htarget]
  · intro id hid
    rw [hzip] at hid
    rcases List.mem_cons.mp hid with heq | hid
    · obtain ⟨rfl, hroot⟩ := Prod.mk.inj heq
      exact hmark hroot.symm
    · obtain ⟨e, he, hsource⟩ := h.fed id hid
      exact ⟨e, hbelow he, hsource⟩

end Fragment.MarkedBy

/-- The nodes of a layout have the marks of the descent. -/
theorem markedBy_placeParts (stem : String) (primary : Bool) (ps : List Part) (owner : Owner)
    (n index : Nat) :
  (placeParts stem owner n index ps).MarkedBy owner.id primary (ps.flatMap (Part.marks primary))
  := by
  induction ps using parts_induction generalizing owner n index primary with
  | nil => exact .of_nodes_eq_nil rfl rfl
  | cons part rest ihasset ihrest =>
    have hfirst :
        (placePart stem owner n index part).MarkedBy owner.id primary (part.marks primary) := by
      cases part with
      | child c =>
        have hbody := ihasset c.fields rfl primary (childOwner stem owner n index c) (n + 1) 0
        rw [placePart_child, marks_child]
        apply hbody.close rfl (List.subset_append_left _ _)
        · intro e he
          rcases List.mem_append.mp he with he | hlink
          · left
            exact he
          · obtain rfl := List.mem_singleton.mp hlink
            right
            rfl
        · intro _
          exact ⟨_, List.mem_append_right _ (List.mem_singleton_self _), rfl⟩
      | tree position t =>
        have hbody := ihasset t rfl false (treeOwner stem owner n position t) (n + 1) 0
        rw [placePart_tree, marks_tree]
        apply hbody.close
        · rfl
        · exact List.Subset.refl _
        · intro e he
          left
          exact he
        · simp
      | _ => exact .of_nodes_eq_nil rfl rfl
    exact hfirst.append (ihrest primary owner _ _)

/-- The nodes of the layout of a tree with the marks of the descent. -/
theorem markedBy_body (stem : String) (field : Option String) (fields : Fields) :
  (bodyOf stem (.ofAsset stem 0 .start field fields) 0 fields).MarkedBy (nodeId stem 1) true
    ((parts fields).flatMap (Part.marks true))
  := markedBy_placeParts stem true (parts fields) (.ofAsset stem 0 .start field fields) 1 0

end Layout

namespace Graph.Realizes

open Asset Layout

variable {g : Graph} {stem : String} {field : Option String} {fields : Fields}

/-- The first node of a layout is its root. -/
theorem exists_root (h : g.Realizes (placeRoot stem field fields)) :
  ∃ root rest, g.nodes = root :: rest ∧ root.id = nodeId stem 1
  := by
  have hids := h.ids_eq
  rw [placeRoot_eq, Fragment.ids, Fragment.ofTree, Fragment.close, List.map_cons] at hids
  obtain ⟨root, rest, hnodes, hroot, -⟩ := List.map_eq_cons_iff.mp hids
  exact ⟨root, rest, hnodes, hroot⟩

/-- The ids of a layout with the marks of the descent. -/
theorem zip_marks (h : g.Realizes (placeRoot stem field fields)) :
  (g.nodes.map Node.id).zip (marks true fields)
    = (nodeId stem 1, true) :: (bodyOf stem (.ofAsset stem 0 .start field fields) 0 fields).ids.zip
        ((parts fields).flatMap (Part.marks true))
  := by
  rw [h.ids_eq, placeRoot_eq, marks_eq]
  rfl

theorem feeds_iff (h : g.Realizes (placeRoot stem field fields)) {source target : String} :
  g.Feeds source target
    ↔ ∃ e ∈ (bodyOf stem (.ofAsset stem 0 .start field fields) 0 fields).edges,
      e.source = source ∧ e.target = target
  := by
  have hends : ∀ edges : List Edge, (∃ e ∈ edges, e.source = source ∧ e.target = target)
      ↔ ∃ ends ∈ edges.map Edge.ends, ends.1 = source ∧ ends.2.1 = target := by
    intro edges
    simp [Edge.ends]
  rw [Feeds, hends, hends, h.edges, placeRoot_eq]
  rfl

theorem length_marks (h : g.Realizes (placeRoot stem field fields)) :
  (g.nodes.map Node.id).length = (marks true fields).length
  := by
  rw [h.ids_eq, placeRoot_eq, marks_eq]
  exact congrArg Nat.succ (markedBy_body stem field fields).length

/-- Nodes of a layout with one id have one mark. -/
theorem mark_unique (h : g.Realizes (placeRoot stem field fields)) {id : String} {a b : Bool}
    (ha : (id, a) ∈ (g.nodes.map Node.id).zip (marks true fields))
    (hb : (id, b) ∈ (g.nodes.map Node.id).zip (marks true fields)) :
  a = b
  := by
  have hnodup : (((g.nodes.map Node.id).zip (marks true fields)).map Prod.fst).Nodup := by
    rw [List.map_fst_zip (Nat.le_of_eq h.length_marks)]
    exact h.nodup_ids
  exact congrArg Prod.snd (List.inj_on_of_nodup_map hnodup ha hb rfl)

/-- The ids from which a path of edges leads to the root of a layout are those of the primary
tree. -/
theorem leads_iff (h : g.Realizes (placeRoot stem field fields)) {id : String} :
  Relation.ReflTransGen g.Feeds id (nodeId stem 1)
    ↔ (id, true) ∈ (g.nodes.map Node.id).zip (marks true fields)
  := by
  have hmarked := markedBy_body stem field fields
  constructor
  · intro hpath
    induction hpath using Relation.ReflTransGen.head_induction_on with
    | refl => simp [h.zip_marks]
    | head hfeeds _ ih =>
      -- the ends of an edge have one mark
      obtain ⟨e, he, rfl, rfl⟩ := h.feeds_iff.mp hfeeds
      obtain ⟨mark, hsource, htarget⟩ := hmarked.edge e he
      rw [← h.zip_marks] at htarget
      obtain rfl := h.mark_unique ih htarget
      rw [h.zip_marks]
      exact List.mem_cons_of_mem _ hsource
  · intro hmem
    obtain ⟨a, ha, -, -⟩ : ∃ a, id = nodeId stem a ∧ 0 < a ∧ a ≤ 0 + _ := by
      apply (numbered_placeRoot stem field fields).mem_ids.mp
      rw [← h.ids_eq]
      exact List.of_mem_zip hmem |>.1
    -- a marked node below the root feeds an edge, which leads to a smaller number
    induction a using Nat.strong_induction_on generalizing id with
    | _ a ih =>
      rw [h.zip_marks] at hmem
      rcases List.mem_cons.mp hmem with heq | hbelow
      · obtain ⟨rfl, -⟩ := Prod.mk.inj heq
        exact .refl
      · obtain ⟨e, he, rfl⟩ := hmarked.fed id hbelow
        obtain ⟨mark, hsource, htarget⟩ := hmarked.edge e he
        rw [← h.zip_marks] at hmem
        have hsource' : (e.source, mark) ∈ (g.nodes.map Node.id).zip (marks true fields) := by
          rw [h.zip_marks]
          exact List.mem_cons_of_mem _ hsource
        have hmark : mark = true := h.mark_unique hsource' hmem
        obtain ⟨a', b, hs, ht, hlt, -⟩ := (numbered_body stem field fields).edge e he
        have hsame : a' = a := by
          rw [← nodeId_inj stem, ← hs, ← ha]
        rw [hmark, ← h.zip_marks] at htarget
        apply Relation.ReflTransGen.head _ (ih b (by omega) htarget ht)
        exact h.feeds_iff.mpr ⟨e, he, rfl, rfl⟩

end Graph.Realizes

end AssetCanvas
