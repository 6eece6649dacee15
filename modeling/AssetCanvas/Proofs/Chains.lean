import AssetCanvas.Summary
import AssetCanvas.Proofs.Assembling

/-!
# Chains of labels

The summary of a graph goes from the root along the first edge into every node.  In the layout of a
tree this edge comes from the first child of the asset of the node, so the labels are those of
`Asset.mainPath`, which starts at the tree and goes to the first nested asset each time:
`Graph.labelsFrom_eq` for any node that unfolds to the outline of an asset, and
`Layout.typeChain_mainPath` for every layout of a tree whose discriminants are not empty.
-/

namespace AssetCanvas

/-- The fields of an object. -/
def Json.object? : Json → Option Fields
  | .obj t => some t
  | _ => none

namespace Asset

/-! ### The main path -/

/-- The asset that a field holds, or the first one of an array of assets.  The discriminant holds
none, and neither does a list of disconnected trees. -/
def nested? (key : Key) (v : Json) : Option Fields :=
  match v with
  | .obj t => if key != typeKey && v.kind = .asset then some t else none
  | .arr items =>
    if key == disconnectedKey then none
    else if key != typeKey && v.kind = .assetArray then items.head?.bind Json.object?
    else none
  | _ => none

/-- The first asset that a field of an asset holds, with the field, in the order of the keys. -/
def firstNested? (fields : Fields) : Option (Key × Fields) :=
  fields.findSome? fun f => (nested? f.1 f.2).map fun t => (f.1, t)

/-- What a field holds first is the first child of its parts. -/
theorem nested?_eq (key : Key) (v : Json) :
  (nested? key v).map (fun t => (key, t))
    = ((valueParts key v).filterMap Part.child?).head?.map fun c => (c.key, c.fields)
  := by
  cases v with
  | obj t =>
    have hkind : decide ((Json.obj t).kind = .asset) = Entries.contains t (.text typeKey) := by
      rw [Bool.eq_iff_iff, decide_eq_true_iff, Json.kind_eq_asset_iff]
      rfl
    simp only [nested?, valueParts, hkind]
    split <;> rfl
  | arr items =>
    simp only [nested?, valueParts]
    split
    · rw [filterMap_child?_treeParts]
      rfl
    · split
      · rename_i h
        have hkind := of_decide_eq_true (Bool.and_eq_true_iff.mp h).2
        obtain ⟨ts, rfl⟩ := exists_objects (Json.isAsset_of_kind hkind).2
        rw [List.filterMap_cons_none rfl, itemParts_children]
        cases ts <;> rfl
      · rfl
  | _ => rfl

/-- The first nested asset is the first child. -/
theorem firstNested?_eq (fields : Fields) :
  firstNested? fields = (children fields).head?.map fun c => (c.key, c.fields)
  := by
  rw [children, parts, List.filterMap_flatMap, List.head?_flatMap, List.map_findSome?, firstNested?]
  congr 1
  funext f
  apply nested?_eq

theorem sizeOf_firstNested?_lt {fields t : Fields} {key : Key}
    (h : firstNested? fields = some (key, t)) :
  sizeOf t < sizeOf fields
  := by
  rw [firstNested?_eq] at h
  obtain ⟨c, hc, heq⟩ := Option.map_eq_some_iff.mp h
  obtain ⟨-, rfl⟩ := Prod.mk.inj heq
  apply sizeOf_lt_of_mem_parts (mem_children.mp (List.mem_of_mem_head? hc)) rfl

/-- The path that starts at an asset and goes to the first nested asset each time, until there is
none, with the fields that hold the assets. -/
def mainPath (parent : Option String) (fields : Fields) : List (Option String × Fields) :=
  (parent, fields) ::
    match _h : firstNested? fields with
    | some (key, t) => mainPath key.text? t
    | none => []
termination_by sizeOf fields
decreasing_by apply sizeOf_firstNested?_lt _h

theorem mainPath_eq (parent : Option String) (fields : Fields) :
  mainPath parent fields = (parent, fields)
    :: (children fields).head?.elim [] fun c => mainPath c.key.text? c.fields
  := by
  rw [mainPath]
  congr 1
  split
  · rename_i key t h
    rw [firstNested?_eq] at h
    obtain ⟨c, hc, heq⟩ := Option.map_eq_some_iff.mp h
    obtain ⟨rfl, rfl⟩ := Prod.mk.inj heq
    rw [hc, Option.elim_some]
  · rename_i h
    rw [firstNested?_eq, Option.map_eq_none_iff] at h
    rw [h, Option.elim_none]

/-- The path stays among the assets of the descent. -/
theorem reaches_of_mem_mainPath {parent : Option String} {fields : Fields}
    {a : Option String × Fields} (h : a ∈ mainPath parent fields) :
  Reaches parent fields a.1 a.2
  := by
  induction fields using Asset.induction generalizing parent with
  | step fields ih =>
    rw [mainPath_eq] at h
    rcases List.mem_cons.mp h with rfl | h
    · apply Reaches.here
    · cases hc : (children fields).head? with
      | none => simp [hc] at h
      | some c =>
        rw [hc] at h
        have hpart := mem_children.mp (List.mem_of_mem_head? hc)
        apply Reaches.step hpart rfl (ih _ hpart c.fields rfl h)

/-! ### Labels -/

/-- The label of an asset under a field. -/
def label (a : Option String × Fields) : String := (classify a.2 a.1).label

/-- Whether an asset has a text that is not empty as its discriminant. -/
def Titled (fields : Fields) : Prop :=
  ∃ type, Entries.find? fields (.text typeKey) = some (.str type) ∧ type ≠ ""

theorem Titled.label_ne_empty {fields : Fields} (h : Titled fields) (parent : Option String) :
  label (parent, fields) ≠ ""
  := by
  obtain ⟨type, htype, hne⟩ := h
  have htext : typeText (Json.field fields typeKey) = type := by
    simp [Json.field, htype, typeText, Json.text?]
  by_cases hv : isVectorConstant fields = true
  · simp [label, classify, hv, Label.vectorConstant]
  · simp only [label, classify, hv, htext, Label.resolve]
    cases Label.fieldCategory? parent with
    | none => apply hne
    | some category =>
      intro h
      have hlength := congrArg String.length h
      simp [Label.withCategory] at hlength

end Asset

namespace Graph

open Asset

theorem firstInput?_eq (g : Graph) (id : String) :
  g.firstInput? id = (g.inboundEdges id).head?.map Edge.source
  := by
  rw [firstInput?, inboundEdges, List.head?_filter]

/-- A node that unfolds to the outline of an asset has the content of the asset, and its first
input unfolds to the outline of the first child. -/
theorem first_of_unfold {g : Graph} {fresh : List String} {id : String} {parent : Option String}
    {fields : Fields} (h : g.unfold fresh id = outline parent fields) :
  ∃ n, Entries.find? g.nodeMap id = some n ∧ n.id = id ∧ n.content = content parent fields
    ∧ (children fields).head?.map (fun c => outline c.key.text? c.fields)
      = (g.firstInput? id).map (g.unfold (Walk.without fresh id))
  := by
  rw [unfold, outline_eq] at h
  split at h
  · split at h
    · cases h
    · rename_i n hn
      obtain ⟨hcontent, hinputs⟩ := Outline.node.inj h
      use n, hn, (mem_nodes_of_find? hn).2, hcontent
      have hheads := congrArg (fun inputs => inputs.head?.map Prod.snd) hinputs
      simp only [List.head?_map, Option.map_map] at hheads
      rw [firstInput?_eq, Option.map_map]
      exact hheads.symm
  · cases h

theorem labelsFrom_succ (g : Graph) (nodes : List (String × Node)) (depth : Nat) (n : Node) :
  g.labelsFrom nodes (depth + 1) n = (if n.label.truthy then [n.label] else [])
    ++ ((g.firstInput? n.id).bind (Entries.find? nodes)).elim [] (g.labelsFrom nodes depth)
  := by
  rw [labelsFrom]
  cases (g.firstInput? n.id).bind (Entries.find? nodes) with
  | none => split <;> rfl
  | some next => split <;> rfl

/-- The labels from a node on are those along the path of its asset. -/
theorem labelsFrom_eq {g : Graph} (depth : Nat) {fresh : List String} {id : String} {n : Node}
    {parent : Option String} {fields : Fields} (hn : Entries.find? g.nodeMap id = some n)
    (h : g.unfold fresh id = outline parent fields) :
  g.labelsFrom g.nodeMap depth n
    = ((((mainPath parent fields).take depth).map label).filter (· ≠ "")).map Json.str
  := by
  induction depth generalizing fresh id n parent fields with
  | zero => rfl
  | succ depth ih =>
    obtain ⟨n', hn', hid, hcontent, hfirst⟩ := first_of_unfold h
    obtain rfl : n' = n := Option.some.inj (hn'.symm.trans hn)
    have hlabel : n'.label = .str (label (parent, fields)) := congrArg Node.label hcontent
    have hrest : ((g.firstInput? n'.id).bind (Entries.find? g.nodeMap)).elim []
          (g.labelsFrom g.nodeMap depth)
        = (((((mainPath parent fields).tail).take depth).map label).filter (· ≠ "")).map
          Json.str := by
      rw [hid, mainPath_eq, List.tail_cons]
      cases hc : (children fields).head? with
      | none =>
        rw [hc, Option.map_none, eq_comm, Option.map_eq_none_iff] at hfirst
        simp [hfirst]
      | some c =>
        rw [hc, Option.map_some, eq_comm, Option.map_eq_some_iff] at hfirst
        obtain ⟨source, hsource, hunfold⟩ := hfirst
        obtain ⟨next, hnext, -⟩ := first_of_unfold hunfold
        rw [hsource, Option.bind_some, hnext]
        apply ih hnext hunfold
    rw [labelsFrom_succ, hrest, hlabel, mainPath_eq, List.take_succ_cons, List.tail_cons,
      List.map_cons]
    by_cases hempty : label (parent, fields) = ""
    · simp [Json.truthy, hempty]
    · simp [Json.truthy, hempty]

/-- The chain of a graph of the form of a layout lists the labels along the path of the tree. -/
theorem Realizes.typeChain_eq {g : Graph} {stem : String} {field : Option String} {fields : Fields}
    (h : g.Realizes (Layout.placeRoot stem field fields)) (depth : Int) :
  g.typeChain (.int depth) = .ok (Summary.separator.intercalate
    ((((mainPath field fields).take depth.toNat).map label).filter (· ≠ "")))
  := by
  obtain ⟨root, hroot, hid⟩ := h.exists_primaryRoot
  have hhead : g.roots.head? = some root := hroot
  have hfind := g.find?_nodeMap h.nodup_ids (mem_of_primaryRoot hroot)
  rw [hid] at hfind
  have htexts : ∀ labels : List String, (labels.map Json.str).mapM Json.text? = some labels := by
    intro labels
    induction labels with
    | nil => rfl
    | cons text rest ih =>
      rw [List.map_cons, List.mapM_cons, ih]
      rfl
  rw [typeChain, hhead]
  simp only [Json.index, Json.number, Json.number?, Fault.ok_bind, Fault.pure_eq_ok,
    labelsFrom_eq depth.toNat hfind h.unfold_root, htexts]

end Graph

namespace Layout

open Asset

/-- Any tree with titles whose names have a spelling and that fits into memory has a layout, if the
stem of the ids has a spelling, and the chain of every layout of a tree with titles lists the labels
of the first assets on the path from the tree to its first nested asset, to the first one of that,
and so on. -/
theorem typeChain_mainPath {fields : Fields} {field : Option String}
    (htitled : Everywhere (fun _ => Titled) field fields) (stem : Json) (start : Float × Float)
    (policy : LayoutPolicy) :
  (policy.Spaced → (stemValue policy stem).isSpellable = true →
      Everywhere (fun _ => Placeable) field fields →
      ∃ l, Layout.ofAsset (.obj fields) stem start (Json.ofOption field) policy = .ok l)
    ∧ ∀ l, Layout.ofAsset (.obj fields) stem start (Json.ofOption field) policy = .ok l →
      ∀ depth : Int, l.toGraph.typeChain (.int depth) = .ok (Summary.separator.intercalate
        (((mainPath field fields).take depth.toNat).map label))
  := by
  constructor
  · intro hp hstem hplaceable
    apply exists_ofAsset start hp hstem hplaceable
  · intro l hl depth
    have hlabels : (((mainPath field fields).take depth.toNat).map label).filter (· ≠ "")
        = ((mainPath field fields).take depth.toNat).map label := by
      rw [List.filter_eq_self]
      intro text hmem
      obtain ⟨a, ha, rfl⟩ := List.mem_map.mp hmem
      have hreach := reaches_of_mem_mainPath (List.mem_of_mem_take ha)
      exact decide_eq_true ((htitled a.1 a.2 hreach).label_ne_empty a.1)
    rw [(realizes_of_ofAsset hl).typeChain_eq, hlabels]

/-- A curve function with its curve. -/
def manualCurve : Fields := [("Type", .str "CurveFunction"), ("Curve", .obj (bare "Manual"))]

/-- A cache over a curve function and a zero, with a disconnected tree in front. -/
def cachedCurve : Fields :=
  [("$DisconnectedTrees", .arr [.obj (bare "Abs")]), ("Type", .str "CacheOnce"),
    ("Inputs", .arr [.obj manualCurve, .obj (bare "Zero")])]

theorem everywhere_titled_cachedCurve :
  Everywhere (fun _ t => Titled t ∧ Placeable t) none cachedCurve
  := by
  have hbare : ∀ parent type, type ≠ "" →
      Everywhere (fun _ t => Titled t ∧ Placeable t) parent (bare type) := by
    intro parent type hne
    apply everywhere_bare
    exact ⟨⟨type, rfl, hne⟩, (readable_bare parent type).placeable⟩
  have hcurve : Everywhere (fun _ t => Titled t ∧ Placeable t) (some "Inputs") manualCurve := by
    have hparts : parts manualCurve
        = [.plain "Type" (.str "CurveFunction"), .child ⟨"Curve", none, bare "Manual"⟩] := rfl
    apply Everywhere.of_parts
    · exact ⟨⟨_, rfl, by decide⟩, ⟨_, rfl⟩, by decide, by decide⟩
    · intro part hmem t ht
      rw [hparts] at hmem
      simp only [List.mem_cons, List.not_mem_nil, or_false] at hmem
      rcases hmem with rfl | rfl
      · cases ht
      · obtain rfl := Option.some.inj ht
        apply hbare _ _ (by decide)
  have hparts : parts cachedCurve = [.tree 0 (bare "Abs"), .plain "Type" (.str "CacheOnce"),
      .record "Inputs", .child ⟨"Inputs", some 0, manualCurve⟩,
      .child ⟨"Inputs", some 1, bare "Zero"⟩] := rfl
  apply Everywhere.of_parts
  · exact ⟨⟨_, rfl, by decide⟩, ⟨_, rfl⟩, by decide, by decide⟩
  · intro part hmem t ht
    rw [hparts] at hmem
    simp only [List.mem_cons, List.not_mem_nil, or_false] at hmem
    rcases hmem with rfl | rfl | rfl | rfl | rfl
    · obtain rfl := Option.some.inj ht
      apply hbare _ _ (by decide)
    · cases ht
    · cases ht
    · obtain rfl := Option.some.inj ht
      apply hcurve
    · obtain rfl := Option.some.inj ht
      apply hbare _ _ (by decide)

theorem mainPath_cachedCurve :
  mainPath none cachedCurve
    = [(none, cachedCurve), (some "Inputs", manualCurve), (some "Curve", bare "Manual")]
  := by
  have hroot : (children cachedCurve).head? = some ⟨"Inputs", some 0, manualCurve⟩ := rfl
  have hitem : (children manualCurve).head? = some ⟨"Curve", none, bare "Manual"⟩ := rfl
  have hleaf : (children (bare "Manual")).head? = none := rfl
  rw [mainPath_eq, hroot, Option.elim_some, mainPath_eq, hitem, Option.elim_some, mainPath_eq,
    hleaf, Option.elim_none]
  rfl

/-- The chain goes through the first item of the array, not through the disconnected tree. -/
theorem typeChain_cachedCurve :
  ∃ l, Layout.ofAsset (.obj cachedCurve) .null (0.0, 0.0) .null {} = .ok l
    ∧ l.toGraph.typeChain (.int 4) = .ok "CacheOnce -> CurveFunction -> Curve:Manual"
    ∧ l.toGraph.typeChain (.int 2) = .ok "CacheOnce -> CurveFunction"
  := by
  have htitled : Everywhere (fun _ => Titled) none cachedCurve :=
    fun parent t hreach => (everywhere_titled_cachedCurve parent t hreach).1
  have hplaceable : Everywhere (fun _ => Placeable) none cachedCurve :=
    fun parent t hreach => (everywhere_titled_cachedCurve parent t hreach).2
  obtain ⟨hexists, hchain⟩ := typeChain_mainPath htitled .null (0.0, 0.0) {}
  obtain ⟨l, hl⟩ := hexists LayoutPolicy.spaced_standard rfl hplaceable
  use l, hl
  rw [hchain l hl, hchain l hl, mainPath_cachedCurve]
  exact ⟨rfl, rfl⟩

end Layout

end AssetCanvas
