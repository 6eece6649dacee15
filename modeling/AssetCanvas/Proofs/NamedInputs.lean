import AssetCanvas.Proofs.Amending
import AssetCanvas.Proofs.Canonicalization
import AssetCanvas.Proofs.Replacing

/-!
# Inputs in the fields of their names

The inputs of a type that names them may be written as the items of `Inputs`, or in the fields of
the names.  The two forms, `Asset.SpellsOut`, give the same layout but for the record of array
fields: the children have the same labels, since no name gives a category, and feed the same ports,
since an item feeds the port of its name.  Densities do not look at the record, so the two forms
have the same densities in every tree, `Layout.ofAsset_spellsOut`.
-/

namespace AssetCanvas

namespace Asset

/-- The entries of some items under their names. -/
def spelled (names : List String) (items : List Json) : Fields :=
  List.zipWith (fun name v => (.text name, v)) names items

/-- Whether an asset without a category, whose type names the items of `Inputs`, is the same as
another one, but that the other one has the items in the fields of their names. -/
structure SpellsOut (parent : Option String) (names : List String) (items : List Json)
    (a a' : Fields) : Prop where
  category : Label.category (classify a parent).label = ""
  named : ∃ type, Json.field a typeKey = .str type
    ∧ Entries.find? Slot.namedInputs type = some names
  kind : (Json.arr items).kind = .assetArray
  length : items.length ≤ names.length
  free : ∀ name ∈ names, Entries.find? a (.text name) = none
  fields : ∃ before after, a = before ++ (.text Slot.arrayField, .arr items) :: after
    ∧ a' = before ++ spelled names items ++ after

/-- Where entries of an object are replaced, other keys find the same values. -/
theorem find?_middle {between between' : Fields} {k : Key} (h : Entries.find? between k = none)
    (h' : Entries.find? between' k = none) (before after : Fields) :
  Entries.find? (before ++ between ++ after) k = Entries.find? (before ++ between' ++ after) k
  := by
  simp only [Entries.find?_append, h, h']

theorem find?_spelled {names : List String} {s : String} (hs : s ∉ names) (items : List Json) :
  Entries.find? (spelled names items) (.text s) = none
  := by
  induction names generalizing items with
  | nil => rfl
  | cons name names ih =>
    cases items with
    | nil => rfl
    | cons v items =>
      rw [List.mem_cons, not_or] at hs
      obtain ⟨hname, hs⟩ := hs
      have hne : (Key.text name == Key.text s) = false := by
        simpa [Key.text_beq_text] using Ne.symm hname
      simp only [spelled, List.zipWith_cons_cons, Entries.find?, hne] at ih ⊢
      exact ih hs items

namespace SpellsOut

variable {parent : Option String} {names : List String} {items : List Json} {a a' : Fields}

theorem names_eq (h : SpellsOut parent names items a a') :
  Slot.names (classify a parent).assetType (.text Slot.arrayField) (classify a parent).label
    = names
  := by
  obtain ⟨type, htype, hnames⟩ := h.named
  simp [Slot.names, Slot.allowsNames, h.category, assetType_classify, htype, Slot.portNames, hnames]

/-- A key that is neither `Inputs` nor a name finds the same in both forms. -/
theorem find?_eq (h : SpellsOut parent names items a a') {s : String} (hinput : Slot.arrayField ≠ s)
    (hs : s ∉ names) :
  Entries.find? a (.text s) = Entries.find? a' (.text s)
  := by
  obtain ⟨before, after, rfl, rfl⟩ := h.fields
  have harray : Entries.find? [(Key.text Slot.arrayField, Json.arr items)] (.text s) = none := by
    simp [Entries.find?, Key.text_beq_text, hinput]
  have hmiddle := find?_middle harray (find?_spelled hs items) before after
  rwa [List.append_assoc, List.singleton_append] at hmiddle

/-- No name is a key that tells assets or vectors. -/
theorem not_mem_names (h : SpellsOut parent names items a a') :
  typeKey ∉ names ∧ "Value" ∉ names
  := by
  have htable : ∀ entry ∈ Slot.namedInputs, typeKey ∉ entry.2 ∧ "Value" ∉ entry.2 := by decide
  obtain ⟨type, -, hnames⟩ := h.named
  obtain ⟨type', -, hmem⟩ := Entries.mem_of_find? hnames
  exact htable _ hmem

theorem contains_eq (h : SpellsOut parent names items a a') :
  Entries.contains a typeKey = Entries.contains a' typeKey
  := by
  rw [Entries.contains, Entries.contains, h.find?_eq (by decide) h.not_mem_names.1]

theorem classify_eq (h : SpellsOut parent names items a a') : classify a = classify a'
  := by
  apply classify_congr_fields
  · rw [Json.field, Json.field, h.find?_eq (by decide) h.not_mem_names.1]
  · rw [Json.field, Json.field, h.find?_eq (by decide) h.not_mem_names.2]

end SpellsOut

end Asset

/-! ### Fragments -/

namespace Layout

open Asset

variable {stem : String} {owner : Owner} {names : List String}

/-- An item is laid out alike under its name. -/
theorem like_named (stem : String)
    (hnames : Slot.names owner.assetType (.text Slot.arrayField) owner.label = names)
    {k : Nat} {name : String} (hname : names[k]? = some name) (fields : Fields) (n index : Nat) :
  (placePart stem owner n index (.child ⟨.text Slot.arrayField, some k, fields⟩)).Like Eq
    (placePart stem owner n index (.child ⟨.text name, none, fields⟩))
  := by
  have hmem := List.mem_of_getElem? hname
  rw [← hnames] at hname hmem
  have hroot : ∀ place, Owner.ofAsset stem n place (some Slot.arrayField) fields
      = Owner.ofAsset stem n place (some name) fields := by
    have hcategory : Label.fieldCategory? (some Slot.arrayField)
        = Label.fieldCategory? (some name) := by
      rw [Slot.fieldCategory?_of_mem_names hmem]
      rfl
    intro place
    rw [Owner.ofAsset, Owner.ofAsset, classify_congr hcategory]
  have hchild : childOwner stem owner n index ⟨.text Slot.arrayField, some k, fields⟩
      = childOwner stem owner n index ⟨.text name, none, fields⟩ := hroot _
  have hport : childPort owner.assetType owner.label ⟨.text Slot.arrayField, some k, fields⟩
      = childPort owner.assetType owner.label ⟨.text name, none, fields⟩ := by
    simp only [childPort, Slot.itemPort, hname, Option.getD_some, Migration.currentOf_text]
  have hnameable : Slot.nameable owner.assetType owner.label = true := by
    obtain ⟨type, s, htype, -⟩ := Slot.mem_names_iff.mp hmem
    simp [Slot.nameable, htype, Json.key?]
  constructor
  · rfl
  · rfl
  · simp only [placePart, Fragment.ofChild, hchild]
  · simp only [placePart, Fragment.ofChild, hchild, hport]
  · -- the checks that come with an item and with a field under a name pass
    intro policy start
    have hpasses : ∀ c : Child, (∃ s, c.key = .text s) →
        (childChecks owner c).forM (Check.run policy start) = .ok () := by
      rintro c ⟨s, hkey⟩
      rw [Fault.forM_eq_ok_iff, run_childChecks_iff, hkey]
      exact ⟨fun _ => hnameable, rfl⟩
    rw [checks_placePart_child, checks_placePart_child, forM_append, forM_append,
      hpasses _ ⟨_, rfl⟩, hpasses _ ⟨_, rfl⟩]
    simp only [placeAsset, Key.text?, hroot]

/-- Items are laid out alike under their names. -/
theorem like_spelled
    (hnames : Slot.names owner.assetType (.text Slot.arrayField) owner.label = names)
    (htype : typeKey ∉ names) {items : List Json} (hassets : ∀ v ∈ items, v.isAsset = true)
    {k : Nat} (hlength : k + items.length ≤ names.length) (n index : Nat) :
  (placeParts stem owner n index (itemParts (.text Slot.arrayField) k items)).Like Eq
    (placeParts stem owner n index (parts (spelled (names.drop k) items)))
  := by
  induction items generalizing k n index with
  | nil =>
    have hnil : spelled (names.drop k) [] = [] := List.zipWith_nil_right
    rw [hnil]
    exact .refl _
  | cons v items ih =>
    rw [List.length_cons] at hlength
    rw [List.forall_mem_cons] at hassets
    cases v with
    | obj fields =>
      have hk : k < names.length := by omega
      have hname := List.getElem?_eq_getElem hk
      have hne : names[k] ≠ typeKey := fun heq => htype (heq ▸ List.getElem_mem hk)
      have hfirst := like_named stem hnames hname fields n index
      have hparts : parts (spelled (names.drop k) (.obj fields :: items))
          = .child ⟨.text names[k], none, fields⟩
            :: parts (spelled (names.drop (k + 1)) items) := by
        rw [List.drop_eq_getElem_cons hk, spelled, List.zipWith_cons_cons, parts_cons,
          valueParts_asset hne hassets.1]
        rfl
      rw [hparts, itemParts, placeParts, placeParts, ← hfirst.nodes, ← hfirst.children]
      exact hfirst.append (ih hassets.2 (by omega) _ _)
    | _ => cases hassets.1

/-- The record of a field is no more than a record. -/
theorem like_record (key : Key) (ps : List Part) (n index : Nat) :
  (placeParts stem owner n index (.record key :: ps)).Like Eq (placeParts stem owner n index ps)
  := by
  have hrecord : Fragment.Like Eq { arrays := [key] } {} := ⟨rfl, rfl, rfl, rfl, fun _ _ => rfl⟩
  have happend := hrecord.append (.refl (placeParts stem owner n index ps))
  rwa [Fragment.empty_append] at happend

end Layout

/-- An asset may stand for the one whose inputs it has in the fields of their names. -/
theorem Asset.SpellsOut.replaces {parent : Option String} {names : List String}
    {items : List Json} {a a' : Fields} (h : SpellsOut parent names items a a') :
  Layout.Replaces parent a a'
  where
  contains := h.contains_eq
  label := by rw [h.classify_eq]
  fields stem n place := by
    obtain ⟨hne, hassets⟩ := Json.isAsset_of_kind h.kind
    obtain ⟨before, after, ha, ha'⟩ := h.fields
    have hparts : parts a = parts before
        ++ (.record (.text Slot.arrayField) :: itemParts (.text Slot.arrayField) 0 items)
        ++ parts after := by
      rw [ha, parts_append, parts_cons, valueParts_assets (by decide) (by decide) hne hassets,
        List.append_assoc]
    have hparts' : parts a' = parts before ++ parts (spelled (names.drop 0) items)
        ++ parts after := by
      rw [ha', parts_append, parts_append, List.drop_zero]
    rw [Layout.placeFields_eq, Layout.placeFields_eq, hparts, hparts']
    apply Layout.like_placeParts Layout.contextual_eq
    intro n index
    have hlength : 0 + items.length ≤ names.length := by
      rw [Nat.zero_add]
      exact h.length
    exact (Layout.like_record _ _ n index).trans
      (Layout.like_spelled h.names_eq h.not_mem_names.1 hassets hlength n index)

/-! ### Previews -/

/-- A node without the record of its array fields. -/
def Node.unrecorded (n : Node) : Node := { n with arrayFields := .null }

theorem Node.amends_unrecorded : Amends unrecorded
  := ⟨fun _ => rfl, fun _ => rfl, fun _ => rfl, fun _ => rfl, fun _ => rfl⟩

theorem map_modify {α β : Type} {f : α → β} {change : α → α} (h : ∀ a, f (change a) = f a)
    (l : List α) (k : Nat) :
  (l.modify k change).map f = l.map f
  := by
  induction l generalizing k with
  | nil => cases k <;> rfl
  | cons a rest ih => cases k <;> simp [h, ih]

/-- Records do not matter for densities. -/
theorem DensityGrid.ofGraph_modify (g : Graph) (k : Nat) (record : Json)
    (resolution low high height rootId : Json) (policy : EvaluationPolicy) (seed : Json) :
  ofGraph { g with nodes := g.nodes.modify k fun n => { n with arrayFields := record } }
      resolution low high height rootId policy seed
    = ofGraph g resolution low high height rootId policy seed
  := by
  have hfields : ∀ n : Node, n.unrecorded.fields = n.fields := fun _ => rfl
  have hmap : (g.nodes.modify k fun n => { n with arrayFields := record }).map Node.unrecorded
      = g.nodes.map Node.unrecorded := by
    apply map_modify
    intro n
    rfl
  rw [← ofGraph_mapNodes Node.amends_unrecorded hfields,
    ← ofGraph_mapNodes (g := g) Node.amends_unrecorded hfields]
  simp only [Graph.mapNodes, hmap]

namespace Layout

open Asset

/-- In every tree, an asset with the items of `Inputs` and the asset with the items in the fields of
their names have the same layout, but for the record of array fields and for warnings, and the same
densities. -/
theorem ofAsset_spellsOut {p q : Option String} {names : List String} {items : List Json}
    {a a' t t' : Fields} (h : SpellsOut q names items a a')
    (hwithin : Within q a a' p t t') (stem : Json) (start : Float × Float)
    (policy : LayoutPolicy) :
  ∃ k warnings, Layout.ofAsset (.obj t') stem start (Json.ofOption p) policy
      = (fun l => { l with
          nodes := l.nodes.modify k fun n => { n with arrayFields := recordOf a' }, warnings })
        <$> Layout.ofAsset (.obj t) stem start (Json.ofOption p) policy
    ∧ ∀ l, Layout.ofAsset (.obj t) stem start (Json.ofOption p) policy = .ok l →
      (∃ n, l.nodes[k]? = some n ∧ n.label = .str (classify a q).label
        ∧ n.assetType = (classify a q).assetType ∧ n.fields = .obj (plain a)
        ∧ n.arrayFields = recordOf a)
      ∧ ∀ l', Layout.ofAsset (.obj t') stem start (Json.ofOption p) policy = .ok l' →
        ∀ resolution low high height rootId evaluation seed,
          DensityGrid.ofGraph l'.toGraph resolution low high height rootId evaluation seed
            = DensityGrid.ofGraph l.toGraph resolution low high height rootId evaluation seed
  := by
  obtain ⟨k, warnings, hlayout, hnode⟩ := h.replaces.ofAsset hwithin stem start policy
  refine ⟨k, warnings, hlayout, fun l hl => ⟨hnode l hl, ?_⟩⟩
  intro l' hl' resolution low high height rootId evaluation seed
  rw [hlayout, hl] at hl'
  rw [← Except.ok.inj hl']
  exact DensityGrid.ofGraph_modify l.toGraph k _ _ _ _ _ _ _ _

/-- A blend of two assets. -/
def listedBlend : Fields :=
  [("Type", .str "Blend"), ("Inputs", .arr [.obj (bare "Zero"), .obj (bare "One")])]

/-- The blend with its inputs in the fields of their names. -/
def namedBlend : Fields :=
  [("Type", .str "Blend"), ("InputA", .obj (bare "Zero")), ("InputB", .obj (bare "One"))]

/-- An asset negated. -/
def negated (fields : Fields) : Fields := [("Type", .str "Negate"), ("Input", .obj fields)]

/-- Both forms of a negated blend have a layout with three edges, and equal densities. -/
theorem ofAsset_spellsOut_negated :
  ∃ l l', Layout.ofAsset (.obj (negated listedBlend)) .null (0.0, 0.0) .null {} = .ok l
    ∧ Layout.ofAsset (.obj (negated namedBlend)) .null (0.0, 0.0) .null {} = .ok l'
    ∧ l'.edges = l.edges ∧ l.edges.length = 3
    ∧ ∀ resolution low high height rootId evaluation seed,
      DensityGrid.ofGraph l'.toGraph resolution low high height rootId evaluation seed
        = DensityGrid.ofGraph l.toGraph resolution low high height rootId evaluation seed
  := by
  have hspells : SpellsOut (some "Input") ["InputA", "InputB", "Factor"]
      [.obj (bare "Zero"), .obj (bare "One")] listedBlend namedBlend := by
    refine ⟨by decide, ⟨"Blend", rfl, by decide⟩, by decide, by decide, by decide, ?_⟩
    exact ⟨[("Type", .str "Blend")], [], rfl, rfl⟩
  have hwithin : Within (some "Input") listedBlend namedBlend none (negated listedBlend)
      (negated namedBlend) := .nested [("Type", .str "Negate")] [] (by decide) (by decide) .here
  obtain ⟨k, warnings, hlayout, hall⟩ := ofAsset_spellsOut hspells hwithin .null (0.0, 0.0) {}
  obtain ⟨l, hl⟩ : ∃ l, Layout.ofAsset (.obj (negated listedBlend)) .null (0.0, 0.0)
      (Json.ofOption none) {} = .ok l := ⟨_, rfl⟩
  rw [hl] at hlayout
  have hedges : l.edges = (placeRoot "graph" none (negated listedBlend)).edges :=
    (ofAsset_eq_ok hl).2.1
  refine ⟨l, _, hl, hlayout, rfl, ?_, (hall l hl).2 _ hlayout⟩
  rw [hedges]
  rfl

end Layout

end AssetCanvas
