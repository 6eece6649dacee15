import AssetCanvas.Proofs.Placement

/-!
# Replacing an asset in a tree

`Asset.Within` says that two trees are the same but for one asset, which a descent comes to, and
`Layout.Replaces` that an asset may stand for another one: both have the same label and give the
same fragments of a layout but for the record of array fields.  Then the layouts of the trees
are the same but for the record of the node of that asset, `Layout.Replaces.ofAsset`.  What is
replaced matters only where the fragments of the two assets are compared; the way up to the root
is the same for all of them, `Layout.like_placeAsset`.
-/

namespace AssetCanvas

namespace Asset

/-! ### Trees with one asset replaced -/

/-- Whether two trees are the same but that one has the asset `a'` where the other one has `a`.  A
descent comes to these assets under the field `q`, and to the trees under the field `p`. -/
inductive Within (q : Option String) (a a' : Fields) : Option String → Fields → Fields → Prop
  | here : Within q a a' q a a'
  | nested {p : Option String} (before after : Fields) {key : Key} {t t' : Fields} :
    (key != typeKey) = true → Entries.contains t typeKey = true →
      Within q a a' key.text? t t' →
        Within q a a' p (before ++ (key, .obj t) :: after) (before ++ (key, .obj t') :: after)
  | item {p : Option String} (before after : Fields) {key : Key} (items rest : List Json)
    {t t' : Fields} :
    (key != typeKey) = true → (key == disconnectedKey) = false →
      (Json.arr (items ++ .obj t :: rest)).kind = .assetArray →
        Within q a a' key.text? t t' →
          Within q a a' p (before ++ (key, .arr (items ++ .obj t :: rest)) :: after)
            (before ++ (key, .arr (items ++ .obj t' :: rest)) :: after)
  | tree {p : Option String} (before after : Fields) (items rest : List Json) {t t' : Fields} :
    Entries.contains t typeKey = true → Within q a a' none t t' →
      Within q a a' p (before ++ (.text disconnectedKey, .arr (items ++ .obj t :: rest)) :: after)
        (before ++ (.text disconnectedKey, .arr (items ++ .obj t' :: rest)) :: after)

/-! ### Labels -/

/-- Whether a value counts as a vector of a constant. -/
def isVectorValue : Json → Bool
  | .obj value => !Entries.contains value typeKey && Entries.contains value "x"
  | _ => false

theorem isVectorConstant_eq (fields : Fields) :
  isVectorConstant fields
    = (match Json.field fields typeKey with
      | .str "Constant" => isVectorValue (Json.field fields "Value")
      | _ => false)
  := by
  rw [isVectorConstant]
  split
  next htype hvalue => rw [htype, hvalue]; rfl
  next h =>
    split
    next htype =>
      cases hvalue : Json.field fields "Value" with
      | obj value => exact (h value htype hvalue).elim
      | _ => rfl
    · rfl

/-- The label of an asset depends on its discriminant, and on whether it has a vector. -/
theorem classify_congr_fields {t t' : Fields} (htype : Json.field t typeKey = Json.field t' typeKey)
    (hvalue : isVectorValue (Json.field t "Value") = isVectorValue (Json.field t' "Value")) :
  classify t = classify t'
  := by
  have hvector : isVectorConstant t = isVectorConstant t' := by
    rw [isVectorConstant_eq, isVectorConstant_eq, htype, hvalue]
  funext parent
  simp only [classify, hvector, htype]

section Fields

variable (before after : Fields) {key : Key} {v v' : Json}

/-- Where the value of an entry is replaced, only its own key finds another value. -/
theorem find?_replaced (key : Key) (v v' : Json) (k : Key) :
  Entries.find? (before ++ (key, v) :: after) k = Entries.find? (before ++ (key, v') :: after) k
    ∨ (key == k) = true ∧ Entries.find? (before ++ (key, v) :: after) k = some v
      ∧ Entries.find? (before ++ (key, v') :: after) k = some v'
  := by
  rw [Entries.find?_append, Entries.find?_append]
  cases Entries.find? before k with
  | some w => exact .inl rfl
  | none =>
    by_cases hk : (key == k) = true
    · simp [Entries.find?, hk]
    · simp [Entries.find?, hk]

theorem contains_replaced (k : Key) :
  Entries.contains (before ++ (key, v) :: after) k
    = Entries.contains (before ++ (key, v') :: after) k
  := by
  rw [Entries.contains, Entries.contains]
  rcases find?_replaced before after key v v' k with h | ⟨-, h, h'⟩
  · rw [h]
  · rw [h, h']
    rfl

/-- An asset keeps its label if no vector is replaced, and none is put in. -/
theorem classify_replaced (hkey : (key != typeKey) = true) (hv : isVectorValue v = false)
    (hv' : isVectorValue v' = false) :
  classify (before ++ (key, v) :: after) = classify (before ++ (key, v') :: after)
  := by
  apply classify_congr_fields
  · rcases find?_replaced before after key v v' typeKey with h | ⟨h, -, -⟩
    · rw [Json.field, Json.field, h]
    · simp [bne, h] at hkey
  · rcases find?_replaced before after key v v' "Value" with h | ⟨-, h, h'⟩
    · rw [Json.field, Json.field, h]
    · rw [Json.field, Json.field, h, h', Option.getD_some, Option.getD_some, hv, hv']

end Fields

/-! ### Parts -/

/-- The part with another asset below it. -/
def Part.withAsset (t : Fields) : Part → Part
  | .child c => .child { c with fields := t }
  | .tree index _ => .tree index t
  | part => part

/-- Whether two trees have the same parts but for one, which has the asset `s` in the one tree and
the asset `s'` in the other one. -/
def Swapped (q : Option String) (s s' t t' : Fields) : Prop :=
  ∃ before part after, part.parent? = q ∧ part.asset? = some s
    ∧ parts t = before ++ part :: after ∧ parts t' = before ++ part.withAsset s' :: after

theorem itemParts_append (key : Key) (index : Nat) (items rest : List Json) :
  itemParts key index (items ++ rest)
    = itemParts key index items ++ itemParts key (index + items.length) rest
  := by
  induction items generalizing index with
  | nil => rfl
  | cons v items ih =>
    have hindex : index + 1 + items.length = index + (items.length + 1) := by omega
    cases v <;> simp [itemParts, ih, hindex]

theorem treeParts_append (index : Nat) (items rest : List Json) :
  treeParts index (items ++ rest)
    = treeParts index items ++ treeParts (index + items.length) rest
  := by
  induction items generalizing index with
  | nil => rfl
  | cons v items ih =>
    have hindex : index + 1 + items.length = index + (items.length + 1) := by omega
    simp [treeParts, ih, hindex]

theorem parts_append (before after : Fields) :
  parts (before ++ after) = parts before ++ parts after
  := List.flatMap_append

theorem parts_cons (key : Key) (v : Json) (after : Fields) :
  parts ((key, v) :: after) = valueParts key v ++ parts after
  := List.flatMap_cons

/-- A part of the value of an entry is a part of the asset. -/
theorem Swapped.of_valueParts {q : Option String} {s s' : Fields} (before after : Fields)
    {key : Key} {v v' : Json} (left : List Part) (part : Part) (right : List Part)
    (hq : part.parent? = q) (hs : part.asset? = some s)
    (hv : valueParts key v = left ++ part :: right)
    (hv' : valueParts key v' = left ++ part.withAsset s' :: right) :
  Swapped q s s' (before ++ (key, v) :: after) (before ++ (key, v') :: after)
  := by
  refine ⟨parts before ++ left, part, right ++ parts after, hq, hs, ?_, ?_⟩
  · simp [parts_append, parts_cons, hv]
  · simp [parts_append, parts_cons, hv']

namespace Within

variable {p q : Option String} {a a' t t' : Fields}

/-- A tree is an asset if the one with the other asset is. -/
theorem contains_eq (h : Within q a a' p t t')
    (ha : Entries.contains a typeKey = Entries.contains a' typeKey) :
  Entries.contains t typeKey = Entries.contains t' typeKey
  := by
  cases h with
  | here => exact ha
  | nested before after => apply contains_replaced
  | item before after => apply contains_replaced
  | tree before after => apply contains_replaced

theorem kind_replaced (h : Within q a a' p t t')
    (ha : Entries.contains a typeKey = Entries.contains a' typeKey) (items rest : List Json) :
  (Json.arr (items ++ .obj t :: rest)).kind = (Json.arr (items ++ .obj t' :: rest)).kind
  := by
  have hasset : (Json.obj t).isAsset = (Json.obj t').isAsset := h.contains_eq ha
  simp [Json.kind, hasset]

theorem classify_eq (h : Within q a a' p t t')
    (ha : Entries.contains a typeKey = Entries.contains a' typeKey)
    (hclass : classify a q = classify a' q) :
  classify t p = classify t' p
  := by
  have hasset : ∀ {t : Fields}, Entries.contains t typeKey = true →
      isVectorValue (.obj t) = false := fun ht => by simp [isVectorValue, ht]
  have harray : ∀ items, isVectorValue (.arr items) = false := fun _ => rfl
  cases h with
  | here => exact hclass
  | nested before after hkey ht hwithin =>
    have ht' := ht
    rw [hwithin.contains_eq ha] at ht'
    rw [classify_replaced before after hkey (hasset ht) (hasset ht')]
  | item before after items rest hkey =>
    rw [classify_replaced before after hkey (harray _) (harray _)]
  | tree before after items rest =>
    rw [classify_replaced before after (by decide) (harray _) (harray _)]

theorem swapped_nested (before after : Fields) {key : Key} (hkey : (key != typeKey) = true)
    (ht : Entries.contains t typeKey = true) (ht' : Entries.contains t' typeKey = true) :
  Swapped key.text? t t' (before ++ (key, .obj t) :: after) (before ++ (key, .obj t') :: after)
  := by
  apply Swapped.of_valueParts before after [] (.child ⟨key, none, t⟩) [] rfl rfl
  · simp [valueParts, hkey, ht]
  · simp [valueParts, hkey, ht', Part.withAsset]

theorem swapped_item (before after : Fields) {key : Key} (items rest : List Json)
    (hkey : (key != typeKey) = true) (hlist : (key == disconnectedKey) = false)
    (hkind : (Json.arr (items ++ .obj t :: rest)).kind = .assetArray)
    (hkind' : (Json.arr (items ++ .obj t' :: rest)).kind = .assetArray) :
  Swapped key.text? t t' (before ++ (key, .arr (items ++ .obj t :: rest)) :: after)
    (before ++ (key, .arr (items ++ .obj t' :: rest)) :: after)
  := by
  apply Swapped.of_valueParts before after (.record key :: itemParts key 0 items)
    (.child ⟨key, some items.length, t⟩) (itemParts key (items.length + 1) rest) rfl rfl
  · simp [valueParts, hkey, hlist, hkind, itemParts_append, itemParts]
  · simp [valueParts, hkey, hlist, hkind', itemParts_append, itemParts, Part.withAsset]

theorem swapped_tree (before after : Fields) (items rest : List Json)
    (ht : Entries.contains t typeKey = true) (ht' : Entries.contains t' typeKey = true) :
  Swapped none t t' (before ++ (.text disconnectedKey, .arr (items ++ .obj t :: rest)) :: after)
    (before ++ (.text disconnectedKey, .arr (items ++ .obj t' :: rest)) :: after)
  := by
  apply Swapped.of_valueParts before after (treeParts 0 items) (.tree items.length t)
    (treeParts (items.length + 1) rest) rfl rfl
  · simp [valueParts, treeParts_append, treeParts, treePart, ht]
  · simp [valueParts, treeParts_append, treeParts, treePart, ht', Part.withAsset]

end Within

end Asset

/-! ### Items that change -/

/-- Changing an item of a list before an operation on all items is changing its outcome. -/
theorem Fault.mapM_modify {α β : Type} {f : α → Except Fault β} {change : α → α} {change' : β → β}
    (h : ∀ a, f (change a) = change' <$> f a) (l : List α) (k : Nat) :
  (l.modify k change).mapM f = (fun l => l.modify k change') <$> l.mapM f
  := by
  induction l generalizing k with
  | nil => cases k <;> rfl
  | cons a rest ih =>
    cases k with
    | zero =>
      simp only [List.modify_zero_cons, List.mapM_cons, h]
      cases f a with
      | error e => rfl
      | ok b => cases rest.mapM f <;> rfl
    | succ k =>
      simp only [List.modify_succ_cons, List.mapM_cons, ih]
      cases f a with
      | error e => rfl
      | ok b => cases rest.mapM f <;> rfl

theorem modify_length {α : Type} (change : α → α) (before after : List α) (a : α) :
  (before ++ a :: after).modify before.length change = before ++ change a :: after
  := by
  induction before with
  | nil => rfl
  | cons b before ih => simp [ih]

/-! ### Fragments -/

namespace Layout

open Asset

/-- The fragment of an asset with the assets below it. -/
def placeAsset (stem : String) (n : Nat) (place : Place) (parent : Option String)
    (fields : Fields) : Fragment :=
  let root := Owner.ofAsset stem n place parent fields
  .ofTree root (placeFields stem root (n + 1) 0 fields)

theorem forM_append (policy : LayoutPolicy) (start : Float × Float) (checks checks' : List Check) :
  (checks ++ checks').forM (Check.run policy start)
    = checks.forM (Check.run policy start) >>= fun _ => checks'.forM (Check.run policy start)
  := List.forM_append

/-- A relation of lists of nodes that is kept among other nodes. -/
structure Contextual (R : List PlacedNode → List PlacedNode → Prop) : Prop where
  length {ns ns' : List PlacedNode} : R ns ns' → ns.length = ns'.length
  among {ns ns' : List PlacedNode} (before after : List PlacedNode) :
    R ns ns' → R (before ++ ns ++ after) (before ++ ns' ++ after)

theorem contextual_eq : Contextual Eq := ⟨congrArg List.length, fun _ _ h => by rw [h]⟩

theorem Contextual.cons {R : List PlacedNode → List PlacedNode → Prop} (hR : Contextual R)
    (n : PlacedNode) {ns ns' : List PlacedNode} (h : R ns ns') :
  R (n :: ns) (n :: ns')
  := by
  have hamong := hR.among [n] [] h
  rwa [List.append_nil, List.append_nil] at hamong

/-- Two fragments that give the same, with related nodes, but for warnings and records.  Their
checks are not the same ones, but fail together. -/
structure Fragment.Like (R : List PlacedNode → List PlacedNode → Prop) (F F' : Fragment) :
    Prop where
  plain : F.plain = F'.plain
  children : F.children = F'.children
  nodes : R F.nodes F'.nodes
  edges : F.edges = F'.edges
  checks (policy : LayoutPolicy) (start : Float × Float) :
    F.checks.forM (Check.run policy start) = F'.checks.forM (Check.run policy start)

variable {R : List PlacedNode → List PlacedNode → Prop} {stem : String} {owner : Owner}

namespace Fragment.Like

variable {F F' G G' : Fragment}

theorem refl (F : Fragment) : Like Eq F F := ⟨rfl, rfl, rfl, rfl, fun _ _ => rfl⟩

theorem trans {H : Fragment} (h : Like Eq F G) (h' : Like R G H) : Like R F H
  where
  plain := h.plain.trans h'.plain
  children := h.children.trans h'.children
  nodes := h.nodes ▸ h'.nodes
  edges := h.edges.trans h'.edges
  checks policy start := (h.checks policy start).trans (h'.checks policy start)

theorem append (h : Like Eq F F') (h' : Like Eq G G') : Like Eq (F ++ G) (F' ++ G')
  where
  plain := by rw [plain_append, plain_append, h.plain, h'.plain]
  children := by rw [children_append, children_append, h.children, h'.children]
  nodes := by rw [nodes_append, nodes_append, h.nodes, h'.nodes]
  edges := by rw [edges_append, edges_append, h.edges, h'.edges]
  checks policy start := by
    rw [checks_append, checks_append, forM_append, forM_append, h.checks, h'.checks]

theorem among (hR : Contextual R) (h : Like R F F') (G H : Fragment) :
  Like R (G ++ F ++ H) (G ++ F' ++ H)
  where
  plain := by simp only [plain_append, h.plain]
  children := by simp only [children_append, h.children]
  nodes := hR.among G.nodes H.nodes h.nodes
  edges := by simp only [edges_append, h.edges]
  checks policy start := by simp only [checks_append, forM_append, h.checks]

/-- Assets are laid out alike where their fields are. -/
theorem ofTree {S : List PlacedNode → List PlacedNode → Prop} (h : Like S F F') {root : Owner}
    (hnodes : R (F.close root) (F'.close root)) :
  Like R (.ofTree root F) (.ofTree root F')
  where
  plain := rfl
  children := rfl
  nodes := hnodes
  edges := h.edges
  checks policy start := by
    have hcons : ∀ F : Fragment, (Fragment.ofTree root F).checks = [.room root.place] ++ F.checks :=
      fun _ => rfl
    rw [hcons, hcons, forM_append, forM_append, h.checks]

end Fragment.Like

/-- Parts are laid out alike with some of them replaced by parts that are laid out alike. -/
theorem like_placeParts (hR : Contextual R) {middle middle' : List Part}
    (h : ∀ n index, (placeParts stem owner n index middle).Like R
      (placeParts stem owner n index middle'))
    (n index : Nat) (before after : List Part) :
  (placeParts stem owner n index (before ++ middle ++ after)).Like R
    (placeParts stem owner n index (before ++ middle' ++ after))
  := by
  have hmiddle := h (n + (placeParts stem owner n index before).nodes.length)
    (index + (placeParts stem owner n index before).children)
  simp only [placeParts_append, Fragment.nodes_append, Fragment.children_append,
    List.length_append, hR.length hmiddle.nodes, hmiddle.children]
  exact hmiddle.among hR _ _

theorem checks_placePart_child (n index : Nat) (c : Child) :
  (placePart stem owner n index (.child c)).checks
    = (placeAsset stem n (.child owner.place index) c.key.text? c.fields).checks
      ++ childChecks owner c
  := rfl

/-- A child or a disconnected tree is laid out alike with an asset that is laid out alike. -/
theorem like_placePart {part : Part} {s s' : Fields} (hs : part.asset? = some s)
    (h : ∀ n place, (placeAsset stem n place part.parent? s).Like R
      (placeAsset stem n place part.parent? s'))
    (n index : Nat) :
  (placePart stem owner n index part).Like R (placePart stem owner n index (part.withAsset s'))
  := by
  cases part with
  | child c =>
    obtain rfl := Option.some.inj hs
    have hchild := h n (.child owner.place index)
    constructor
    · rfl
    · rfl
    · exact hchild.nodes
    · exact congrArg (· ++ [Edge.link (nodeId stem (n + 1)) owner.id
        (childPort owner.assetType owner.label c)]) hchild.edges
    · intro policy start
      rw [Part.withAsset, checks_placePart_child, checks_placePart_child, forM_append, forM_append]
      exact congrArg (· >>= fun _ => _) (hchild.checks policy start)
  | tree index t =>
    obtain rfl := Option.some.inj hs
    exact h n (.tree owner.place index)
  | _ => cases hs

/-- An asset is laid out alike with one of its parts replaced by one that is laid out alike. -/
theorem like_of_swapped (hR : Contextual R) {p q : Option String} {s s' t t' : Fields}
    (hswapped : Swapped q s s' t t') (hclass : classify t p = classify t' p)
    (h : ∀ n place, (placeAsset stem n place q s).Like R (placeAsset stem n place q s'))
    (n : Nat) (place : Place) :
  (placeAsset stem n place p t).Like R (placeAsset stem n place p t')
  := by
  obtain ⟨before, part, after, rfl, hs, ht, ht'⟩ := hswapped
  have hbody : (placeFields stem (.ofAsset stem n place p t) (n + 1) 0 t).Like R
      (placeFields stem (.ofAsset stem n place p t) (n + 1) 0 t') := by
    rw [placeFields_eq, placeFields_eq, ht, ht', List.append_cons before part,
      List.append_cons before (part.withAsset s')]
    apply like_placeParts hR
    intro n index
    rw [placeParts_singleton, placeParts_singleton]
    exact like_placePart hs h n index
  have harrays : (placeFields stem (.ofAsset stem n place p t) (n + 1) 0 t).arrays
      = (placeFields stem (.ofAsset stem n place p t) (n + 1) 0 t').arrays := by
    have hrecord : (part.withAsset s').record? = part.record? := by cases part <;> rfl
    rw [placeFields_eq, placeFields_eq, placeParts_arrays, placeParts_arrays, ht, ht']
    simp only [List.filterMap_append, List.filterMap_cons, hrecord]
  have hroot : Owner.ofAsset stem n place p t' = Owner.ofAsset stem n place p t := by
    rw [Owner.ofAsset, Owner.ofAsset, hclass]
  rw [placeAsset, placeAsset, hroot]
  apply hbody.ofTree
  rw [Fragment.close, Fragment.close, hbody.plain, harrays]
  exact hR.cons _ hbody.nodes

/-- Whatever stands in the place of an asset that is laid out alike, the whole trees are laid out
alike. -/
theorem like_placeAsset (hR : Contextual R) {p q : Option String} {a a' t t' : Fields}
    (hwithin : Within q a a' p t t')
    (hasset : Entries.contains a typeKey = Entries.contains a' typeKey)
    (hclass : classify a q = classify a' q)
    (h : ∀ n place, (placeAsset stem n place q a).Like R (placeAsset stem n place q a'))
    (n : Nat) (place : Place) :
  (placeAsset stem n place p t).Like R (placeAsset stem n place p t')
  := by
  induction hwithin generalizing n place with
  | here => exact h n place
  | nested before after hkey ht hbelow ih =>
    have ht' := ht
    rw [hbelow.contains_eq hasset] at ht'
    apply like_of_swapped hR (Within.swapped_nested before after hkey ht ht') _ ih
    exact (Within.nested before after hkey ht hbelow).classify_eq hasset hclass
  | item before after items rest hkey hlist hkind hbelow ih =>
    have hkind' := hkind
    rw [hbelow.kind_replaced hasset] at hkind'
    apply like_of_swapped hR
      (Within.swapped_item before after items rest hkey hlist hkind hkind') _ ih
    exact (Within.item before after items rest hkey hlist hkind hbelow).classify_eq hasset hclass
  | tree before after items rest ht hbelow ih =>
    have ht' := ht
    rw [hbelow.contains_eq hasset] at ht'
    apply like_of_swapped hR (Within.swapped_tree before after items rest ht ht') _ ih
    exact (Within.tree before after items rest ht hbelow).classify_eq hasset hclass

/-! ### Records -/

/-- The record of the array fields of an asset, as its node has it. -/
def recordOf (fields : Fields) : Json := .arr ((arrays fields).map Key.toJson)

/-- Whether the nodes of two trees are the same but for the record of a node of the asset `a`, which
is that of `a'` in the second tree. -/
def Rerecorded (stem : String) (q : Option String) (a a' : Fields) (ns ns' : List PlacedNode) :
    Prop :=
  ∃ before after n place,
    ns = before ++ ⟨.ofAsset stem n place q a, Asset.plain a, arrays a⟩ :: after
      ∧ ns' = before ++ ⟨.ofAsset stem n place q a, Asset.plain a, arrays a'⟩ :: after

theorem contextual_rerecorded (stem : String) (q : Option String) (a a' : Fields) :
  Contextual (Rerecorded stem q a a')
  where
  length := by
    rintro _ _ ⟨before, after, n, place, rfl, rfl⟩
    simp
  among left right := by
    rintro ⟨before, after, n, place, rfl, rfl⟩
    exact ⟨left ++ before, after ++ right, n, place, by simp, by simp⟩

/-- Whether an asset under a field may stand for another one: both have the same label and are laid
out alike but for their records. -/
structure Replaces (q : Option String) (a a' : Fields) : Prop where
  contains : Entries.contains a typeKey = Entries.contains a' typeKey
  label : classify a q = classify a' q
  fields (stem : String) (n : Nat) (place : Place) :
    (placeFields stem (.ofAsset stem n place q a) (n + 1) 0 a).Like Eq
      (placeFields stem (.ofAsset stem n place q a) (n + 1) 0 a')

/-- In a tree one asset may stand for another one. -/
theorem Replaces.like {p q : Option String} {a a' t t' : Fields} (h : Replaces q a a')
    (hwithin : Within q a a' p t t') (stem : String) (n : Nat) (place : Place) :
  (placeAsset stem n place p t).Like (Rerecorded stem q a a') (placeAsset stem n place p t')
  := by
  apply like_placeAsset (contextual_rerecorded stem q a a') hwithin h.contains h.label
  intro n place
  have hroot : Owner.ofAsset stem n place q a' = .ofAsset stem n place q a := by
    rw [Owner.ofAsset, Owner.ofAsset, h.label]
  have hfields := h.fields stem n place
  rw [placeAsset, placeAsset, hroot]
  apply hfields.ofTree
  have hplain : (placeFields stem (.ofAsset stem n place q a) (n + 1) 0 a).plain
      = Asset.plain a := by
    rw [placeFields_eq, placeParts_plain]
    rfl
  have harrays : ∀ fields, (placeFields stem (.ofAsset stem n place q a) (n + 1) 0 fields).arrays
      = arrays fields := by
    intro fields
    rw [placeFields_eq, placeParts_arrays]
    rfl
  rw [Fragment.close, Fragment.close, ← hfields.plain, hplain, harrays, harrays, hfields.nodes]
  exact ⟨[], _, n, place, rfl, rfl⟩

theorem toNode_rerecorded (policy : LayoutPolicy) (start : Float × Float) (fields : Fields)
    (m : PlacedNode) :
  PlacedNode.toNode policy start { m with arrayFields := arrays fields }
    = (fun n => { n with arrayFields := recordOf fields }) <$> PlacedNode.toNode policy start m
  := by
  rw [PlacedNode.toNode, PlacedNode.toNode]
  cases m.owner.place.position policy start <;> rfl

/-- A layout with an asset replaced is the layout with another record for the node of the asset, and
other warnings. -/
theorem Replaces.ofAsset {p q : Option String} {a a' t t' : Fields} (h : Replaces q a a')
    (hwithin : Within q a a' p t t') (stem : Json) (start : Float × Float)
    (policy : LayoutPolicy) :
  ∃ k warnings, Layout.ofAsset (.obj t') stem start (Json.ofOption p) policy
      = (fun l => { l with
          nodes := l.nodes.modify k fun n => { n with arrayFields := recordOf a' }, warnings })
        <$> Layout.ofAsset (.obj t) stem start (Json.ofOption p) policy
    ∧ ∀ l, Layout.ofAsset (.obj t) stem start (Json.ofOption p) policy = .ok l →
      ∃ n, l.nodes[k]? = some n ∧ n.label = .str (classify a q).label
        ∧ n.assetType = (classify a q).assetType ∧ n.fields = .obj (Asset.plain a)
        ∧ n.arrayFields = recordOf a
  := by
  have hlike := h.like hwithin (stemOf policy stem) 0 .start
  obtain ⟨before, after, n, place, hnodes, hnodes'⟩ := hlike.nodes
  use before.length, (placeAsset (stemOf policy stem) 0 .start p t').warnings
  constructor
  · have hroot : ∀ t, placeRoot (stemOf policy stem) p t
        = placeAsset (stemOf policy stem) 0 .start p t := fun _ => rfl
    have hmodify : (placeAsset (stemOf policy stem) 0 .start p t').nodes
        = (placeAsset (stemOf policy stem) 0 .start p t).nodes.modify before.length
          fun m => { m with arrayFields := arrays a' } := by
      rw [hnodes, hnodes', modify_length]
    have htype : Json.field t typeKey = Json.field t' typeKey := by
      rw [← assetType_classify t p, hwithin.classify_eq h.contains h.label, assetType_classify]
    simp only [ofAsset_ofOption, ofFields, hroot, htype, hlike.checks, hlike.edges, hmodify,
      Fault.mapM_modify (toNode_rerecorded policy start a'), map_bind, Fault.pure_eq_ok,
      Fault.map_ok, bind_map_left]
  · intro l hl
    obtain ⟨-, -, hall⟩ := ofAsset_eq_ok hl
    have hm : (placeRoot (stemOf policy stem) p t).nodes[before.length]?
        = some ⟨.ofAsset (stemOf policy stem) n place q a, Asset.plain a, arrays a⟩ := by
      change (placeAsset (stemOf policy stem) 0 .start p t).nodes[before.length]? = _
      simp [hnodes]
    have hlength : before.length < l.nodes.length := by
      rw [← hall.length_eq]
      exact (List.getElem?_eq_some_iff.mp hm).1
    have hn := List.getElem?_eq_getElem hlength
    obtain ⟨position, -, hnode⟩ := Fault.bind_eq_ok_iff.mp (Fault.forall₂_getElem? hall hm hn)
    refine ⟨_, hn, ?_⟩
    rw [← Except.ok.inj hnode]
    exact ⟨rfl, rfl, rfl, rfl⟩

end Layout

end AssetCanvas
