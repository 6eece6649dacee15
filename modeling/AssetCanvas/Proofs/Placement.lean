import AssetCanvas.Proofs.Fault
import AssetCanvas.Proofs.Fields
import AssetCanvas.Proofs.Floats
import AssetCanvas.Proofs.Realization
import AssetCanvas.Proofs.Spelling

/-!
# Places on the canvas

A tree is laid out exactly if the positions of its nodes can be told, the named ports of its array
fields can be looked up, the names of its children have a spelling, and so have the stem of the ids
and the discriminant of the root, `Layout.exists_ofAsset_iff`.  But for the last two these are
questions about one asset at a time, `Asset.Roomy`.  The positions are sums of multiples of the
distances of the policy, so they can be told if the distances are numbers of moderate size,
`LayoutPolicy.Spaced`, and no asset has more children or disconnected trees than fit into memory,
`Asset.Fits`.
-/

namespace AssetCanvas

/-- A number that stays in the range of the floats if it is multiplied by an index. -/
def Number.Moderate : Number → Prop
  | .int n => n.natAbs < 2 ^ 128
  | .float _ => True

/-- A policy whose distances are numbers of moderate size. -/
structure LayoutPolicy.Spaced (policy : LayoutPolicy) : Prop where
  column : ∃ a, policy.columnSpacing.number = .ok a ∧ a.Moderate
  row : ∃ a, policy.rowSpacing.number = .ok a ∧ a.Moderate
  offset : ∃ a, policy.disconnectedOffset.number = .ok a ∧ a.Moderate
  trees : ∃ a, policy.disconnectedSpacing.number = .ok a ∧ a.Moderate

/-- The standard distances are numbers of moderate size. -/
theorem LayoutPolicy.spaced_standard : LayoutPolicy.Spaced {}
  := ⟨⟨_, rfl, trivial⟩, ⟨_, rfl, trivial⟩, ⟨_, rfl, trivial⟩, ⟨_, rfl, trivial⟩⟩

namespace Number

theorem exists_toFloat_int {n : Int} (h : n.natAbs < 2 ^ 200) : ∃ x, (int n).toFloat = .ok x
  := by
  obtain ⟨x, hx⟩ := Binary64.exists_ofInt? h
  use x
  simp [toFloat, hx]

theorem Moderate.exists_toFloat {a : Number} (h : a.Moderate) : ∃ x, a.toFloat = .ok x
  := by
  cases a with
  | int n =>
    apply exists_toFloat_int
    apply Nat.lt_trans h
    apply Nat.pow_lt_pow_right (by decide) (by decide)
  | float x => use x; rfl

/-- A multiple of a moderate number has a float. -/
theorem Moderate.exists_mul {a : Number} (h : a.Moderate) {index : Nat} (hindex : index < 2 ^ 63) :
  ∃ b x, mul (.int index) a = .ok b ∧ b.toFloat = .ok x
  := by
  cases a with
  | int n =>
    have hbound : ((index : Int) * n).natAbs < 2 ^ 200 := by
      have hpow : 2 ^ 63 * 2 ^ 128 ≤ 2 ^ 200 := by
        rw [← Nat.pow_add]
        apply Nat.pow_le_pow_right (by decide) (by decide)
      rw [Int.natAbs_mul, Int.natAbs_natCast]
      apply Nat.lt_of_lt_of_le _ hpow
      apply Nat.mul_lt_mul'' hindex h
    obtain ⟨x, hx⟩ := exists_toFloat_int hbound
    exact ⟨_, x, rfl, hx⟩
  | float y =>
    obtain ⟨x, hx⟩ := exists_toFloat_int (n := index)
      (Nat.lt_trans hindex (Nat.pow_lt_pow_right (by decide) (by decide)))
    use .float (x * y), x * y
    constructor
    · rw [mul]
      · rw [hx]
        rfl
      · intro _ _ _ heq
        cases heq
    · rfl

end Number

namespace Asset

/-- The number of parts beyond which no asset fits into memory. -/
def capacity : Nat := 2 ^ 63

/-- An asset whose layout can be told: its discriminant is missing or can be a key, its children
have names with a spelling, and they and the items of its lists of disconnected trees can be
counted. -/
structure Fits (fields : Fields) : Prop where
  hashable : (Json.field fields typeKey).key?.isSome = true
  names : ∀ c ∈ children fields, c.key.isSpellable = true
  children : (children fields).length ≤ capacity
  trees : ∀ index t, Part.tree index t ∈ parts fields → index < capacity

/-- An asset with a textual discriminant and names with a spelling that fits into memory. -/
structure Placeable (fields : Fields) : Prop where
  discriminant : ∃ type, Entries.find? fields (.text typeKey) = some (.str type)
  names : ∀ c ∈ children fields, c.key.isSpellable = true
  size : (parts fields).length ≤ capacity

/-- The names of the children of a mapping are texts. -/
theorem isSpellable_of_mapping {fields : Fields} (h : Json.Mapping fields) {c : Child}
    (hc : c ∈ children fields) :
  c.key.isSpellable = true
  := by
  obtain ⟨s, hkey⟩ := child_textual h hc
  rw [hkey, Key.isSpellable_text]

/-- The discriminant of a classification is the one of the asset. -/
theorem assetType_classify (fields : Fields) (parent : Option String) :
  (classify fields parent).assetType = Json.field fields typeKey
  := by
  unfold classify
  split <;> rfl

theorem index_lt_of_mem_treeParts {start index : Nat} {items : List Json} {t : Fields}
    (h : Part.tree index t ∈ treeParts start items) :
  index < start + (treeParts start items).length
  := by
  induction items generalizing start with
  | nil => cases h
  | cons v rest ih =>
    rw [treeParts, List.length_cons]
    rcases List.mem_cons.mp h with heq | hrest
    · have hindex : index = start := by
        cases v with
        | obj fields =>
          simp only [treePart] at heq
          split at heq
          · injection heq
          · cases heq
        | _ => cases heq
      omega
    · have hlt := ih hrest
      omega

/-- The disconnected trees of an asset have numbers below the number of its parts. -/
theorem index_lt_of_mem_parts {fields t : Fields} {index : Nat}
    (h : Part.tree index t ∈ parts fields) :
  index < (parts fields).length
  := by
  obtain ⟨⟨key, v⟩, hmem, hpart⟩ := List.mem_flatMap.mp h
  have hlength : (valueParts key v).length ≤ (parts fields).length := by
    apply List.Sublist.length_le
    apply List.sublist_flatten_of_mem
    apply List.mem_map_of_mem (f := fun f : Key × Json => valueParts f.1 f.2) hmem
  apply Nat.lt_of_lt_of_le _ hlength
  rcases valueParts_cases key v with ⟨t, -, -, hp⟩ | ⟨items, -, -, hp⟩ | ⟨items, -, -, -, hp⟩
    | ⟨-, hp⟩
  · simp [hp] at hpart
  · rw [hp] at hpart ⊢
    simpa using index_lt_of_mem_treeParts hpart
  · rw [hp] at hpart
    rcases List.mem_cons.mp hpart with heq | hitem
    · cases heq
    · obtain ⟨i, t, heq⟩ := key_of_mem_itemParts hitem
      cases heq
  · simp [hp] at hpart

theorem Placeable.fits {fields : Fields} (h : Placeable fields) : Fits fields
  where
  hashable := by
    obtain ⟨type, htext⟩ := h.discriminant
    simp [Json.field, htext, Json.key?]
  names := h.names
  children := by
    apply Nat.le_trans _ h.size
    apply List.length_filterMap_le
  trees index t hmem := Nat.lt_of_lt_of_le (index_lt_of_mem_parts hmem) h.size

/-! ### Room for an asset -/

/-- A distance that can be told. -/
def Told (distance : Json) : Prop :=
  ∃ a x, distance.number = .ok a ∧ a.toFloat = .ok x

theorem told_int_iff {n : Int} : Told (.int n) ↔ ∃ x, Binary64.ofInt? n = some x
  := by
  cases h : Binary64.ofInt? n <;> simp [Told, Json.number, Json.number?, Number.toFloat, h]

/-- A distance whose multiple by an index can be told. -/
def ToldAt (distance : Json) (index : Nat) : Prop :=
  ∃ a b x, distance.number = .ok a ∧ Number.mul (.int index) a = .ok b ∧ b.toFloat = .ok x

/-- Some parts of an asset for which there is room: the rows of the children, counted from `index`
on, and the places of the trees can be told, the ports of items can be looked up, and the names of
children can be spelled. -/
structure Room (policy : LayoutPolicy) (nameable : Bool) (index : Nat) (ps : List Part) :
    Prop where
  rows : ∀ i < (ps.filterMap Part.child?).length, ToldAt policy.rowSpacing (index + i)
  trees : ∀ i t, Part.tree i t ∈ ps →
    Told policy.disconnectedOffset ∧ ToldAt policy.disconnectedSpacing i
  ports : ∀ c, Part.child c ∈ ps → c.index.isSome = true → nameable = true
  names : ∀ c, Part.child c ∈ ps → c.key.isSpellable = true

/-- An asset for whose parts there is room. -/
def Roomy (policy : LayoutPolicy) (parent : Option String) (fields : Fields) : Prop :=
  Room policy (Slot.nameable (classify fields parent).assetType (classify fields parent).label) 0
    (parts fields)

section Room

variable {policy : LayoutPolicy} {nameable : Bool} {index : Nat} {rest : List Part}

theorem room_nil : Room policy nameable index [] := by constructor <;> simp

theorem room_child_iff {c : Child} :
  Room policy nameable index (.child c :: rest)
    ↔ (ToldAt policy.rowSpacing index ∧ (c.index.isSome = true → nameable = true)
        ∧ c.key.isSpellable = true)
      ∧ Room policy nameable (index + 1) rest
  := by
  have hlength : ((Part.child c :: rest).filterMap Part.child?).length
      = (rest.filterMap Part.child?).length + 1 := by
    have hchild : (Part.child c).child? = some c := rfl
    rw [List.filterMap_cons_some hchild, List.length_cons]
  constructor
  · intro h
    refine ⟨⟨?_, ?_, ?_⟩, ?_⟩
    · apply h.rows 0
      rw [hlength]
      apply Nat.zero_lt_succ
    · apply h.ports c (by simp)
    · apply h.names c (by simp)
    · constructor
      · intro i hi
        have hrow := h.rows (i + 1) (by omega)
        rwa [show index + (i + 1) = index + 1 + i by omega] at hrow
      · intro i t hmem
        apply h.trees i t (by simp [hmem])
      · intro c' hmem
        apply h.ports c' (by simp [hmem])
      · intro c' hmem
        apply h.names c' (by simp [hmem])
  · rintro ⟨⟨hrow, hport, hname⟩, h⟩
    constructor
    · intro i hi
      cases i with
      | zero => apply hrow
      | succ i =>
        rw [show index + (i + 1) = index + 1 + i by omega]
        apply h.rows i (by omega)
    · intro i t hmem
      apply h.trees i t (by simpa using hmem)
    · intro c' hmem
      rcases List.mem_cons.mp hmem with heq | hmem
      · obtain rfl : c' = c := by simpa using heq
        apply hport
      · apply h.ports c' hmem
    · intro c' hmem
      rcases List.mem_cons.mp hmem with heq | hmem
      · obtain rfl : c' = c := by simpa using heq
        apply hname
      · apply h.names c' hmem

theorem room_tree_iff {i : Nat} {t : Fields} :
  Room policy nameable index (.tree i t :: rest)
    ↔ (Told policy.disconnectedOffset ∧ ToldAt policy.disconnectedSpacing i)
      ∧ Room policy nameable index rest
  := by
  constructor
  · intro h
    use h.trees i t (by simp)
    constructor
    · apply h.rows
    · intro i' t' hmem
      apply h.trees i' t' (by simp [hmem])
    · intro c hmem
      apply h.ports c (by simp [hmem])
    · intro c hmem
      apply h.names c (by simp [hmem])
  · rintro ⟨htree, h⟩
    constructor
    · apply h.rows
    · intro i' t' hmem
      rcases List.mem_cons.mp hmem with heq | hmem
      · obtain ⟨rfl, -⟩ : i' = i ∧ t' = t := by simpa using heq
        apply htree
      · apply h.trees i' t' hmem
    · intro c hmem
      apply h.ports c (by simpa using hmem)
    · intro c hmem
      apply h.names c (by simpa using hmem)

/-- Other parts need no room. -/
theorem room_cons_iff {part : Part} (h : part.asset? = none) :
  Room policy nameable index (part :: rest) ↔ Room policy nameable index rest
  := by
  have hmem : ∀ {part' : Part}, part'.asset?.isSome = true →
      (part' ∈ part :: rest ↔ part' ∈ rest) := by
    intro part' hasset
    rw [List.mem_cons, or_iff_right]
    rintro rfl
    rw [h] at hasset
    cases hasset
  have hchild : part.child? = none := by
    cases part with
    | child c => cases h
    | _ => rfl
  constructor
  · intro hroom
    constructor
    · have hrows := hroom.rows
      rwa [List.filterMap_cons_none hchild] at hrows
    · exact fun i t ht => hroom.trees i t ((hmem rfl).mpr ht)
    · exact fun c hc => hroom.ports c ((hmem rfl).mpr hc)
    · exact fun c hc => hroom.names c ((hmem rfl).mpr hc)
  · intro hroom
    constructor
    · rw [List.filterMap_cons_none hchild]
      apply hroom.rows
    · exact fun i t ht => hroom.trees i t ((hmem rfl).mp ht)
    · exact fun c hc => hroom.ports c ((hmem rfl).mp hc)
    · exact fun c hc => hroom.names c ((hmem rfl).mp hc)

end Room

/-- There is room for an asset that fits, under a policy with usable distances. -/
theorem Fits.roomy {policy : LayoutPolicy} (hp : policy.Spaced) {fields : Fields} (h : Fits fields)
    (parent : Option String) :
  Roomy policy parent fields
  where
  rows i hi := by
    obtain ⟨a, ha, hma⟩ := hp.row
    have hindex : 0 + i < capacity := by
      rw [Nat.zero_add]
      apply Nat.lt_of_lt_of_le hi h.children
    obtain ⟨b, x, hb, hx⟩ := hma.exists_mul hindex
    exact ⟨a, b, x, ha, hb, hx⟩
  trees i t hmem := by
    obtain ⟨a, ha, hma⟩ := hp.offset
    obtain ⟨x, hx⟩ := hma.exists_toFloat
    obtain ⟨b, hb, hmb⟩ := hp.trees
    obtain ⟨c, y, hc, hy⟩ := hmb.exists_mul (h.trees i t hmem)
    exact ⟨⟨a, x, ha, hx⟩, b, c, y, hb, hc, hy⟩
  ports c _ _ := by
    rw [Slot.nameable, assetType_classify, h.hashable, Bool.true_or]
  names c hmem := h.names c (mem_children.mpr hmem)

end Asset

namespace Layout

open Asset

/-! ### Positions -/

/-- Whether the position of a place can be told. -/
def Place.Settled (policy : LayoutPolicy) (start : Float × Float) (place : Place) : Prop :=
  ∃ position, place.position policy start = .ok position

variable {policy : LayoutPolicy} {start : Float × Float}

theorem Place.settled_child_iff {place : Place} (h : place.Settled policy start)
    (hcolumn : Told policy.columnSpacing) {index : Nat} :
  (Place.child place index).Settled policy start ↔ ToldAt policy.rowSpacing index
  := by
  obtain ⟨position, hposition⟩ := h
  obtain ⟨a, x, ha, hx⟩ := hcolumn
  rw [Settled, Place.position, hposition]
  simp [ha, hx, ToldAt, Number.subFrom, Number.addTo, Fault.bind_eq_ok_iff]

theorem Place.settled_tree_iff {place : Place} (h : place.Settled policy start) {index : Nat} :
  (Place.tree place index).Settled policy start
    ↔ Told policy.disconnectedOffset ∧ ToldAt policy.disconnectedSpacing index
  := by
  obtain ⟨position, hposition⟩ := h
  constructor
  · rintro ⟨position', h⟩
    simp only [Place.position, hposition, Fault.ok_bind, Number.addTo, Fault.bind_eq_ok_iff] at h
    obtain ⟨a, ha, -, ⟨x, hx, -⟩, b, hb, c, hc, -, ⟨y, hy, -⟩, -⟩ := h
    exact ⟨⟨a, x, ha, hx⟩, b, c, y, hb, hc, hy⟩
  · rintro ⟨⟨a, x, ha, hx⟩, b, c, y, hb, hc, hy⟩
    use (position.1 + x, position.2 + y)
    simp [Place.position, hposition, ha, hb, hc, Number.addTo, hx, hy]

theorem run_room_iff {place : Place} :
  Check.run policy start (.room place) = .ok ()
    ↔ place.Settled policy start ∧ Told policy.columnSpacing
  := by
  simp [Check.run, Place.Settled, Told, Number.subFrom, Fault.bind_eq_ok_iff]

theorem run_name_iff (policy : LayoutPolicy) (start : Float × Float) {key : Key} :
  Check.run policy start (.name key) = .ok () ↔ key.isSpellable = true
  := by
  rw [← key.isSpellable_toJson, ← Json.exists_spelled_iff]
  simp [Check.run, Fault.bind_eq_ok_iff]

/-! ### Sound fragments -/

/-- A fragment whose checks are passed and whose nodes have positions. -/
structure Fragment.Sound (policy : LayoutPolicy) (start : Float × Float) (F : Fragment) :
    Prop where
  checks : ∀ check ∈ F.checks, check.run policy start = .ok ()
  nodes : ∀ m ∈ F.nodes, m.owner.place.Settled policy start

namespace Fragment

/-- A fragment without checks and nodes is sound. -/
theorem sound_of_nil {F : Fragment} (hchecks : F.checks = []) (hnodes : F.nodes = []) :
  F.Sound policy start
  := by
  constructor
  · simp [hchecks]
  · simp [hnodes]

theorem sound_append_iff {F G : Fragment} :
  (F ++ G).Sound policy start ↔ F.Sound policy start ∧ G.Sound policy start
  := by
  constructor
  · rintro ⟨hchecks, hnodes⟩
    rw [checks_append, List.forall_mem_append] at hchecks
    rw [nodes_append, List.forall_mem_append] at hnodes
    exact ⟨⟨hchecks.1, hnodes.1⟩, ⟨hchecks.2, hnodes.2⟩⟩
  · rintro ⟨hF, hG⟩
    constructor
    · rw [checks_append, List.forall_mem_append]
      exact ⟨hF.checks, hG.checks⟩
    · rw [nodes_append, List.forall_mem_append]
      exact ⟨hF.nodes, hG.nodes⟩

theorem sound_ofTree_iff {root : Owner} {body : Fragment} :
  (ofTree root body).Sound policy start
    ↔ Told policy.columnSpacing ∧ root.place.Settled policy start ∧ body.Sound policy start
  := by
  constructor
  · rintro ⟨hchecks, hnodes⟩
    rw [ofTree, List.forall_mem_cons, run_room_iff] at hchecks
    rw [ofTree, close, List.forall_mem_cons] at hnodes
    exact ⟨hchecks.1.2, hnodes.1, hchecks.2, hnodes.2⟩
  · rintro ⟨hcolumn, hroot, hbody⟩
    constructor
    · rw [ofTree, List.forall_mem_cons, run_room_iff]
      exact ⟨⟨hroot, hcolumn⟩, hbody.checks⟩
    · rw [ofTree, close, List.forall_mem_cons]
      exact ⟨hroot, hbody.nodes⟩

theorem sound_ofChild_iff {parent child : Owner} {port : Json} {warnings : List String}
    {checks : List Check} {body : Fragment} :
  (ofChild parent child port warnings checks body).Sound policy start
    ↔ (ofTree child body).Sound policy start
      ∧ ∀ check ∈ checks, check.run policy start = .ok ()
  := by
  have hchecks : (ofChild parent child port warnings checks body).checks
      = (ofTree child body).checks ++ checks := rfl
  constructor
  · rintro ⟨hall, hnodes⟩
    rw [hchecks, List.forall_mem_append] at hall
    exact ⟨⟨hall.1, hnodes⟩, hall.2⟩
  · rintro ⟨⟨htree, hnodes⟩, hall⟩
    constructor
    · rw [hchecks, List.forall_mem_append]
      exact ⟨htree, hall⟩
    · apply hnodes

end Fragment

theorem run_childChecks_iff (policy : LayoutPolicy) (start : Float × Float) (owner : Owner)
    (c : Child) :
  (∀ check ∈ childChecks owner c, check.run policy start = .ok ())
    ↔ (c.index.isSome = true → Slot.nameable owner.assetType owner.label = true)
      ∧ c.key.isSpellable = true
  := by
  rw [← run_name_iff policy start]
  cases hi : c.index with
  | none => simp [childChecks, hi]
  | some i => simp [childChecks, hi, Check.run]

/-- The parts of an asset are laid out soundly exactly if there is room for them and for the assets
below them. -/
theorem sound_placeParts_iff (hcolumn : Told policy.columnSpacing) (stem : String) (ps : List Part)
    (owner : Owner) (n index : Nat) (hsettled : owner.place.Settled policy start) :
  (placeParts stem owner n index ps).Sound policy start
    ↔ Room policy (Slot.nameable owner.assetType owner.label) index ps
      ∧ ∀ part ∈ ps, ∀ t, part.asset? = some t → Everywhere (Roomy policy) part.parent? t
  := by
  induction ps using parts_induction generalizing owner n index with
  | nil => exact iff_of_true (Fragment.sound_of_nil rfl rfl) ⟨room_nil, by simp⟩
  | cons part rest ihasset ihrest =>
    -- the asset of a part is laid out soundly exactly if it has a place and there is room below
    have hasset : ∀ t, part.asset? = some t → ∀ place,
        (Fragment.ofTree (.ofAsset stem n place part.parent? t)
            (placeFields stem (.ofAsset stem n place part.parent? t) (n + 1) 0 t)).Sound policy start
          ↔ place.Settled policy start ∧ Everywhere (Roomy policy) part.parent? t := by
      intro t ht place
      rw [placeFields_eq, Fragment.sound_ofTree_iff]
      constructor
      · rintro ⟨-, hplace, hbody⟩
        have hroom := (ihasset t ht (.ofAsset stem n place part.parent? t) (n + 1) 0 hplace).mp hbody
        exact ⟨hplace, .of_parts hroom.1 hroom.2⟩
      · rintro ⟨hplace, hroom⟩
        refine ⟨hcolumn, hplace, ?_⟩
        apply (ihasset t ht (.ofAsset stem n place part.parent? t) (n + 1) 0 hplace).mpr
        use hroom.here
        intro part' hmem t' ht'
        apply hroom.below hmem ht'
    rw [placeParts, Fragment.sound_append_iff, ihrest _ _ _ hsettled, List.forall_mem_cons]
    cases part with
    | child c =>
      have hfirst : (placePart stem owner n index (.child c)).Sound policy start
          ↔ (ToldAt policy.rowSpacing index ∧ Everywhere (Roomy policy) c.key.text? c.fields)
            ∧ (c.index.isSome = true → Slot.nameable owner.assetType owner.label = true)
              ∧ c.key.isSpellable = true := by
        rw [← run_childChecks_iff policy start, ← Place.settled_child_iff hsettled hcolumn]
        apply Fragment.sound_ofChild_iff.trans
        apply and_congr_left'
        apply hasset c.fields rfl
      rw [hfirst, room_child_iff]
      simp only [Part.asset?, Option.some.injEq, forall_eq']
      tauto
    | tree i t =>
      have hfirst : (placePart stem owner n index (.tree i t)).Sound policy start
          ↔ (Told policy.disconnectedOffset ∧ ToldAt policy.disconnectedSpacing i)
            ∧ Everywhere (Roomy policy) none t := by
        rw [← Place.settled_tree_iff hsettled]
        apply hasset t rfl
      rw [hfirst, room_tree_iff]
      simp only [Part.asset?, Option.some.injEq, forall_eq']
      tauto
    | _ =>
      rw [room_cons_iff rfl, and_iff_right (Fragment.sound_of_nil rfl rfl)]
      simp [Part.asset?, placePart, Fragment.ofPlain, skipped]

/-- A tree has a layout exactly if its fragment is sound, and the stem of the ids and the
discriminant of the root have a spelling. -/
theorem exists_ofAsset_iff_sound {fields : Fields} {field : Option String} (stem : Json)
    (start : Float × Float) (policy : LayoutPolicy) :
  (∃ l, Layout.ofAsset (.obj fields) stem start (Json.ofOption field) policy = .ok l)
    ↔ (placeRoot (stemOf policy stem) field fields).Sound policy start
      ∧ (stemValue policy stem).isSpellable = true
      ∧ (Json.field fields typeKey).isSpellable = true
  := by
  have hnode : ∀ m : PlacedNode, (∃ n, m.toNode policy start = .ok n)
      ↔ m.owner.place.Settled policy start := fun m => Fault.exists_bind_pure_iff
  simp only [ofAsset_ofOption, ofFields]
  constructor
  · rintro ⟨l, hl⟩
    obtain ⟨stemText, hstem, hl⟩ := Fault.bind_eq_ok_iff.mp hl
    obtain ⟨⟨⟩, hchecks, hl⟩ := Fault.bind_eq_ok_iff.mp hl
    obtain ⟨nodes, hnodes, hl⟩ := Fault.bind_eq_ok_iff.mp hl
    obtain ⟨text, htext, -⟩ := Fault.bind_eq_ok_iff.mp hl
    refine ⟨⟨Fault.forM_eq_ok_iff.mp hchecks, ?_⟩, Json.exists_spelled_iff.mp ⟨stemText, hstem⟩,
      Json.exists_spelled_iff.mp ⟨text, htext⟩⟩
    intro m hmem
    apply (hnode m).mp (Fault.exists_mapM_iff.mp ⟨nodes, hnodes⟩ m hmem)
  · rintro ⟨⟨hchecks, hnodes⟩, hstem, hroot⟩
    obtain ⟨nodes, hnodes⟩ := Fault.exists_mapM_iff.mpr fun m hmem => (hnode m).mpr (hnodes m hmem)
    obtain ⟨text, htext⟩ := Json.exists_spelled_iff.mpr hroot
    rw [Json.spelled_eq_ok hstem, Fault.ok_bind, Fault.forM_eq_ok_iff.mpr hchecks, Fault.ok_bind,
      hnodes, Fault.ok_bind, htext]
    exact ⟨_, rfl⟩

/-- A tree has a layout exactly if the distance of columns can be told, there is room for each of
its assets, and the stem of the ids and the discriminant of the root have a spelling. -/
theorem exists_ofAsset_iff {fields : Fields} {field : Option String} (stem : Json)
    (start : Float × Float) (policy : LayoutPolicy) :
  (∃ l, Layout.ofAsset (.obj fields) stem start (Json.ofOption field) policy = .ok l)
    ↔ Told policy.columnSpacing ∧ Everywhere (Roomy policy) field fields
      ∧ (stemValue policy stem).isSpellable = true
      ∧ (Json.field fields typeKey).isSpellable = true
  := by
  have hstart : Place.start.Settled policy start := ⟨start, rfl⟩
  rw [exists_ofAsset_iff_sound, placeRoot, placeFields_eq, Fragment.sound_ofTree_iff]
  constructor
  · rintro ⟨⟨hcolumn, -, hbody⟩, hroot⟩
    have hroom := (sound_placeParts_iff hcolumn _ _ _ _ _ hstart).mp hbody
    exact ⟨hcolumn, .of_parts hroom.1 hroom.2, hroot⟩
  · rintro ⟨hcolumn, hroom, hroot⟩
    refine ⟨⟨hcolumn, hstart, ?_⟩, hroot⟩
    apply (sound_placeParts_iff hcolumn _ _ _ _ _ hstart).mpr
    use hroom.here
    intro part hmem t ht
    apply hroom.below hmem ht

/-- A tree of assets that fit has a layout exactly if the stem of the ids and the discriminant of
the root have a spelling, for every start and root field and for every policy with usable
distances. -/
theorem exists_ofAsset_iff_of_fits {fields : Fields} {field : Option String} (stem : Json)
    (start : Float × Float) {policy : LayoutPolicy} (hp : policy.Spaced)
    (h : Everywhere (fun _ => Fits) field fields) :
  (∃ l, Layout.ofAsset (.obj fields) stem start (Json.ofOption field) policy = .ok l)
    ↔ (stemValue policy stem).isSpellable = true
      ∧ (Json.field fields typeKey).isSpellable = true
  := by
  obtain ⟨a, ha, hma⟩ := hp.column
  obtain ⟨x, hx⟩ := hma.exists_toFloat
  rw [exists_ofAsset_iff, and_iff_right ⟨a, x, ha, hx⟩, and_iff_right]
  intro parent t hreach
  apply (h parent t hreach).roomy hp

/-- A tree of placeable assets has a layout. -/
theorem exists_ofAsset {fields : Fields} {field : Option String} {stem : Json}
    (start : Float × Float) {policy : LayoutPolicy} (hp : policy.Spaced)
    (hstem : (stemValue policy stem).isSpellable = true)
    (h : Everywhere (fun _ => Placeable) field fields) :
  ∃ l, Layout.ofAsset (.obj fields) stem start (Json.ofOption field) policy = .ok l
  := by
  obtain ⟨type, htype⟩ := h.here.discriminant
  apply (exists_ofAsset_iff_of_fits stem start hp
    fun parent t hreach => (h parent t hreach).fits).mpr
  use hstem
  rw [Json.field, htype]
  rfl

end Layout

end AssetCanvas
