import AssetCanvas.Proofs.Forest
import AssetCanvas.Proofs.ValidAssets

/-!
# Validation and layout visit the same assets

Validation reports on the assets that a layout visits, in its order: `Asset.fieldProblems_eq` lists
the problems of an asset part by part.  So as many messages speak of a discriminant as there are
nodes without a textual one, and as many of a disconnected tree as there are warnings about skipped
items, `Layout.census`.  Messages and warnings are told apart by what they end and begin with.  There
are messages at all if the names on the paths to these assets have a spelling,
`Asset.fieldsTellable_iff_everywhere`.
-/

namespace AssetCanvas

namespace Asset

/-! ### Kinds of messages -/

/-- Whether a message ends in one of some texts. -/
def endsIn (endings : List String) (message : String) : Bool :=
  endings.any fun ending => ending.toList.isSuffixOf message.toList

/-- The names of the kinds of values. -/
def kindNames : List String := ["NoneType", "bool", "int", "float", "str", "list", "dict"]

/-- The endings of messages about a discriminant that is missing or no text. -/
def typeEndings : List String :=
  ": asset missing 'Type' field"
    :: kindNames.map fun kind => ": 'Type' must be a string, got " ++ kind

/-- The endings of messages about a disconnected tree that is no asset. -/
def treeEndings : List String := [": disconnected tree is not an asset"]

/-- A message has the ending that was put to it. -/
theorem endsIn_of_mem {endings : List String} {ending : String} (h : ending ∈ endings)
    (path : String) :
  endsIn endings (path ++ ending) = true
  := by
  rw [endsIn, List.any_eq_true]
  use ending, h
  rw [String.toList_append, List.isSuffixOf_iff_suffix]
  apply List.suffix_append

/-- A message has no ending but the one that was put to it, where neither ends in the other. -/
theorem endsIn_of_apart {endings : List String} {ending : String}
    (h : endsIn endings ending = false)
    (h' : ∀ other ∈ endings, endsIn [ending] other = false) (path : String) :
  endsIn endings (path ++ ending) = false
  := by
  rw [endsIn, List.any_eq_false] at h ⊢
  intro other hmem hends
  rw [String.toList_append, List.isSuffixOf_iff_suffix] at hends
  rcases List.suffix_or_suffix_of_suffix hends (List.suffix_append _ _) with hshort | hlong
  · apply h other hmem
    rwa [List.isSuffixOf_iff_suffix]
  · have hfalse := h' other hmem
    rw [← List.isSuffixOf_iff_suffix] at hlong
    simp [endsIn, hlong] at hfalse

/-- The message for a missing discriminant. -/
theorem missingMessage_eq (path : String) :
  s!"{path}: asset missing '{typeKey}' field" = path ++ ": asset missing 'Type' field"
  := by
  have hliteral : ": asset missing '" ++ typeKey ++ "' field" = ": asset missing 'Type' field" := by
    decide
  rw [← hliteral, ← String.append_assoc, ← String.append_assoc]
  rfl

/-- The message for a discriminant that is no text. -/
theorem kindMessage_eq (path kind : String) :
  s!"{path}: '{typeKey}' must be a string, got {kind}"
    = path ++ (": 'Type' must be a string, got " ++ kind)
  := by
  have hliteral : ": '" ++ typeKey ++ "' must be a string, got "
      = ": 'Type' must be a string, got " := by
    decide
  rw [← hliteral, ← String.append_assoc, ← String.append_assoc, ← String.append_assoc]
  rfl

/-- A message about a discriminant is none about a disconnected tree. -/
theorem countP_typeMessage {ending : String} (h : ending ∈ typeEndings) (path : String) :
  [path ++ ending].countP (endsIn typeEndings) = 1
    ∧ [path ++ ending].countP (endsIn treeEndings) = 0
  := by
  have hapart : ∀ ending ∈ typeEndings, endsIn treeEndings ending = false
      ∧ ∀ other ∈ treeEndings, endsIn [ending] other = false := by
    decide
  obtain ⟨hshort, hlong⟩ := hapart ending h
  rw [List.countP_singleton, List.countP_singleton, endsIn_of_mem h, endsIn_of_apart hshort hlong]
  exact ⟨rfl, rfl⟩

/-- A discriminant has a problem if it is no text, and the message speaks of it. -/
theorem countP_typeProblems (path : String) (v : Json) :
  (typeProblems path v).countP (endsIn typeEndings) = (if v.text?.isNone then 1 else 0)
    ∧ (typeProblems path v).countP (endsIn treeEndings) = 0
  := by
  have hkind : ∀ kind ∈ kindNames,
      [s!"{path}: '{typeKey}' must be a string, got {kind}"].countP (endsIn typeEndings) = 1
        ∧ [s!"{path}: '{typeKey}' must be a string, got {kind}"].countP (endsIn treeEndings)
          = 0 := by
    intro kind hmem
    rw [kindMessage_eq]
    apply countP_typeMessage
    apply List.mem_cons_of_mem
    apply List.mem_map_of_mem hmem
  cases v with
  | null =>
    rw [typeProblems, missingMessage_eq]
    apply countP_typeMessage
    apply List.mem_cons_self
  | str s => exact ⟨rfl, rfl⟩
  | bool b => apply hkind "bool" (by decide)
  | int n => apply hkind "int" (by decide)
  | float x => apply hkind "float" (by decide)
  | arr items => apply hkind "list" (by decide)
  | obj fields => apply hkind "dict" (by decide)

/-! ### Problems part by part -/

/-- The message for a field whose array mixes assets and plain values. -/
def mixedProblems (path : String) (key : Key) : Json → List String
  | .arr items =>
    if key != typeKey && items.any Json.isAsset then
      [fieldPath path key ++ ": array mixes assets and plain values; kept verbatim"]
    else []
  | _ => []

theorem countP_mixedProblems (path : String) (key : Key) (v : Json) :
  (mixedProblems path key v).countP (endsIn typeEndings) = 0
    ∧ (mixedProblems path key v).countP (endsIn treeEndings) = 0
  := by
  unfold mixedProblems
  split
  · split
    · rw [List.countP_singleton, List.countP_singleton, endsIn_of_apart (by decide) (by decide),
        endsIn_of_apart (by decide) (by decide)]
      exact ⟨rfl, rfl⟩
    · exact ⟨rfl, rfl⟩
  · exact ⟨rfl, rfl⟩

theorem countP_skippedProblem (path : String) :
  [path ++ ": disconnected tree is not an asset"].countP (endsIn typeEndings) = 0
    ∧ [path ++ ": disconnected tree is not an asset"].countP (endsIn treeEndings) = 1
  := by
  have hending : ": disconnected tree is not an asset" ∈ treeEndings := by decide
  rw [List.countP_singleton, List.countP_singleton, endsIn_of_mem hending,
    endsIn_of_apart (by decide) (by decide)]
  exact ⟨rfl, rfl⟩

/-- The path of a child of the asset at `path`. -/
def Child.path (path : String) (c : Child) : String :=
  match c.index with
  | none => fieldPath path c.key
  | some index => itemPath (fieldPath path c.key) index

/-- The path of an item of the list of disconnected trees of the asset at `path`. -/
def treePath (path : String) (index : Nat) : String :=
  itemPath (fieldPath path disconnectedKey) index

/-- The problems of a part of the asset at `path`. -/
def Part.problems (path : String) : Part → List String
  | .plain key v => mixedProblems path key v
  | .record _ => []
  | .child c => problemsAt (c.path path) (.obj c.fields)
  | .tree index t => problemsAt (treePath path index) (.obj t)
  | .skipped index => [treePath path index ++ ": disconnected tree is not an asset"]

/-- An asset whose disconnected trees, if there are any, are in a list. -/
def Listed (fields : Fields) : Prop :=
  ∀ f ∈ fields, (f.1 == .text disconnectedKey) = true → ∃ items, f.2 = .arr items

theorem itemProblems_eq (path : String) (key : Key) {items : List Json}
    (h : ∀ v ∈ items, v.isAsset = true) (index : Nat) :
  itemProblems (fieldPath path key) index items
    = (itemParts key index items).flatMap (Part.problems path)
  := by
  induction items generalizing index with
  | nil => rfl
  | cons v rest ih =>
    cases v with
    | obj fields =>
      rw [itemProblems, itemParts, List.flatMap_cons, ih fun w hw => h w (by simp [hw])]
      rfl
    | _ => simp [Json.isAsset] at h

theorem treeProblems_eq (path : String) (items : List Json) (index : Nat) :
  treeProblems (fieldPath path disconnectedKey) index items
    = (treeParts index items).flatMap (Part.problems path)
  := by
  induction items generalizing index with
  | nil => rfl
  | cons v rest ih =>
    have hfirst : (if v.isAsset then problemsAt (treePath path index) v
        else [treePath path index ++ ": disconnected tree is not an asset"])
          = (treePart index v).problems path := by
      cases v with
      | obj fields =>
        by_cases hc : Entries.contains fields (.text typeKey) = true
        · simp [Json.isAsset, treePart, hc, Part.problems]
        · simp [Json.isAsset, treePart, hc, Part.problems]
      | _ => rfl
    rw [treeParts, List.flatMap_cons, ← ih, ← hfirst, treeProblems]
    rfl

/-- The problems of an array that is no list of disconnected trees. -/
theorem arrayProblems_eq (path : String) {key : Key} (items : List Json)
    (hdisc : (key == .text disconnectedKey) = false) :
  valueProblems key (fieldPath path key) (.arr items)
    = (valueParts key (.arr items)).flatMap (Part.problems path)
  := by
  have hkind : (Json.arr items).kind = .assetArray
      ↔ (!items.isEmpty && items.all Json.isAsset) = true := by
    simp [Json.kind]
  by_cases hkey : (key == .text typeKey) = true
  · simp [valueProblems, valueParts, bne, hkey, hdisc, Part.problems, mixedProblems]
  · by_cases hassets : (!items.isEmpty && items.all Json.isAsset) = true
    · have hvalue : valueParts key (.arr items) = .record key :: itemParts key 0 items := by
        simp [valueParts, bne, hkey, hdisc, hkind.mpr hassets]
      have hitems := (Json.isAsset_of_kind (hkind.mpr hassets)).2
      rw [hvalue, List.flatMap_cons, ← itemProblems_eq path key hitems, valueProblems,
        if_neg hkey, if_neg (by simp [hdisc]), if_pos hassets]
      rfl
    · have hvalue : valueParts key (.arr items) = [.plain key (.arr items)] := by
        simp [valueParts, hdisc, mt hkind.mp hassets]
      rw [hvalue, valueProblems, if_neg hkey, if_neg (by simp [hdisc]), if_neg hassets,
        List.flatMap_singleton]
      simp only [Part.problems, mixedProblems, bne, hkey]
      rfl

/-- The problems of a field part by part. -/
theorem valueProblems_eq (path : String) {key : Key} {v : Json}
    (h : (key == .text disconnectedKey) = true → ∃ items, v = .arr items) :
  valueProblems key (fieldPath path key) v = (valueParts key v).flatMap (Part.problems path)
  := by
  by_cases hdisc : (key == .text disconnectedKey) = true
  · obtain ⟨items, rfl⟩ := h hdisc
    obtain rfl := Key.eq_of_beq_text hdisc
    have hkey : (Key.text disconnectedKey == .text typeKey) = false := by decide
    simp only [valueProblems, valueParts, hkey, hdisc]
    apply treeProblems_eq
  · rw [Bool.not_eq_true] at hdisc
    cases v with
    | obj fields =>
      by_cases hkey : (key == .text typeKey) = true
      · simp [valueProblems, valueParts, bne, hkey, Part.problems, mixedProblems]
      · by_cases hc : Entries.contains fields (.text typeKey) = true
        · simp [valueProblems, valueParts, bne, hkey, hdisc, hc, Part.problems, Child.path,
            problemsAt]
        · simp [valueProblems, valueParts, bne, hkey, hdisc, hc, Part.problems, mixedProblems]
    | arr items => apply arrayProblems_eq path items hdisc
    | _ => simp [valueProblems, valueParts, hdisc, Part.problems, mixedProblems]

/-- The problems of an asset part by part. -/
theorem fieldProblems_eq (path : String) {fields : Fields} (h : Listed fields) :
  fieldProblems path fields = (parts fields).flatMap (Part.problems path)
  := by
  induction fields with
  | nil => rfl
  | cons f rest ih =>
    obtain ⟨key, v⟩ := f
    rw [fieldProblems, valueProblems_eq path (h (key, v) (by simp)),
      ih fun f hf => h f (by simp [hf]), parts, parts, List.flatMap_cons, List.flatMap_append]

/-! ### Paths part by part -/

/-- Whether the name of a part has a spelling, if a path leads through it or ends at it. -/
def Part.Tellable : Part → Prop
  | .plain key (.arr items) => items.any Json.isAsset = true → key.isSpellable = true
  | .child c => c.key.isSpellable = true
  | _ => True

theorem itemsTellable_iff_trees (items : List Json) (index : Nat) :
  itemsTellable items = true
    ↔ ∀ part ∈ treeParts index items,
      part.Tellable ∧ ∀ t, part.asset? = some t → fieldsTellable t = true
  := by
  induction items generalizing index with
  | nil => simp [itemsTellable, treeParts]
  | cons v rest ih =>
    rw [treeParts, List.forall_mem_cons, ← ih]
    cases v with
    | obj fields =>
      cases hc : Entries.contains fields (.text typeKey) <;>
        simp [itemsTellable, treePart, hc, Part.Tellable, Part.asset?]
    | _ => simp [itemsTellable, treePart, Part.Tellable, Part.asset?]

theorem itemsTellable_iff_items {key : Key} (hkey : key.isSpellable = true) {items : List Json}
    (h : ∀ v ∈ items, v.isAsset = true) (index : Nat) :
  itemsTellable items = true
    ↔ ∀ part ∈ itemParts key index items,
      part.Tellable ∧ ∀ t, part.asset? = some t → fieldsTellable t = true
  := by
  induction items generalizing index with
  | nil => simp [itemsTellable, itemParts]
  | cons v rest ih =>
    have hrest := ih (fun w hw => h w (by simp [hw])) (index + 1)
    cases v with
    | obj fields =>
      have hc : Entries.contains fields (.text typeKey) = true := h (.obj fields) (by simp)
      rw [itemParts, List.forall_mem_cons, ← hrest]
      simp [itemsTellable, hc, Part.Tellable, Part.asset?, hkey]
    | _ => simp [Json.isAsset] at h

/-- The paths below an array that is no list of disconnected trees. -/
theorem arrayTellable_iff {key : Key} (items : List Json)
    (hdisc : (key == .text disconnectedKey) = false) :
  valueTellable key (.arr items) = true
    ↔ ∀ part ∈ valueParts key (.arr items),
      part.Tellable ∧ ∀ t, part.asset? = some t → fieldsTellable t = true
  := by
  have hkind : (Json.arr items).kind = .assetArray
      ↔ (!items.isEmpty && items.all Json.isAsset) = true := by
    simp [Json.kind]
  have hplain : ∀ part ∈ [Part.plain key (.arr items)],
      ∀ t, part.asset? = some t → fieldsTellable t = true := by
    simp [Part.asset?]
  by_cases hkey : (key == .text typeKey) = true
  · obtain rfl := Key.eq_of_beq_text hkey
    have hvalue : valueParts (.text typeKey) (.arr items)
        = [.plain (.text typeKey) (.arr items)] := by
      simp [valueParts, bne, hdisc]
    rw [hvalue, valueTellable, if_pos hkey]
    refine iff_of_true rfl fun part hmem => ⟨?_, hplain part hmem⟩
    obtain rfl := List.mem_singleton.mp hmem
    exact fun _ => rfl
  · by_cases hassets : (!items.isEmpty && items.all Json.isAsset) = true
    · have hvalue : valueParts key (.arr items) = .record key :: itemParts key 0 items := by
        simp [valueParts, bne, hkey, hdisc, hkind.mpr hassets]
      obtain ⟨hne, hitems⟩ := Json.isAsset_of_kind (hkind.mpr hassets)
      rw [hvalue, List.forall_mem_cons, valueTellable, if_neg hkey, if_neg (by simp [hdisc]),
        if_pos hassets, Bool.and_eq_true]
      constructor
      · rintro ⟨hname, hbelow⟩
        exact ⟨⟨trivial, by simp [Part.asset?]⟩, (itemsTellable_iff_items hname hitems 0).mp hbelow⟩
      · rintro ⟨-, hbelow⟩
        have hname : key.isSpellable = true := by
          obtain ⟨v, rest, rfl⟩ := List.exists_cons_of_ne_nil hne
          cases v with
          | obj fields => exact (hbelow (.child ⟨key, some 0, fields⟩) (by simp [itemParts])).1
          | _ => simp [Json.isAsset] at hitems
        exact ⟨hname, (itemsTellable_iff_items hname hitems 0).mpr hbelow⟩
    · have hvalue : valueParts key (.arr items) = [.plain key (.arr items)] := by
        simp [valueParts, hdisc, mt hkind.mp hassets]
      rw [hvalue, valueTellable, if_neg hkey, if_neg (by simp [hdisc]), if_neg hassets]
      rw [List.forall_mem_singleton, and_iff_left (hplain _ List.mem_cons_self), Part.Tellable]
      cases items.any Json.isAsset <;> simp

/-- The paths below a field part by part. -/
theorem valueTellable_iff {key : Key} {v : Json}
    (h : (key == .text disconnectedKey) = true → ∃ items, v = .arr items) :
  valueTellable key v = true
    ↔ ∀ part ∈ valueParts key v,
      part.Tellable ∧ ∀ t, part.asset? = some t → fieldsTellable t = true
  := by
  by_cases hdisc : (key == .text disconnectedKey) = true
  · obtain ⟨items, rfl⟩ := h hdisc
    obtain rfl := Key.eq_of_beq_text hdisc
    have hkey : (Key.text disconnectedKey == .text typeKey) = false := by decide
    simp only [valueTellable, valueParts, hkey, hdisc]
    apply itemsTellable_iff_trees
  · rw [Bool.not_eq_true] at hdisc
    cases v with
    | obj fields =>
      by_cases hkey : (key == .text typeKey) = true
      · simp [valueTellable, valueParts, bne, hkey, Part.Tellable, Part.asset?]
      · cases hc : Entries.contains fields (.text typeKey) <;>
          simp [valueTellable, valueParts, bne, hkey, hdisc, hc, Part.Tellable, Part.asset?]
    | arr items => apply arrayTellable_iff items hdisc
    | _ => simp [valueTellable, valueParts, Part.Tellable, Part.asset?]

/-- The paths below an asset part by part. -/
theorem fieldsTellable_iff {fields : Fields} (h : Listed fields) :
  fieldsTellable fields = true
    ↔ ∀ part ∈ parts fields,
      part.Tellable ∧ ∀ t, part.asset? = some t → fieldsTellable t = true
  := by
  induction fields with
  | nil => simp [fieldsTellable, parts]
  | cons f rest ih =>
    obtain ⟨key, v⟩ := f
    rw [fieldsTellable, Bool.and_eq_true, valueTellable_iff (h (key, v) (by simp)),
      ih fun f hf => h f (by simp [hf]), parts, parts, List.flatMap_cons, List.forall_mem_append]

/-- Where disconnected trees are in lists, the paths of a validation have a spelling exactly if the
names of all parts have one. -/
theorem fieldsTellable_iff_everywhere {field : Option String} {fields : Fields}
    (h : Everywhere (fun _ => Listed) field fields) :
  fieldsTellable fields = true
    ↔ Everywhere (fun _ t => ∀ part ∈ parts t, part.Tellable) field fields
  := by
  induction fields using Asset.induction generalizing field with
  | step fields ih =>
    rw [fieldsTellable_iff h.here]
    constructor
    · intro htellable
      apply Everywhere.of_parts
      · intro part hmem
        exact (htellable part hmem).1
      intro part hmem t ht
      exact (ih part hmem t ht (h.below hmem ht)).mp ((htellable part hmem).2 t ht)
    · intro htellable part hmem
      use htellable.here part hmem
      intro t ht
      exact (ih part hmem t ht (h.below hmem ht)).mpr (htellable.below hmem ht)

end Asset

namespace Layout

open Asset

/-! ### Warnings -/

/-- Whether a warning is about an item that was skipped. -/
def skips (warning : String) : Bool := "Skipped".toList.isPrefixOf warning.toList

theorem skips_append (start rest : String) (h : skips start = true) : skips (start ++ rest) = true
  := by
  rw [skips, List.isPrefixOf_iff_prefix] at h ⊢
  rw [String.toList_append]
  apply h.trans (List.prefix_append _ _)

/-- A warning about a port that was moved is about no skipped item. -/
theorem skips_moved (rest : String) : skips ("Port migrated on " ++ rest) = false
  := by
  rw [skips, String.toList_append]
  rfl

theorem countP_childWarnings (owner : Owner) (c : Child) :
  (childWarnings owner c).countP skips = 0
  := by
  unfold childWarnings
  split
  · unfold movedWarnings
    dsimp only
    split
    · rw [List.countP_singleton, if_neg]
      simp only [String.append_assoc]
      rw [Bool.not_eq_true]
      apply skips_moved
    · rfl
  · rfl

theorem countP_skipped (index : Nat) : (skipped index).warnings.countP skips = 1
  := by
  unfold skipped
  dsimp only
  rw [List.countP_singleton, if_pos]
  simp only [String.append_assoc]
  apply skips_append
  decide

/-- Whether as many messages speak of a discriminant as nodes have no textual one, and as many of
a disconnected tree as warnings speak of skipped items. -/
structure Tallies (messages : List String) (nodes : List PlacedNode) (warnings : List String) :
    Prop where
  types : messages.countP (endsIn typeEndings)
    = nodes.countP (fun m => m.owner.assetType.text?.isNone)
  trees : messages.countP (endsIn treeEndings) = warnings.countP skips

theorem Tallies.append {messages messages' : List String} {nodes nodes' : List PlacedNode}
    {warnings warnings' : List String} (h : Tallies messages nodes warnings)
    (h' : Tallies messages' nodes' warnings') :
  Tallies (messages ++ messages') (nodes ++ nodes') (warnings ++ warnings')
  where
  types := by rw [List.countP_append, List.countP_append, h.types, h'.types]
  trees := by rw [List.countP_append, List.countP_append, h.trees, h'.trees]

/-- An asset adds the message on its own discriminant and its own node to those of its parts. -/
theorem Tallies.close {fields : Fields} {path : String} {owner : Owner} {body : Fragment}
    (h : Tallies ((parts fields).flatMap (Part.problems path)) body.nodes body.warnings)
    (hlisted : Listed fields) (howner : owner.assetType = Json.field fields typeKey) :
  Tallies (problemsAt path (.obj fields)) (body.close owner) body.warnings
  := by
  obtain ⟨htypes, htrees⟩ := countP_typeProblems path (Json.field fields typeKey)
  constructor
  · rw [problemsAt, fieldProblems_eq path hlisted, List.countP_append, htypes, h.types,
      Fragment.close, List.countP_cons, howner]
    apply Nat.add_comm
  · rw [problemsAt, fieldProblems_eq path hlisted, List.countP_append, htrees, h.trees]
    apply Nat.zero_add

/-- The messages on the parts of an asset tally with the fragment of the parts. -/
theorem tallies_parts (stem : String) {ps : List Part}
    (h : ∀ part ∈ ps, ∀ t, part.asset? = some t → Everywhere (fun _ => Listed) part.parent? t)
    (path : String) (owner : Owner) (n index : Nat) :
  Tallies (ps.flatMap (Part.problems path)) (placeParts stem owner n index ps).nodes
    (placeParts stem owner n index ps).warnings
  := by
  induction ps using parts_induction generalizing path owner n index with
  | nil => exact ⟨rfl, rfl⟩
  | cons part rest ihasset ihrest =>
    have hrest := ihrest (fun part' hmem => h part' (by simp [hmem])) path owner
      (n + (placePart stem owner n index part).nodes.length)
      (index + (placePart stem owner n index part).children)
    -- the asset below the part, at its path and with its node
    have hbelow : ∀ t, part.asset? = some t → ∀ path' (child : Owner),
        child.assetType = Json.field t typeKey →
          Tallies (problemsAt path' (.obj t)) ((bodyOf stem child n t).close child)
            (bodyOf stem child n t).warnings := by
      intro t ht path' child hchild
      have hlisted := h part (by simp) t ht
      apply Tallies.close _ hlisted.here hchild
      apply ihasset t ht fun part' hmem t' ht' => hlisted.below hmem ht'
    have hfirst : Tallies (part.problems path) (placePart stem owner n index part).nodes
        (placePart stem owner n index part).warnings := by
      cases part with
      | plain key v =>
        obtain ⟨htypes, htrees⟩ := countP_mixedProblems path key v
        exact ⟨htypes, htrees⟩
      | record key => exact ⟨rfl, rfl⟩
      | child c =>
        have hasset := hbelow c.fields rfl (c.path path) (childOwner stem owner n index c)
          (assetType_classify _ _)
        have hmoved : (childWarnings owner c).countP skips = 0 := countP_childWarnings owner c
        rw [placePart_child]
        use hasset.types
        rw [Part.problems, hasset.trees, Fragment.ofChild, List.countP_append, hmoved,
          Nat.add_zero]
      | tree position t =>
        rw [placePart_tree]
        apply hbelow t rfl (treePath path position) (treeOwner stem owner n position t)
          (assetType_classify _ _)
      | skipped position =>
        obtain ⟨htypes, htrees⟩ := countP_skippedProblem (treePath path position)
        exact ⟨htypes, htrees.trans (countP_skipped position).symm⟩
    rw [List.flatMap_cons, placeParts]
    apply hfirst.append hrest

/-- The messages on a tree tally with the fragment of the tree. -/
theorem tallies_placeRoot (stem : String) {field : Option String} {fields : Fields}
    (h : Everywhere (fun _ => Listed) field fields) :
  Tallies (problemsAt "root" (.obj fields)) (placeRoot stem field fields).nodes
    (placeRoot stem field fields).warnings
  := by
  rw [placeRoot_eq]
  apply Tallies.close _ h.here (assetType_classify _ _)
  apply tallies_parts stem fun part hmem t ht => h.below hmem ht

/-- The warnings of a layout are those of the fragment of its tree. -/
theorem warnings_of_ofAsset {fields : Fields} {stem : Json} {start : Float × Float}
    {field : Option String} {policy : LayoutPolicy} {l : Layout}
    (h : Layout.ofAsset (.obj fields) stem start (Json.ofOption field) policy = .ok l) :
  l.warnings = (placeRoot (stemOf policy stem) field fields).warnings
  := by
  rw [ofAsset_ofOption] at h
  obtain ⟨-, -, h⟩ := Fault.bind_eq_ok_iff.mp h
  obtain ⟨-, -, h⟩ := Fault.bind_eq_ok_iff.mp h
  obtain ⟨nodes, -, h⟩ := Fault.bind_eq_ok_iff.mp h
  obtain ⟨-, -, h⟩ := Fault.bind_eq_ok_iff.mp h
  obtain rfl := Except.ok.inj h
  rfl

/-- Where disconnected trees are in lists, validation and the descent visit the same assets: as many
messages speak of a discriminant as there are nodes without a textual one, and as many of a
disconnected tree as there are warnings about skipped items.  The nodes and the warnings are those
of the layout, which there is for assets that fit if the stem of the ids and the discriminant of the
root have a spelling.  There are messages if the names on all paths have one. -/
theorem census (fields : Fields) (stem : Json) (start : Float × Float) (field : Option String)
    (policy : LayoutPolicy) (h : Everywhere (fun _ => Listed) field fields) :
  (policy.Spaced → Everywhere (fun _ => Fits) field fields →
      ((∃ l, Layout.ofAsset (.obj fields) stem start (Json.ofOption field) policy = .ok l)
        ↔ (stemValue policy stem).isSpellable = true
          ∧ (Json.field fields typeKey).isSpellable = true))
    ∧ ((∃ messages, Asset.problems (.obj fields) = .ok messages)
      ↔ Everywhere (fun _ t => ∀ part ∈ parts t, part.Tellable) field fields)
    ∧ ∀ messages, Asset.problems (.obj fields) = .ok messages →
      Tallies messages (placeRoot (stemOf policy stem) field fields).nodes
        (placeRoot (stemOf policy stem) field fields).warnings
      ∧ ∀ l, Layout.ofAsset (.obj fields) stem start (Json.ofOption field) policy = .ok l →
        messages.countP (endsIn typeEndings) = l.nodes.countP (fun n => n.assetType.text?.isNone)
          ∧ messages.countP (endsIn treeEndings) = l.warnings.countP skips
  := by
  have htallies := tallies_placeRoot (stemOf policy stem) h
  refine ⟨?_, ?_, ?_⟩
  · intro hp hfits
    apply exists_ofAsset_iff_of_fits stem start hp hfits
  · rw [← fieldsTellable_iff_everywhere h, Asset.problems]
    cases fieldsTellable fields <;> simp
  · intro messages hmessages
    obtain rfl := eq_of_problems hmessages
    use htallies
    intro l hl
    obtain ⟨-, -, hnodes⟩ := ofAsset_eq_ok hl
    have hcontents : (placeRoot (stemOf policy stem) field fields).nodes.map
        (fun m => m.owner.assetType) = l.nodes.map Node.assetType := by
      apply Fault.map_eq_map_of_forall₂
      apply hnodes.imp
      intro m n hn
      exact congrArg Node.assetType (content_of_toNode hn).2.1.symm
    have hcount : l.nodes.countP (fun n => n.assetType.text?.isNone)
        = (placeRoot (stemOf policy stem) field fields).nodes.countP
          (fun m => m.owner.assetType.text?.isNone) := by
      have hmap := congrArg (List.countP fun v : Json => v.text?.isNone) hcontents
      rw [List.countP_map, List.countP_map] at hmap
      apply hmap.symm
    rw [hcount, warnings_of_ofAsset hl]
    exact ⟨htallies.types, htallies.trees⟩

theorem everywhere_listed_scattered : Everywhere (fun _ => Listed) none scattered
  := by
  apply everywhere_scattered
  · intro f hf hkey
    simp only [scattered, List.mem_cons, List.not_mem_nil, or_false] at hf
    rcases hf with rfl | rfl <;> exact absurd hkey (by decide)
  · intro f hf hkey
    simp only [scatteredInput, List.mem_cons, List.not_mem_nil, or_false] at hf
    rcases hf with rfl | rfl
    · exact absurd hkey (by decide)
    · exact ⟨_, rfl⟩
  · intro _ type f hf hkey
    obtain rfl := List.mem_singleton.mp hf
    change (Key.text typeKey == Key.text disconnectedKey) = true at hkey
    exact absurd hkey (by decide)

/-- One discriminant is missing, one is a number, and one item is no asset. -/
theorem census_scattered :
  ∃ l messages, Layout.ofAsset (.obj scattered) .null (0.0, 0.0) .null {} = .ok l
    ∧ Asset.problems (.obj scattered) = .ok messages
    ∧ messages.countP (endsIn typeEndings) = 2
    ∧ l.nodes.countP (fun n => n.assetType.text?.isNone) = 2
    ∧ messages.countP (endsIn treeEndings) = 1 ∧ l.warnings.countP skips = 1
  := by
  have hcounts : (problemsAt "root" (.obj scattered)).countP (endsIn typeEndings) = 2
      ∧ (problemsAt "root" (.obj scattered)).countP (endsIn treeEndings) = 1 := by
    decide
  obtain ⟨hexists, -, hcensus⟩ := census scattered .null (0.0, 0.0) none {}
    everywhere_listed_scattered
  obtain ⟨l, hl⟩ := (hexists LayoutPolicy.spaced_standard everywhere_fits_scattered).mpr
    ⟨rfl, rfl⟩
  have hmessages : Asset.problems (.obj scattered) = .ok (problemsAt "root" (.obj scattered)) := rfl
  obtain ⟨htypes, htrees⟩ := (hcensus _ hmessages).2 l hl
  exact ⟨l, _, hl, hmessages, hcounts.1, htypes ▸ hcounts.1, hcounts.2, htrees ▸ hcounts.2⟩

end Layout

end AssetCanvas
