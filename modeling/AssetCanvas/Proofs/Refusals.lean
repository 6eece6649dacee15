import AssetCanvas.Graph.Document
import AssetCanvas.Proofs.Fault
import AssetCanvas.Proofs.Floats
import AssetCanvas.Proofs.Spelling

/-!
# What is refused as no graph

A value that is not shaped like a graph is refused with a fault that says so, `Fault.isRefusal`.
Two parts of a node escape this: a coordinate that is a text without a number or an integer beyond
the floats, `Document.Unplaced`, and plain fields that are listed with too few or too many parts in
an item, `Document.Uneven`.  An edge escapes it if it has no id and an end or a port without a
spelling, `Edge.Escapes`.  The first node that cannot be read decides, and where all nodes are read
the first edge, `Graph.Escapes`; `Graph.read_or_refused_iff` says that nothing else escapes.
-/

namespace AssetCanvas

/-- Whether a fault refuses a value as no graph, or as one under tables that cannot be read. -/
def Fault.isRefusal : Fault → Bool
  | .notAGraph _ => true
  | .entriesNotArrays => true
  | .missingEntry _ => true
  | .malformedEntry => true
  | .unreadableTable _ => true
  | _ => false

namespace Document

/-! ### Faults of an entry -/

variable {α β : Type}

/-- Whether an operation on an entry fails with a fault that does not refuse the graph. -/
def Fails (x : Except Fault α) (fault : Fault) : Prop :=
  x = .error fault ∧ (Graph.entryFault fault).isRefusal = false

@[simp] theorem not_fails_ok (a : α) (fault : Fault) : ¬ Fails (.ok a) fault
  := by
  simp [Fails]

theorem not_fails_error {e : Fault} (h : (Graph.entryFault e).isRefusal = true) (fault : Fault) :
  ¬ Fails (α := α) (.error e) fault
  := by
  rintro ⟨herror, hfault⟩
  rw [← Except.error.inj herror, h] at hfault
  cases hfault

@[simp] theorem not_fails_wrongKind (fault : Fault) : ¬ Fails (α := α) (.error .wrongKind) fault
  := not_fails_error rfl fault

theorem fails_error_iff {e fault : Fault} (h : (Graph.entryFault e).isRefusal = false) :
  Fails (α := α) (.error e) fault ↔ fault = e
  := by
  constructor
  · rintro ⟨herror, -⟩
    exact (Except.error.inj herror).symm
  · rintro rfl
    exact ⟨rfl, h⟩

theorem fails_bind_iff {x : Except Fault α} {f : α → Except Fault β} {fault : Fault} :
  Fails (x >>= f) fault ↔ Fails x fault ∨ ∃ a, x = .ok a ∧ Fails (f a) fault
  := by
  simp only [Fails, Fault.bind_eq_error_iff]
  grind

theorem fails_map_iff {x : Except Fault α} {f : α → β} {fault : Fault} :
  Fails (f <$> x) fault ↔ Fails x fault
  := by
  cases x <;> simp [Fails, Functor.map, Except.map]

theorem fails_mapM_iff {f : α → Except Fault β} {l : List α} {fault : Fault} :
  Fails (l.mapM f) fault ↔ ∃ before a after, l = before ++ a :: after
    ∧ (∀ a' ∈ before, ∃ b, f a' = .ok b) ∧ Fails (f a) fault
  := by
  simp only [Fails, Fault.mapM_eq_error_iff]
  grind

/-- The faults that escape are left as they are. -/
theorem fails_iff_mapError {x : Except Fault α} {fault : Fault} :
  (x.mapError Graph.entryFault = .error fault ∧ fault.isRefusal = false) ↔ Fails x fault
  := by
  cases x with
  | ok a => simp [Except.mapError]
  | error e =>
    have hkept : (Graph.entryFault e).isRefusal = false → Graph.entryFault e = e := by
      cases e <;> simp [Graph.entryFault, Fault.isRefusal]
    simp only [Except.mapError, Fails, Except.error.injEq]
    constructor
    · rintro ⟨rfl, hfault⟩
      simp only [hkept hfault] at hfault ⊢
      exact ⟨trivial, hfault⟩
    · rintro ⟨rfl, hfault⟩
      simp only [hkept hfault] at hfault ⊢
      exact ⟨trivial, hfault⟩

/-! ### Parts of a node -/

/-- A coordinate that stands for no float: a text that is no numeral, or an integer beyond the
finite floats. -/
inductive Unplaced : Json → Fault → Prop
  | numeral {s : String} : Numeral.toFloat? s = none → Unplaced (.str s) .unusableValue
  | huge {n : Int} : Binary64.ofInt? n = none → Unplaced (.int n) .outOfRange

theorem unplaced_str_iff {s : String} {fault : Fault} :
  Unplaced (.str s) fault ↔ Numeral.toFloat? s = none ∧ fault = .unusableValue
  := by
  constructor
  · rintro (h | _)
    exact ⟨h, rfl⟩
  · rintro ⟨h, rfl⟩
    exact .numeral h

theorem unplaced_int_iff {n : Int} {fault : Fault} :
  Unplaced (.int n) fault ↔ Binary64.ofInt? n = none ∧ fault = .outOfRange
  := by
  constructor
  · rintro (_ | h)
    exact ⟨h, rfl⟩
  · rintro ⟨h, rfl⟩
    exact .huge h

theorem fails_toFloat_iff {v : Json} {fault : Fault} : Fails v.toFloat fault ↔ Unplaced v fault
  := by
  cases v with
  | int n =>
    rw [unplaced_int_iff]
    cases h : Binary64.ofInt? n with
    | none =>
      have hfails : (Json.int n).toFloat = .error .outOfRange := by
        simp [Json.toFloat, Json.number, Json.number?, Number.toFloat, h]
      rw [hfails, fails_error_iff rfl, and_iff_right rfl]
    | some x =>
      have hfloat : (Json.int n).toFloat = .ok x := by
        simp [Json.toFloat, Json.number, Json.number?, Number.toFloat, h]
      simp [hfloat]
  | str s =>
    rw [unplaced_str_iff]
    cases h : Numeral.toFloat? s with
    | none =>
      have hfails : (Json.str s).toFloat = .error .unusableValue := by simp [Json.toFloat, h]
      rw [hfails, fails_error_iff rfl, and_iff_right rfl]
    | some x =>
      have hfloat : (Json.str s).toFloat = .ok x := by simp [Json.toFloat, h]
      simp [hfloat]
  | bool b =>
    obtain ⟨x, hx⟩ := Binary64.exists_ofInt? (n := if b then 1 else 0) (by cases b <;> decide)
    have hfloat : (Json.bool b).toFloat = .ok x := by
      simp [Json.toFloat, Json.number, Json.number?, Number.toFloat, hx]
    rw [hfloat]
    exact iff_of_false (not_fails_ok x fault) (by rintro ⟨⟩)
  | float x => exact iff_of_false (not_fails_ok x fault) (by rintro ⟨⟩)
  | _ => exact iff_of_false (not_fails_wrongKind fault) (by rintro ⟨⟩)

theorem fails_coordinate_iff {place : Fields} {key : String} {fault : Fault} :
  Fails (coordinate place key) fault
    ↔ ∃ v, Entries.find? place (.text key) = some v ∧ Unplaced v fault
  := by
  unfold coordinate
  cases Entries.find? place (.text key) with
  | none => simp
  | some v => simp [fails_toFloat_iff]

/-- A list of the plain fields of a node in which an item has not two parts, while the items before
it are pairs with a key. -/
structure Uneven (v : Json) : Prop where
  nonempty : v.truthy = true
  listed : ∀ fields, v ≠ .obj fields
  item : ∃ before item after parts, v.items = .ok (before ++ item :: after)
    ∧ (∀ w ∈ before, ∃ key value, w.pair = .ok (key, value) ∧ key.key?.isSome = true)
    ∧ item.items = .ok parts ∧ parts.length ≠ 2

/-- The key and the value of an item of a list of plain fields. -/
def keyed (v : Json) : Except Fault (Key × Json) := do
  let (key, value) ← v.pair
  return (← key.key, value)

theorem addPair_eq (fields : Fields) (v : Json) :
  addPair fields v = do
    let entry ← keyed v
    return Entries.insert fields entry.1 entry.2
  := by
  cases hpair : v.pair with
  | error e => simp [addPair, keyed, hpair]
  | ok entry => cases hkey : entry.1.key <;> simp [addPair, keyed, hpair, hkey]

theorem not_fails_members (v : Json) (fault : Fault) : ¬ Fails v.members fault
  := by
  cases v with
  | obj fields => exact not_fails_ok fields fault
  | _ => exact not_fails_error rfl fault

theorem not_fails_required (fields : Fields) (key : String) (fault : Fault) :
  ¬ Fails (Json.required fields key) fault
  := by
  unfold Json.required
  split
  · apply not_fails_ok
  · exact not_fails_error rfl fault

theorem not_fails_entry (v : Json) (key : String) (fault : Fault) : ¬ Fails (entry v key) fault
  := by
  cases v with
  | obj fields => exact not_fails_required fields key fault
  | _ => apply not_fails_wrongKind

theorem not_fails_key (v : Json) (fault : Fault) : ¬ Fails v.key fault
  := by
  cases h : v.key? <;> simp [Json.key, h]

theorem not_fails_items (v : Json) (fault : Fault) : ¬ Fails v.items fault
  := by
  cases v <;> simp [Json.items]

theorem fails_pair_iff {v : Json} {fault : Fault} :
  Fails v.pair fault
    ↔ (∃ parts, v.items = .ok parts ∧ parts.length ≠ 2) ∧ fault = .unusableValue
  := by
  rw [Json.pair, fails_bind_iff]
  constructor
  · rintro (hitems | ⟨parts, hparts, hfails⟩)
    · exact (not_fails_items v fault hitems).elim
    · split at hfails
      · exact (not_fails_ok _ fault hfails).elim
      · rename_i hother
        refine ⟨⟨parts, hparts, ?_⟩, (Except.error.inj hfails.1).symm⟩
        intro hlength
        obtain ⟨a, b, rfl⟩ := List.length_eq_two.mp hlength
        exact hother a b rfl
  · rintro ⟨⟨parts, hparts, hlength⟩, rfl⟩
    right
    use parts, hparts
    split
    · simp at hlength
    · exact ⟨rfl, rfl⟩

theorem fails_keyed_iff {v : Json} {fault : Fault} :
  Fails (keyed v) fault
    ↔ (∃ parts, v.items = .ok parts ∧ parts.length ≠ 2) ∧ fault = .unusableValue
  := by
  rw [keyed, fails_bind_iff, fails_pair_iff]
  constructor
  · rintro (hpair | ⟨entry, -, hfails⟩)
    · exact hpair
    · obtain hkey | ⟨key, -, hpure⟩ := fails_bind_iff.mp hfails
      · exact (not_fails_key _ fault hkey).elim
      · exact (not_fails_ok _ fault hpure).elim
  · intro hpair
    left
    exact hpair

theorem exists_keyed_iff {v : Json} :
  (∃ entry, keyed v = .ok entry)
    ↔ ∃ key value, v.pair = .ok (key, value) ∧ key.key?.isSome = true
  := by
  cases hpair : v.pair with
  | error e => simp [keyed, hpair]
  | ok entry =>
    obtain ⟨key, value⟩ := entry
    cases hkey : key.key? <;> simp [keyed, hpair, Json.key, hkey]

theorem plainFields_listed {v : Json} (htruthy : v.truthy = true)
    (hlisted : ∀ fields, v ≠ .obj fields) :
  plainFields v = do return Entries.ofList (← (← v.items).mapM keyed)
  := by
  have haddPair : addPair = fun fields v => do
      let entry ← keyed v
      return Entries.insert fields entry.1 entry.2 := funext fun b => funext (addPair_eq b)
  unfold plainFields
  rw [if_pos htruthy, haddPair]
  cases v with
  | obj fields => exact (hlisted fields rfl).elim
  | _ => simp only [Fault.foldlM_bind_pure, Entries.ofList]

theorem fails_plainFields_iff {v : Json} {fault : Fault} :
  Fails (plainFields v) fault ↔ Uneven v ∧ fault = .unusableValue
  := by
  by_cases htruthy : v.truthy = true
  · by_cases hobj : ∃ fields, v = .obj fields
    · obtain ⟨fields, rfl⟩ := hobj
      have hok : plainFields (.obj fields) = .ok fields := by simp [plainFields, htruthy]
      rw [hok]
      exact iff_of_false (not_fails_ok fields fault) fun huneven => huneven.1.listed fields rfl
    · have hlisted : ∀ fields, v ≠ .obj fields := fun fields h => hobj ⟨fields, h⟩
      simp only [plainFields_listed htruthy hlisted, fails_bind_iff, Fault.pure_eq_ok,
        not_fails_ok, not_fails_items, and_false, exists_false, or_false, false_or,
        fails_mapM_iff, fails_keyed_iff, exists_keyed_iff]
      constructor
      · rintro ⟨items, hitems, before, item, after, rfl, hbefore, ⟨parts, hparts, hlength⟩, hfault⟩
        refine ⟨⟨htruthy, hlisted, ?_⟩, hfault⟩
        exact ⟨before, item, after, parts, hitems, hbefore, hparts, hlength⟩
      · rintro ⟨⟨-, -, before, item, after, parts, hitems, hbefore, hparts, hlength⟩, hfault⟩
        exact ⟨_, hitems, before, item, after, rfl, hbefore, ⟨parts, hparts, hlength⟩, hfault⟩
  · have hok : plainFields v = .ok [] := by simp [plainFields, htruthy]
    rw [hok]
    exact iff_of_false (not_fails_ok [] fault) fun huneven => htruthy huneven.1.nonempty

/-! ### Parts of an edge -/

theorem fails_spelled_iff {v : Json} {fault : Fault} :
  Fails v.spelled fault ↔ v.isSpellable = false ∧ fault = .unusableValue
  := by
  rw [Fails, Json.spelled_eq_error_iff, and_iff_left_iff_imp]
  rintro ⟨-, rfl⟩
  rfl

end Document

open Document

/-! ### Nodes -/

namespace Node

/-- The object of a node is read up to its position. -/
structure Begins (fields place : Fields) : Prop where
  id : ∃ v, Entries.find? fields (.text "id") = some v
  label : ∃ v, Entries.find? fields (.text "type") = some v
  place : Json.field fields "position" = .obj place
    ∨ (Json.field fields "position").truthy = false ∧ place = []

/-- What escapes in the object of a node: the first of its coordinates and its plain fields that
does. -/
inductive Escapes (fields : Fields) : Fault → Prop
  | x {place : Fields} {v : Json} {fault : Fault} : Begins fields place →
    Entries.find? place (.text "x") = some v → Unplaced v fault → Escapes fields fault
  | y {place : Fields} {x : Float} {v : Json} {fault : Fault} : Begins fields place →
    coordinate place "x" = .ok x →
    Entries.find? place (.text "y") = some v → Unplaced v fault → Escapes fields fault
  | plain {place : Fields} {x y : Float} : Begins fields place →
    coordinate place "x" = .ok x → coordinate place "y" = .ok y →
    Uneven (Json.field fields "fields") → Escapes fields .unusableValue

theorem exists_required_iff {fields : Fields} {key : String} :
  (∃ v, Json.required fields key = .ok v) ↔ ∃ v, Entries.find? fields (.text key) = some v
  := by
  unfold Json.required
  cases Entries.find? fields (.text key) <;> simp

theorem members_eq_ok_iff {v : Json} {fields : Fields} :
  v.members = .ok fields ↔ v = .obj fields
  := by
  cases v <;> simp [Json.members]

theorem position_eq_ok_iff {v : Json} {place : Fields} :
  (if v.truthy then v.members else .ok []) = Except.ok place
    ↔ v = .obj place ∨ v.truthy = false ∧ place = []
  := by
  cases htruthy : v.truthy with
  | true => simp [members_eq_ok_iff]
  | false =>
    have hempty : v = .obj place → place = [] := by
      rintro rfl
      simpa [Json.truthy] using htruthy
    simp only [Bool.false_eq_true, if_false, Except.ok.injEq, true_and]
    constructor
    · rintro rfl
      right
      rfl
    · rintro (hobj | rfl)
      · rw [hempty hobj]
      · rfl

theorem not_fails_position (v : Json) (fault : Fault) :
  ¬ Fails (if v.truthy then v.members else .ok []) fault
  := by
  split
  · apply not_fails_members
  · apply not_fails_ok

theorem not_fails_record (v : Json) (fault : Fault) : ¬ Fails (record v) fault
  := by
  unfold record
  split
  · apply not_fails_ok
  · rw [fails_bind_iff]
    rintro (hitems | ⟨items, -, hpure⟩)
    · exact not_fails_items v fault hitems
    · exact not_fails_ok _ fault hpure

theorem fails_read_iff {v : Json} {fault : Fault} :
  Fails (Node.read v) fault ↔ ∃ fields, v = .obj fields ∧ Escapes fields fault
  := by
  simp only [Node.read, Fault.ite_bind, fails_bind_iff, Fault.pure_eq_ok, not_fails_ok,
    not_fails_members, not_fails_required, not_fails_position, not_fails_record, and_false,
    exists_false, or_false, false_or, members_eq_ok_iff, position_eq_ok_iff, fails_coordinate_iff,
    fails_plainFields_iff]
  constructor
  · rintro ⟨fields, rfl, id, hid, label, hlabel, place, hplace, hrest⟩
    have hbegins : Begins fields place :=
      ⟨exists_required_iff.mp ⟨id, hid⟩, exists_required_iff.mp ⟨label, hlabel⟩, hplace⟩
    use fields, rfl
    obtain ⟨v, hx, hv⟩ | ⟨x, hx, ⟨v, hy, hv⟩ | ⟨y, hy, huneven, rfl⟩⟩ := hrest
    · exact .x hbegins hx hv
    · exact .y hbegins hx hy hv
    · exact .plain hbegins hx hy huneven
  · rintro ⟨fields, rfl, hescapes⟩
    obtain ⟨hbegins, hx, hv⟩ | ⟨hbegins, hx, hy, hv⟩ | ⟨hbegins, hx, hy, huneven⟩ := hescapes
    all_goals
      obtain ⟨id, hid⟩ := exists_required_iff.mpr hbegins.id
      obtain ⟨label, hlabel⟩ := exists_required_iff.mpr hbegins.label
      refine ⟨fields, rfl, id, hid, label, hlabel, _, hbegins.place, ?_⟩
    · left
      exact ⟨_, hx, hv⟩
    · right
      refine ⟨_, hx, ?_⟩
      left
      exact ⟨_, hy, hv⟩
    · right
      refine ⟨_, hx, ?_⟩
      right
      exact ⟨_, hy, huneven, rfl⟩

end Node

/-! ### Edges -/

namespace Edge

/-- What escapes in the object of an edge without an id: an end or a port without a spelling. -/
structure Escapes (fields : Fields) (start finish : Json) : Prop where
  source : Entries.find? fields (.text "source") = some start
  target : Entries.find? fields (.text "target") = some finish
  id : (Json.field fields "id").truthy = false
  unspelled : (start.isSpellable && finish.isSpellable
    && (valueOr (Json.field fields "target_port") Port.default).isSpellable) = false

theorem fails_standardId_iff {source target port : Json} {fault : Fault} :
  Fails (standardId source target port) fault
    ↔ (source.isSpellable && target.isSpellable && port.isSpellable) = false
      ∧ fault = .unusableValue
  := by
  have hexists (v : Json) (P : Prop) : (∃ text, v.spelled = .ok text ∧ P)
      ↔ v.isSpellable = true ∧ P := by
    rw [← Json.exists_spelled_iff, exists_and_right]
  simp only [standardId, fails_bind_iff, Fault.pure_eq_ok, not_fails_ok, and_false, exists_false,
    or_false, fails_spelled_iff, hexists]
  cases source.isSpellable <;> cases target.isSpellable <;> simp

theorem entry_eq_ok_iff {v w : Json} {key : String} :
  entry v key = .ok w ↔ ∃ fields, v = .obj fields ∧ Entries.find? fields (.text key) = some w
  := by
  cases v with
  | obj fields =>
    cases h : Entries.find? fields (.text key) <;> simp [entry, Json.required, h]
  | _ => simp [entry]

theorem fails_read_iff {v : Json} {fault : Fault} :
  Fails (Edge.read v) fault
    ↔ (∃ fields source target, v = .obj fields ∧ Escapes fields source target)
      ∧ fault = .unusableValue
  := by
  have hgiven (given source target port : Json) :
      Fails (if given.truthy then .ok given else .str <$> standardId source target port) fault
        ↔ given.truthy = false ∧ (source.isSpellable && target.isSpellable && port.isSpellable)
            = false ∧ fault = .unusableValue := by
    rw [← fails_standardId_iff]
    cases given.truthy <;> simp [fails_map_iff]
  simp only [Edge.read, Fault.ite_bind, fails_bind_iff, Fault.pure_eq_ok, not_fails_ok,
    not_fails_entry, not_fails_members, and_false, exists_false, or_false, false_or, hgiven,
    entry_eq_ok_iff, Node.members_eq_ok_iff]
  constructor
  · rintro ⟨source, ⟨fields, rfl, hsource⟩, target, ⟨fields', hobj, htarget⟩, fields'', hobj',
      hid, hunspelled, rfl⟩
    obtain rfl := Json.obj.inj hobj
    obtain rfl := Json.obj.inj hobj'
    exact ⟨⟨fields, source, target, rfl, hsource, htarget, hid, hunspelled⟩, rfl⟩
  · rintro ⟨⟨fields, source, target, rfl, hsource, htarget, hid, hunspelled⟩, rfl⟩
    exact ⟨source, ⟨fields, rfl, hsource⟩, target, ⟨fields, rfl, htarget⟩, fields, rfl, hid,
      hunspelled, rfl⟩

end Edge

/-! ### Graphs -/

namespace Graph

/-- What escapes in a value that is read as a graph: what escapes in the first of its nodes that
cannot be read, or in the first of its edges where all its nodes are read. -/
inductive Escapes : Json → Fault → Prop
  | node {fields entry : Fields} {before after edges : List Json} {fault : Fault} :
    stampProblems fields = [] →
    Entries.find? fields (.text "nodes") = some (.arr (before ++ .obj entry :: after)) →
    (Entries.find? fields (.text "edges")).getD (.arr []) = .arr edges →
    (∀ v ∈ before, ∃ n, Node.read v = .ok n) → Node.Escapes entry fault →
      Escapes (.obj fields) fault
  | edge {fields entry : Fields} {source target : Json} {nodes before after : List Json} :
    stampProblems fields = [] →
    (Entries.find? fields (.text "nodes")).getD (.arr []) = .arr nodes →
    Entries.find? fields (.text "edges") = some (.arr (before ++ .obj entry :: after)) →
    (∀ v ∈ nodes, ∃ n, Node.read v = .ok n) → (∀ v ∈ before, ∃ e, Edge.read v = .ok e) →
    Edge.Escapes entry source target →
      Escapes (.obj fields) .unusableValue

theorem fails_readEntries_iff {nodes edges : List Json} {fault : Fault} :
  Fails (readEntries nodes edges) fault
    ↔ Fails (nodes.mapM Node.read) fault
      ∨ (∀ v ∈ nodes, ∃ n, Node.read v = .ok n) ∧ Fails (edges.mapM Edge.read) fault
  := by
  simp only [readEntries, fails_bind_iff, Fault.pure_eq_ok, not_fails_ok, and_false, exists_false,
    or_false, exists_and_right, Fault.exists_mapM_iff]

/-- The edges or the nodes of an object that lists some. -/
theorem find?_of_getD_cons {fields : Fields} {key : Key} {before after : List Json} {v : Json}
    (h : (Entries.find? fields key).getD (.arr []) = .arr (before ++ v :: after)) :
  Entries.find? fields key = some (.arr (before ++ v :: after))
  := by
  cases hfind : Entries.find? fields key with
  | none => simp [hfind] at h
  | some w => simpa [hfind] using h

/-- What escapes is neither refused nor read. -/
theorem escapes_iff (d : Json) (fault : Fault) :
  Escapes d fault ↔ read d = .error fault ∧ fault.isRefusal = false
  := by
  constructor
  · rintro (@⟨fields, entry, before, after, edges, _, hstamp, hnodes, hedges, hbefore, hentry⟩
      | @⟨fields, entry, source, target, nodes, before, after, hstamp, hnodes, hedges, hread,
          hbefore, hentry⟩)
    · rw [read, readFields, hstamp, hnodes, hedges]
      apply fails_iff_mapError.mpr
      apply fails_readEntries_iff.mpr
      left
      apply fails_mapM_iff.mpr
      exact ⟨before, .obj entry, after, rfl, hbefore, Node.fails_read_iff.mpr ⟨entry, rfl, hentry⟩⟩
    · rw [read, readFields, hstamp, hnodes, hedges]
      apply fails_iff_mapError.mpr
      apply fails_readEntries_iff.mpr
      right
      use hread
      apply fails_mapM_iff.mpr
      refine ⟨before, .obj entry, after, rfl, hbefore, Edge.fails_read_iff.mpr ⟨?_, rfl⟩⟩
      exact ⟨entry, source, target, rfl, hentry⟩
  · rintro ⟨herror, hfault⟩
    cases d with
    | obj fields =>
      simp only [read, readFields] at herror
      split at herror
      next hstamp =>
        have hstamp := List.isEmpty_iff.mp hstamp
        split at herror
        next nodes edges hnodes hedges =>
          have hfails := fails_iff_mapError.mp ⟨herror, hfault⟩
          obtain hfails | ⟨hread, hfails⟩ := fails_readEntries_iff.mp hfails
          · obtain ⟨before, v, after, rfl, hbefore, hv⟩ := fails_mapM_iff.mp hfails
            obtain ⟨entry, rfl, hentry⟩ := Node.fails_read_iff.mp hv
            exact .node hstamp (find?_of_getD_cons hnodes) hedges hbefore hentry
          · obtain ⟨before, v, after, rfl, hbefore, hv⟩ := fails_mapM_iff.mp hfails
            obtain ⟨⟨entry, source, target, rfl, hentry⟩, rfl⟩ := Edge.fails_read_iff.mp hv
            exact .edge hstamp hnodes (find?_of_getD_cons hedges) hread hbefore hentry
        next =>
          obtain rfl := Except.error.inj herror
          cases hfault
      next =>
        obtain rfl := Except.error.inj herror
        cases hfault
    | _ =>
      obtain rfl := Except.error.inj herror
      cases hfault

/-- What escapes is a value of the right kind that stands for no number or no pair or has no
spelling, or a number that is no float. -/
theorem Escapes.fault {d : Json} {fault : Fault} (h : Escapes d fault) :
  fault = .unusableValue ∨ fault = .outOfRange
  := by
  obtain ⟨-, -, -, -, ⟨-, -, hv⟩ | ⟨-, -, -, hv⟩ | -⟩ | - := h
  · cases hv <;> simp
  · cases hv <;> simp
  · simp
  · simp

/-- A value is read as a document or refused as none exactly if nothing in it escapes; else the
fault is what escapes. -/
theorem read_or_refused_iff (d : Json) :
  (((∃ g, read d = .ok g) ∨ ∃ fault, read d = .error fault ∧ fault.isRefusal = true)
      ↔ ∀ fault, ¬ Escapes d fault)
    ∧ ∀ fault, Escapes d fault →
      read d = .error fault ∧ (fault = .unusableValue ∨ fault = .outOfRange)
  := by
  constructor
  · constructor
    · rintro (⟨g, hg⟩ | ⟨e, he, hrefusal⟩) fault hescapes
      · obtain ⟨herror, -⟩ := (escapes_iff d fault).mp hescapes
        rw [hg] at herror
        cases herror
      · obtain ⟨herror, hfault⟩ := (escapes_iff d fault).mp hescapes
        obtain rfl := Except.error.inj (he.symm.trans herror)
        rw [hrefusal] at hfault
        cases hfault
    · intro hnone
      cases hread : read d with
      | ok g =>
        left
        exact ⟨g, rfl⟩
      | error e =>
        right
        use e, rfl
        by_contra hrefusal
        exact hnone e ((escapes_iff d e).mpr ⟨hread, Bool.eq_false_iff.mpr hrefusal⟩)
  · intro fault hescapes
    exact ⟨((escapes_iff d fault).mp hescapes).1, hescapes.fault⟩

/-- A node whose position is spelled out. -/
def misplacedEntry : Fields :=
  [("id", .str "a"), ("type", .str "Zero"), ("position", .obj [("x", .str "left")])]

/-- A graph with a node whose position is spelled out. -/
def misplaced : Json := .obj [("nodes", .arr [.obj misplacedEntry])]

theorem misplaced_escapes :
  read misplaced = .error .unusableValue ∧ Fault.isRefusal .unusableValue = false
  := by
  have hbegins : Node.Begins misplacedEntry [("x", .str "left")] := by
    refine ⟨⟨.str "a", rfl⟩, ⟨.str "Zero", rfl⟩, ?_⟩
    left
    rfl
  have hentry : Node.Escapes misplacedEntry .unusableValue :=
    .x hbegins rfl (.numeral (by decide))
  have hnodes : Entries.find? [(Key.text "nodes", Json.arr [.obj misplacedEntry])] (.text "nodes")
      = some (Json.arr ([] ++ .obj misplacedEntry :: [])) := rfl
  have hescapes : Escapes misplaced .unusableValue := .node rfl hnodes rfl (by simp) hentry
  exact ⟨((read_or_refused_iff misplaced).2 _ hescapes).1, rfl⟩

end Graph

end AssetCanvas
