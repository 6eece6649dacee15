import AssetCanvas.Proofs.Acyclic
import AssetCanvas.Proofs.Reachability
import AssetCanvas.Proofs.Tables

/-!
# Where the sources come from

Whatever the labels and the ports of a graph are, its input map and the table with the current
port names have under an id only sources from which an edge leads to the id: `Graph.Fed`.
Migration may move a source to another port or drop it, but it makes none up.
-/

namespace AssetCanvas

namespace Entries

variable {κ ν : Type} [BEq κ]

/-- An entry of a map with one more value is the new one, or it was there. -/
theorem mem_insert [ReflBEq κ] {m : List (κ × ν)} {k : κ} {v : ν} {entry : κ × ν}
    (h : entry ∈ insert m k v) :
  (entry.1 == k) = true ∧ entry.2 = v ∨ entry ∈ m
  := by
  induction m with
  | nil =>
    left
    rw [List.mem_singleton.mp h]
    exact ⟨BEq.rfl, rfl⟩
  | cons first rest ih =>
    rw [insert] at h
    split at h
    next hk =>
      rcases List.mem_cons.mp h with rfl | h
      · exact .inl ⟨hk, rfl⟩
      · exact .inr (.tail _ h)
    next =>
      rcases List.mem_cons.mp h with rfl | h
      · exact .inr (.head _)
      · exact (ih h).imp_right (.tail _)

end Entries

/-! ### Migration -/

namespace Migration

variable {σ : Type}

theorem mem_moveLegacy {place port current : String} {state : Migrated σ} {source : σ}
    {entry : Key × σ} (h : entry ∈ (moveLegacy place state port current source).1) :
  entry.2 = source ∨ entry ∈ state.1
  := by
  rw [moveLegacy] at h
  split at h
  · exact .inr h
  · exact (Entries.mem_insert h).imp_left And.right

/-- Moving legacy ports makes no source up. -/
theorem mem_foldl_moveLegacy {label place : String} {ports : List (Key × σ)} {state : Migrated σ}
    {entry : Key × σ} (h : entry ∈ (ports.foldl (fun state entry =>
      match replacement? label entry.1 with
      | none => state
      | some current => moveLegacy place state entry.1.spelling current entry.2) state).1) :
  entry.2 ∈ ports.map Prod.snd ∨ entry ∈ state.1
  := by
  induction ports generalizing state with
  | nil => exact .inr h
  | cons first rest ih =>
    rw [List.map_cons, List.mem_cons, or_assoc]
    rcases ih h with hrest | hstate
    · exact .inr (.inl hrest)
    · cases hr : replacement? label first.1 with
      | none =>
        simp only [hr] at hstate
        exact .inr (.inr hstate)
      | some current =>
        simp only [hr] at hstate
        exact (mem_moveLegacy hstate).imp_right .inr

theorem mem_migrateUnder {label : Json} {context : String} {ports : List (Key × σ)}
    {migrated : Migrated σ} (h : migrateUnder label ports context = .ok migrated)
    {entry : Key × σ} (hmem : entry ∈ migrated.1) :
  entry.2 ∈ ports.map Prod.snd
  := by
  obtain ⟨name, -, hname⟩ := Fault.bind_eq_ok_iff.mp h
  split at hname
  · obtain rfl := Except.ok.inj hname
    rcases mem_foldl_moveLegacy hmem with hmoved | hkept
    · exact hmoved
    · apply List.mem_map_of_mem (List.mem_of_mem_filter hkept)
  · obtain rfl := Except.ok.inj hname
    apply List.mem_map_of_mem hmem

end Migration

/-! ### Tables -/

namespace Graph

variable {g : Graph} {table : List (String × Inputs)}

/-- Whether the sources under every id of a table feed the id. -/
def Fed (g : Graph) (table : List (String × Inputs)) : Prop :=
  ∀ id ports, (id, ports) ∈ table → ∀ key source, (key, source) ∈ ports → g.Feeds source id

/-- One more edge of the graph keeps the table so. -/
theorem Fed.addInput (h : g.Fed table) {e : Edge} (he : e ∈ g.edges)
    {table' : List (String × Inputs)} (hadd : Graph.addInput table e = .ok table') :
  g.Fed table'
  := by
  obtain ⟨port, -, hput⟩ := Fault.bind_eq_ok_iff.mp hadd
  obtain rfl := Except.ok.inj hput
  intro id ports hports key source hsource
  rcases Entries.mem_insert hports with ⟨hid, rfl⟩ | hold
  · obtain rfl := eq_of_beq hid
    rcases Entries.mem_insert hsource with ⟨-, rfl⟩ | hsource
    · exact ⟨e, he, rfl, rfl⟩
    · cases hfind : Entries.find? table e.target with
      | none =>
        rw [hfind] at hsource
        cases hsource
      | some ports =>
        rw [hfind] at hsource
        apply h _ _ (Entries.entry_mem_of_find? hfind) _ _ hsource
  · apply h id ports hold key source hsource

theorem fed_inputMap (h : g.inputMap = .ok table) : g.Fed table
  := by
  apply Fault.foldlM_keeps _ _ h
  · intro table e he hfed table' hadd
    apply hfed.addInput he hadd
  · intro id ports hmem
    cases hmem

/-- The sources in the table of the interpreters come from edges. -/
theorem fed_currentInputs {nodes : List (String × Node)} (h : g.currentInputs nodes = .ok table) :
  g.Fed table
  := by
  obtain ⟨inputs, hinputs, hflatten⟩ := Fault.bind_eq_ok_iff.mp h
  obtain ⟨tables, htables, hflatten⟩ := Fault.bind_eq_ok_iff.mp hflatten
  obtain rfl := Except.ok.inj hflatten
  intro id ports hports key source hsource
  obtain ⟨entries, hentries, hmem⟩ := List.mem_flatten.mp hports
  obtain ⟨entry, hentry, htarget⟩ :=
    Fault.exists_of_mem_right (Fault.mapM_eq_ok_iff.mp htables) hentries
  rw [targetInputs] at htarget
  split at htarget
  · obtain ⟨migrated, hmigrated, hpure⟩ := Fault.bind_eq_ok_iff.mp htarget
    obtain rfl := Except.ok.inj hpure
    obtain ⟨rfl, rfl⟩ := Prod.mk.inj (List.mem_singleton.mp hmem)
    obtain ⟨⟨key', _⟩, hmem', rfl⟩ := List.mem_map.mp (Migration.mem_migrateUnder hmigrated hsource)
    apply fed_inputMap hinputs _ _ hentry _ _ hmem'
  · obtain rfl := Except.ok.inj htarget
    cases hmem

/-- What the interpreters find as a source of a node feeds the node. -/
theorem feeds_of_find? {nodes : List (String × Node)} (h : g.currentInputs nodes = .ok table)
    {id source : String} {key : Key}
    (hsource : Entries.find? ((Entries.find? table id).getD []) key = some source) :
  g.Feeds source id
  := by
  cases hports : Entries.find? table id with
  | none =>
    rw [hports] at hsource
    cases hsource
  | some ports =>
    rw [hports] at hsource
    obtain ⟨key', -, hkey⟩ := Entries.mem_of_find? hsource
    apply fed_currentInputs h _ _ (Entries.entry_mem_of_find? hports) _ _ hkey

/-- The sources of what is above a node are above the node. -/
theorem mem_ancestorIds_of_find? {nodes : List (String × Node)}
    (h : g.currentInputs nodes = .ok table) {id other source : String} {key : Key}
    (hid : id ∈ g.ancestorIds other)
    (hsource : Entries.find? ((Entries.find? table id).getD []) key = some source) :
  source ∈ g.ancestorIds other
  := by
  obtain ⟨e, he, rfl, rfl⟩ := feeds_of_find? h hsource
  apply g.closed_ancestorIds other e he hid

end Graph

end AssetCanvas
