import AssetCanvas.Proofs.Reachability
import AssetCanvas.Proofs.Tables

/-!
# Restricted graphs

A graph restricted to a set of ids that no edge leaves backwards keeps what there is to know about
the ids of the set: their nodes, the edges into them, and also the inputs of their ports.  If the
table of the interpreters can be made for the graph, then also for its restriction, and both have
the same inputs for the nodes of the set: `Graph.Closed.exists_currentInputs`.  Nothing is said of
the labels and ports, which may be of any kind.
-/

namespace AssetCanvas.Graph

variable {g : Graph} {ids : List String} {id : String}

/-! ### Nodes -/

theorem mem_keys_subgraph_iff (h : id ∈ ids) :
  id ∈ Entries.keys (g.subgraph ids).nodeMap ↔ id ∈ Entries.keys g.nodeMap
  := by
  rw [Entries.mem_keys_iff, Entries.mem_keys_iff, find?_nodeMap_subgraph g h]

/-- The first node with an id of the set is the first one of the graph. -/
theorem node?_subgraph (h : id ∈ ids) : (g.subgraph ids).node? id = g.node? id
  := by
  rw [node?, node?, Graph.subgraph, List.find?_filter]
  congr 1
  funext n
  by_cases hid : n.id = id
  · simp [hid, h]
  · simp [hid]

/-! ### Tables -/

/-- Of the edges only those into ids of the set matter for what the input map has there. -/
theorem exists_foldlM_addInput_filter {p : Edge → Bool} {edges : List Edge}
    (hp : ∀ e ∈ edges, e.target ∈ ids → p e = true) {m m' table : List (String × Inputs)}
    (hsame : ∀ id ∈ ids, Entries.find? m id = Entries.find? m' id)
    (h : edges.foldlM addInput m = .ok table) :
  ∃ table', (edges.filter p).foldlM addInput m' = .ok table'
    ∧ ∀ id ∈ ids, Entries.find? table id = Entries.find? table' id
  := by
  induction edges generalizing m m' with
  | nil =>
    obtain rfl := Except.ok.inj h
    exact ⟨m', rfl, hsame⟩
  | cons e rest ih =>
    rw [List.foldlM_cons] at h
    obtain ⟨_, hadd, hrest⟩ := Fault.bind_eq_ok_iff.mp h
    obtain ⟨port, hport, hput⟩ := Fault.bind_eq_ok_iff.mp hadd
    obtain rfl := Except.ok.inj hput
    have hothers : ∀ e ∈ rest, e.target ∈ ids → p e = true := fun e he => hp e (by simp [he])
    cases hkept : p e with
    | true =>
      rw [List.filter_cons_of_pos hkept, List.foldlM_cons, addInput, hport]
      apply ih hothers _ hrest
      intro id hid
      rw [Entries.find?_insert, Entries.find?_insert, hsame id hid]
      by_cases htarget : e.target = id
      · rw [htarget, hsame id hid]
      · simp [htarget]
    | false =>
      rw [List.filter_cons_of_neg (by simp [hkept])]
      apply ih hothers _ hrest
      intro id hid
      have hne : e.target ≠ id := by
        rintro rfl
        rw [hp e (by simp) hid] at hkept
        cases hkept
      simp [Entries.find?_insert, hne, hsame id hid]

/-- Whether inputs can be migrated depends on the label only. -/
theorem exists_migrateUnder_iff {label : Json} {ports : Inputs} {context : String} :
  (∃ migrated, Migration.migrateUnder label ports context = .ok migrated)
    ↔ ∃ key, label.key = .ok key
  := by
  rw [Migration.migrateUnder]
  cases label.key with
  | error e => simp
  | ok key =>
    rw [Fault.ok_bind]
    split <;> simp

/-- The table has under the id of a node its migrated inputs. -/
theorem find?_flatten_of_mapM {nodes : List (String × Node)} {m : List (String × Inputs)}
    {tables : List (List (String × Inputs))} (h : m.mapM (targetInputs nodes) = .ok tables)
    {n : Node} (hn : Entries.find? nodes id = some n) :
  Entries.find? tables.flatten id
    = (Entries.find? m id).bind fun ports =>
        (Migration.migrateUnder n.label ports id).toOption.map Prod.fst
  := by
  have hentries := Fault.mapM_eq_ok_iff.mp h
  clear h
  induction hentries with
  | nil => rfl
  | @cons entry table rest tables hentry _ ih =>
    obtain ⟨target, ports⟩ := entry
    rw [List.flatten_cons]
    by_cases htarget : target = id
    · subst htarget
      simp only [targetInputs, hn] at hentry
      obtain ⟨migrated, hmigrated, hpure⟩ := Fault.bind_eq_ok_iff.mp hentry
      obtain rfl := Except.ok.inj hpure
      simp [Entries.find?, hmigrated, Except.toOption]
    · have hnone : Entries.find? table id = none := by
        rw [targetInputs] at hentry
        split at hentry
        · obtain ⟨migrated, -, hpure⟩ := Fault.bind_eq_ok_iff.mp hentry
          obtain rfl := Except.ok.inj hpure
          simp [Entries.find?, htarget]
        · obtain rfl := Except.ok.inj hentry
          rfl
      simp only [Entries.find?_append, hnone, ih, Option.none_or, Entries.find?, htarget,
        beq_iff_eq, if_false]

/-- If the inputs of all targets can be migrated, then also those of a target of a restriction:
its label is the same. -/
theorem exists_targetInputs_subgraph {m m' : List (String × Inputs)}
    {tables : List (List (String × Inputs))}
    (htables : m.mapM (targetInputs g.nodeMap) = .ok tables)
    (hsame : ∀ id ∈ ids, Entries.find? m id = Entries.find? m' id) {entry : String × Inputs}
    (hentry : entry ∈ m') :
  ∃ table, targetInputs (g.subgraph ids).nodeMap entry = .ok table
  := by
  obtain ⟨target, ports⟩ := entry
  rw [targetInputs]
  cases hn : Entries.find? (g.subgraph ids).nodeMap target with
  | none => exact ⟨[], rfl⟩
  | some n =>
    have hid := mem_of_find?_nodeMap_subgraph hn
    obtain ⟨ports', hfind⟩ := Entries.mem_keys_iff.mp (List.mem_map_of_mem hentry)
    have hmem := Entries.entry_mem_of_find? ((hsame _ hid).trans hfind)
    obtain ⟨inputs, hinputs⟩ := Fault.exists_mapM_iff.mp ⟨tables, htables⟩ _ hmem
    simp only [targetInputs, (find?_nodeMap_subgraph g hid).symm.trans hn] at hinputs
    obtain ⟨migrated, hmigrated, -⟩ := Fault.bind_eq_ok_iff.mp hinputs
    have hlabel := exists_migrateUnder_iff.mp ⟨migrated, hmigrated⟩
    obtain ⟨migrated', hmigrated'⟩ :
        ∃ migrated, Migration.migrateUnder n.label ports target = .ok migrated :=
      exists_migrateUnder_iff.mpr hlabel
    simp only [hmigrated']
    exact ⟨_, rfl⟩

/-- A graph for which the table of the interpreters can be made: the labels and the ports that it
needs can be keys. -/
def Tabular (g : Graph) : Prop := ∃ table, g.currentInputs g.nodeMap = .ok table

theorem Textual.tabular (h : g.Textual) : g.Tabular
  := by
  obtain ⟨table, htable, -⟩ := find?_currentInputs h
  use table

/-- If the table can be made for a graph, then also for its restriction to a closed set, with the
same inputs for the nodes of the set. -/
theorem Closed.exists_currentInputs (hclosed : g.Closed ids) {table : List (String × Inputs)}
    (h : g.currentInputs g.nodeMap = .ok table) :
  ∃ table', (g.subgraph ids).currentInputs (g.subgraph ids).nodeMap = .ok table'
    ∧ ∀ id ∈ ids, ∀ n, Entries.find? g.nodeMap id = some n →
      Entries.find? table id = Entries.find? table' id
  := by
  obtain ⟨m, hm, hrest⟩ := Fault.bind_eq_ok_iff.mp h
  obtain ⟨tables, htables, hflatten⟩ := Fault.bind_eq_ok_iff.mp hrest
  obtain rfl := Except.ok.inj hflatten
  have hkept : ∀ e ∈ g.edges, e.target ∈ ids →
      (ids.contains e.source && ids.contains e.target) = true := by
    intro e he htarget
    simp [htarget, hclosed e he htarget]
  obtain ⟨m', hm', hsame⟩ := exists_foldlM_addInput_filter hkept (fun _ _ => rfl) hm
  obtain ⟨tables', htables'⟩ := Fault.exists_mapM_iff.mpr fun entry hentry =>
    exists_targetInputs_subgraph htables hsame hentry
  use tables'.flatten
  constructor
  · have hmap : (g.subgraph ids).inputMap = .ok m' := hm'
    rw [currentInputs, hmap, Fault.ok_bind, htables']
    rfl
  · intro id hid n hn
    have hn' : Entries.find? (g.subgraph ids).nodeMap id = some n :=
      (find?_nodeMap_subgraph g hid).trans hn
    rw [find?_flatten_of_mapM htables hn, find?_flatten_of_mapM htables' hn', hsame id hid]

theorem Closed.tabular_subgraph (hclosed : g.Closed ids) (h : g.Tabular) : (g.subgraph ids).Tabular
  := by
  obtain ⟨table, htable⟩ := h
  obtain ⟨table', htable', -⟩ := hclosed.exists_currentInputs htable
  use table'

/-- A node of a closed set has the inputs that it has in the graph. -/
theorem Closed.find?_currentInputs (hclosed : g.Closed ids) {table table' : List (String × Inputs)}
    (h : g.currentInputs g.nodeMap = .ok table)
    (h' : (g.subgraph ids).currentInputs (g.subgraph ids).nodeMap = .ok table') (hid : id ∈ ids)
    {n : Node} (hn : Entries.find? g.nodeMap id = some n) :
  Entries.find? table id = Entries.find? table' id
  := by
  obtain ⟨_, hfound, hsame⟩ := hclosed.exists_currentInputs h
  obtain rfl := Except.ok.inj (h'.symm.trans hfound)
  apply hsame id hid n hn

end AssetCanvas.Graph
