import AssetCanvas.Preview.Inputs
import AssetCanvas.Proofs.Fault
import AssetCanvas.Proofs.Slots
import Mathlib.Data.List.Induction

/-!
# The tables of the interpreters

The interpreters read the source of a port from a table, `Graph.currentInputs`.  It is made in
two steps: of several edges into one port the last one counts, and then the legacy ports get
their current names, unless these are taken.  `Graph.find?_currentInputs` reads an entry of the
table off the edges of the graph.
-/

namespace AssetCanvas

/-- The name under which the input map has a port: a port without a name is the default one. -/
def Port.inputName (port : String) : String := if port = "" then Port.default else port

/-- The name under which the input map has an edge. -/
def Edge.inputName (e : Edge) : String := Port.inputName (e.targetPort.text?.getD "")

/-- An edge whose port is a text. -/
def Edge.Textual (e : Edge) : Prop := ∃ port, e.targetPort = .str port

theorem Edge.Textual.inputPort {e : Edge} (h : e.Textual) :
  Graph.inputPort e = .ok (.text e.inputName)
  := by
  obtain ⟨port, hport⟩ := h
  by_cases hempty : port = ""
  · simp [Graph.inputPort, Edge.inputName, Port.inputName, hport, hempty, Json.truthy, Json.text?]
  · simp [Graph.inputPort, Edge.inputName, Port.inputName, hport, hempty, Json.truthy, Json.text?,
      Json.key, Json.key?]

/-! ### The input map -/

namespace Graph

/-- The sources of the ports that some edges feed, in the order of the edges. -/
def feeds (edges : List Edge) : List (Key × String) :=
  edges.map fun e => (.text e.inputName, e.source)

/-- The last edge into a port counts. -/
theorem find?_foldlM_addInput {edges : List Edge} (h : ∀ e ∈ edges, e.Textual) :
  ∃ m, edges.foldlM addInput [] = .ok m ∧ ∀ id, Entries.find? m id
    = if (edges.filter fun e => e.target = id) = [] then none
      else some (Entries.ofList (feeds (edges.filter fun e => e.target = id)))
  := by
  induction edges using List.reverseRecOn with
  | nil =>
    use []
    exact ⟨rfl, fun id => rfl⟩
  | append_singleton before e ih =>
    obtain ⟨m, hm, hfind⟩ := ih fun e' hmem => h e' (by simp [hmem])
    have hport := (h e (by simp)).inputPort
    use Entries.insert m e.target
      (Entries.insert ((Entries.find? m e.target).getD []) (.text e.inputName) e.source)
    constructor
    · rw [List.foldlM_append, hm]
      simp [addInput, hport]
    · intro id
      rw [Entries.find?_insert, List.filter_append]
      by_cases hid : e.target = id
      · subst hid
        by_cases hbefore : (before.filter fun e' => e'.target = e.target) = []
        · simp [hfind, hbefore, feeds, Entries.ofList, Entries.insert]
        · simp [hfind, hbefore, feeds, Entries.ofList]
      · simp [hid, hfind]

end Graph

/-! ### Migration -/

namespace Migration

variable {σ : Type}

/-- The source of the first legacy port with a current name. -/
def legacySource (label : String) (ports : List (Key × σ)) (current : String) : Option σ :=
  (ports.find? fun entry => replacement? label entry.1 = some current).map Prod.snd

/-- Legacy ports are moved to their current names, unless these are taken. -/
theorem find?_foldl_moveLegacy (label place : String) (ports : List (Key × σ))
    (state : Migrated σ) (port : String) :
  Entries.find? (ports.foldl (fun state entry =>
      match replacement? label entry.1 with
      | none => state
      | some current => moveLegacy place state entry.1.spelling current entry.2) state).1 (.text port)
    = (Entries.find? state.1 (.text port)).or (legacySource label ports port)
  := by
  induction ports generalizing state with
  | nil => simp [legacySource]
  | cons entry rest ih =>
    rw [List.foldl_cons, ih]
    cases hr : replacement? label entry.1 with
    | none => simp [legacySource, hr]
    | some current =>
      by_cases hcurrent : current = port
      · subst hcurrent
        cases hfind : Entries.find? state.1 (.text current) with
        | none => simp [moveLegacy, Entries.contains, hfind, legacySource, hr, Entries.find?_insert]
        | some source => simp [moveLegacy, Entries.contains, hfind]
      · by_cases htaken : Entries.contains state.1 (.text current) = true
        · simp [moveLegacy, htaken, legacySource, hr, hcurrent]
        · simp [moveLegacy, htaken, legacySource, hr, hcurrent, Entries.find?_insert]

/-- The migrated map: a current port has its own source, or else that of a legacy port. -/
theorem find?_migrate (label : String) (ports : List (Key × σ)) (context port : String) :
  Entries.find? (migrate label ports context).1 (.text port)
    = (if replacement? label port = none then Entries.find? ports (.text port) else none).or
        (legacySource label ports port)
  := by
  apply Eq.trans (find?_foldl_moveLegacy label _ ports _ port)
  congr 1
  induction ports with
  | nil => simp [Entries.find?]
  | cons entry rest ih =>
    by_cases hkey : (entry.1 == .text port) = true
    · have hentry := Key.eq_of_beq_text hkey
      cases hr : replacement? label port with
      | none => simp [Entries.find?, hentry, hr]
      | some current =>
        rw [hr] at ih
        simpa [hentry, hr] using ih
    · cases hr : replacement? label entry.1 with
      | none => simpa [Entries.find?, hkey, hr] using ih
      | some current => simpa [Entries.find?, hkey, hr] using ih

/-- A current name has at most one legacy name. -/
theorem eq_of_replacement? {label port port' current : String}
    (h : replacement? label (.text port) = some current)
    (h' : replacement? label (.text port') = some current) :
  port = port'
  := by
  have hnames : ∀ rename ∈ pairRenames, ∀ rename' ∈ pairRenames, rename.2 = rename'.2 →
      rename.1 = rename'.1 := by
    decide
  apply hnames _ (mem_pairRenames h) _ (mem_pairRenames h') rfl

theorem legacySource_of_replacement? {label port current : String}
    (h : replacement? label (.text port) = some current) (ports : List (Key × σ)) :
  legacySource label ports current = Entries.find? ports (.text port)
  := by
  induction ports with
  | nil => rfl
  | cons entry rest ih =>
    rw [legacySource] at ih ⊢
    by_cases hkey : (entry.1 == .text port) = true
    · simp [Entries.find?, Key.eq_of_beq_text hkey, h]
    · have hne : replacement? label entry.1 ≠ some current := by
        intro heq
        obtain ⟨name, hname, -⟩ := Option.bind_eq_some_iff.mp heq
        cases hentry : entry.1 with
        | text name' =>
          rw [hentry] at heq hkey
          obtain rfl := eq_of_replacement? h heq
          simp at hkey
        | _ =>
          rw [hentry] at hname
          cases hname
      simp [Entries.find?, hkey, hne, ih]

theorem exists_of_legacySource {label current : String} {ports : List (Key × σ)} {source : σ}
    (h : legacySource label ports current = some source) :
  ∃ port, replacement? label (.text port) = some current
  := by
  obtain ⟨⟨key, source'⟩, hentry, -⟩ := Option.map_eq_some_iff.mp h
  have hr := List.find?_some hentry
  rw [decide_eq_true_iff] at hr
  cases key with
  | text port => use port
  | _ => cases hr

end Migration

/-! ### The table -/

namespace Graph

variable {g : Graph}

theorem mem_nodes_of_find? {id : String} {n : Node} (h : Entries.find? g.nodeMap id = some n) :
  n ∈ g.nodes ∧ n.id = id
  := by
  rw [nodeMap, Entries.find?_ofList] at h
  have hmem := List.mem_reverse.mp (Entries.entry_mem_of_find? h)
  obtain ⟨n', hn', heq⟩ := List.mem_map.mp hmem
  obtain ⟨rfl, rfl⟩ := Prod.mk.inj heq
  exact ⟨hn', rfl⟩

/-- The ids that are looked up are those of the nodes. -/
theorem mem_keys_nodeMap_iff {id : String} :
  id ∈ Entries.keys g.nodeMap ↔ id ∈ g.nodes.map Node.id
  := by
  rw [Entries.mem_keys_iff]
  constructor
  · rintro ⟨n, hfind⟩
    obtain ⟨hn, rfl⟩ := mem_nodes_of_find? hfind
    apply List.mem_map_of_mem hn
  · intro h
    obtain ⟨n, hn, rfl⟩ := List.mem_map.mp h
    rw [nodeMap, Entries.find?_ofList]
    cases hfind : Entries.find? (g.nodes.map fun n => (n.id, n)).reverse n.id with
    | some n' => exact ⟨n', rfl⟩
    | none =>
      have hne := Entries.find?_eq_none_iff.mp hfind (n.id, n) (by
        rw [List.mem_reverse]
        apply List.mem_map_of_mem (f := fun n : Node => (n.id, n)) hn)
      simp at hne

/-- The table has the migrated inputs of every node. -/
theorem find?_mapM_targetInputs {nodes : List (String × Node)}
    (h : ∀ id n, Entries.find? nodes id = some n → ∃ label, n.label = .str label)
    (m : List (String × Inputs)) :
  ∃ tables, m.mapM (targetInputs nodes) = .ok tables ∧ ∀ id n label,
    Entries.find? nodes id = some n → n.label = .str label →
      Entries.find? tables.flatten id
        = (Entries.find? m id).map fun ports => (Migration.migrate label ports id).1
  := by
  induction m with
  | nil =>
    use []
    exact ⟨rfl, fun id n label _ _ => rfl⟩
  | cons entry rest ih =>
    obtain ⟨tables, htables, hfind⟩ := ih
    obtain ⟨target, ports⟩ := entry
    cases htarget : Entries.find? nodes target with
    | none =>
      use [] :: tables
      constructor
      · simp [List.mapM_cons, targetInputs, htarget, htables]
      · intro id n label hn hlabel
        have hne : ¬ target = id := by
          rintro rfl
          rw [htarget] at hn
          cases hn
        simp [Entries.find?, hne, hfind id n label hn hlabel]
    | some n =>
      obtain ⟨label, hlabel⟩ := h target n htarget
      use [(target, (Migration.migrate label ports target).1)] :: tables
      constructor
      · simp [List.mapM_cons, targetInputs, htarget, htables, hlabel, Migration.migrateUnder,
          Json.key, Json.key?, Key.text?]
      · intro id n' label' hn hlabel'
        by_cases hid : target = id
        · subst hid
          obtain rfl : n = n' := Option.some.inj (htarget.symm.trans hn)
          obtain rfl : label = label' := Json.str.inj (hlabel.symm.trans hlabel')
          simp [Entries.find?]
        · simp [Entries.find?, hid, hfind id n' label' hn hlabel']

/-- A graph whose labels and ports are texts. -/
structure Textual (g : Graph) : Prop where
  labels : ∀ n ∈ g.nodes, ∃ label, n.label = .str label
  ports : ∀ e ∈ g.edges, e.Textual

/-- The table of a textual graph has for every node the migrated sources of the edges into it. -/
theorem find?_currentInputs (h : g.Textual) :
  ∃ tables, g.currentInputs g.nodeMap = .ok tables ∧ ∀ id n label,
    Entries.find? g.nodeMap id = some n → n.label = .str label →
      Entries.find? tables id
        = if g.inboundEdges id = [] then none
          else some (Migration.migrate label (Entries.ofList (feeds (g.inboundEdges id))) id).1
  := by
  obtain ⟨m, hm, hfind⟩ := find?_foldlM_addInput h.ports
  have hlabels : ∀ id n, Entries.find? g.nodeMap id = some n → ∃ label, n.label = .str label :=
    fun id n hn => h.labels n (mem_nodes_of_find? hn).1
  obtain ⟨tables, htables, hfind'⟩ := find?_mapM_targetInputs hlabels m
  use tables.flatten
  constructor
  · simp [currentInputs, inputMap, hm, htables]
  · intro id n label hn hlabel
    rw [hfind' id n label hn hlabel, hfind id, inboundEdges]
    split <;> rfl

/-- Whether the interpreters read the source of a port of a node as an id. -/
def Reads (g : Graph) (id port source : String) : Prop :=
  ∃ tables ports, g.currentInputs g.nodeMap = .ok tables ∧ Entries.find? tables id = some ports
    ∧ Entries.find? ports (.text port) = some source

/-- Whether the table keeps one of the edges into a node: it is the last edge into its port, and
if the port is a legacy port, then no edge feeds its current name. -/
structure Keeps (label : String) (edges : List Edge) (e : Edge) : Prop where
  last : (edges.filter fun e' => e'.inputName = e.inputName).getLast? = some e
  current : ∀ port, Migration.replacement? label (.text e.inputName) = some port →
    ∀ e' ∈ edges, e'.inputName ≠ port

theorem find?_feeds (edges : List Edge) (port : String) :
  Entries.find? (Entries.ofList (feeds edges)) (.text port)
    = ((edges.filter fun e => e.inputName = port).getLast?).map Edge.source
  := by
  rw [Entries.find?_ofList]
  induction edges using List.reverseRecOn with
  | nil => rfl
  | append_singleton before e ih =>
    by_cases hport : e.inputName = port
    · simp [feeds, Entries.find?, hport]
    · simpa [feeds, Entries.find?, hport] using ih

theorem mem_of_last {edges : List Edge} {port : String} {e : Edge}
    (h : (edges.filter fun e => e.inputName = port).getLast? = some e) :
  e ∈ edges ∧ e.inputName = port
  := by
  have hmem := List.mem_filter.mp (List.mem_of_getLast? h)
  exact ⟨hmem.1, by simpa using hmem.2⟩

/-- An edge that the table keeps is found under the current name of its port. -/
theorem Keeps.find?_migrate {label : String} {edges : List Edge} {e : Edge}
    (h : Keeps label edges e) (context : String) :
  Entries.find? (Migration.migrate label (Entries.ofList (feeds edges)) context).1
    (.text (Migration.current label e.inputName)) = some e.source
  := by
  have hown : Entries.find? (Entries.ofList (feeds edges)) (.text e.inputName) = some e.source := by
    rw [find?_feeds, h.last]
    rfl
  rw [Migration.find?_migrate, Migration.current_eq]
  cases hr : Migration.replacement? label (.text e.inputName) with
  | none =>
    rw [Option.getD_none, if_pos hr, hown]
    rfl
  | some port =>
    have hcurrent : Migration.replacement? label (.text port) = none :=
      Migration.replacement?_of_mem (Migration.mem_pairRenames hr)
    have hnone : Entries.find? (Entries.ofList (feeds edges)) (.text port) = none := by
      rw [find?_feeds, Option.map_eq_none_iff, List.getLast?_eq_none_iff, List.filter_eq_nil_iff]
      intro e' hmem
      simpa using h.current port hr e' hmem
    rw [Option.getD_some, if_pos hcurrent, hnone, Migration.legacySource_of_replacement? hr, hown]
    rfl

/-- What is found in the migrated sources of some edges comes from an edge that is kept. -/
theorem exists_keeps {label context port source : String} {edges : List Edge}
    (h : Entries.find? (Migration.migrate label (Entries.ofList (feeds edges)) context).1
      (.text port) = some source) :
  ∃ e, Keeps label edges e ∧ Migration.current label e.inputName = port ∧ e.source = source
  := by
  rw [Migration.find?_migrate] at h
  rcases Option.or_eq_some_iff.mp h with hown | ⟨hnone, hlegacy⟩
  · -- the port has a source of its own
    split at hown
    · rename_i hcurrent
      rw [find?_feeds] at hown
      obtain ⟨e, hlast, hs⟩ := Option.map_eq_some_iff.mp hown
      obtain ⟨-, rfl⟩ := mem_of_last hlast
      use e
      refine ⟨⟨hlast, ?_⟩, ?_, hs⟩
      · intro port hr
        rw [hcurrent] at hr
        cases hr
      · rw [Migration.current_eq, hcurrent]
        rfl
    · cases hown
  · -- the port has the source of its legacy port
    obtain ⟨name, hr⟩ := Migration.exists_of_legacySource hlegacy
    have hcurrent : Migration.replacement? label (.text port) = none :=
      Migration.replacement?_of_mem (Migration.mem_pairRenames hr)
    rw [Migration.legacySource_of_replacement? hr, find?_feeds] at hlegacy
    obtain ⟨e, hlast, hs⟩ := Option.map_eq_some_iff.mp hlegacy
    obtain ⟨-, rfl⟩ := mem_of_last hlast
    rw [if_pos hcurrent, find?_feeds, Option.map_eq_none_iff, List.getLast?_eq_none_iff,
      List.filter_eq_nil_iff] at hnone
    use e
    refine ⟨⟨hlast, ?_⟩, ?_, hs⟩
    · intro port' hr' e' hmem heq
      obtain rfl := Option.some.inj (hr.symm.trans hr')
      apply hnone e' hmem
      simpa using heq
    · rw [Migration.current_eq, hr]
      rfl

/-- The interpreters read the sources of the edges that the table keeps, under the current names
of their ports. -/
theorem reads_iff (h : g.Textual) {id : String} {n : Node}
    (hn : Entries.find? g.nodeMap id = some n) {label : String} (hlabel : n.label = .str label)
    (port source : String) :
  g.Reads id port source ↔ ∃ e, Keeps label (g.inboundEdges id) e
    ∧ Migration.current label e.inputName = port ∧ e.source = source
  := by
  obtain ⟨tables, htables, hfind⟩ := find?_currentInputs h
  have htable := hfind id n label hn hlabel
  constructor
  · rintro ⟨tables', ports, htables', hports, hsource⟩
    obtain rfl := Except.ok.inj (htables.symm.trans htables')
    rw [htable] at hports
    split at hports
    · cases hports
    · obtain rfl := Option.some.inj hports
      apply exists_keeps hsource
  · rintro ⟨e, hkeeps, rfl, rfl⟩
    refine ⟨tables, _, htables, ?_, hkeeps.find?_migrate id⟩
    rw [htable, if_neg]
    intro hnil
    have hmem := (mem_of_last hkeeps.last).1
    rw [hnil] at hmem
    cases hmem

end Graph

end AssetCanvas
