import AssetCanvas.Assembly
import AssetCanvas.Preview.Inputs
import AssetCanvas.Preview.Root
import AssetCanvas.Proofs.Entries
import AssetCanvas.Proofs.Fault
import Mathlib.Algebra.Order.BigOperators.Group.List
import Mathlib.Algebra.Order.Ring.Nat
import Mathlib.Data.Set.Function

/-!
# Renamed ids

`Graph.rename` gives new ids to the nodes of a graph and to the ends of its edges.  If different
ids get different names, then everything that is found by ids is found again under the new ones:
nodes and edges, the tables of the interpreters, and the root of a preview,
`Graph.evaluationRoot_rename`.

A function that tells the ids of a graph apart renames it as some injective function does,
`exists_injective_of_injOn`.
-/

namespace AssetCanvas

/-- The node under another id. -/
def Node.rename (f : String → String) (n : Node) : Node := { n with id := f n.id }

/-- The edge between the nodes with other ids. -/
def Edge.rename (f : String → String) (e : Edge) : Edge :=
  { e with source := f e.source, target := f e.target }

/-- The graph under other ids. -/
def Graph.rename (f : String → String) (g : Graph) : Graph :=
  ⟨g.nodes.map (Node.rename f), g.edges.map (Edge.rename f)⟩

/-- The ids of the nodes of a graph and those at the ends of its edges. -/
def Graph.ids (g : Graph) : List String :=
  g.nodes.map Node.id ++ g.edges.flatMap fun e => [e.source, e.target]

namespace Fault

variable {α β γ δ : Type}

/-- An operation on every item commutes with a renaming if it does on each of them. -/
theorem mapM_map {f : α → Except Fault β} {f' : γ → Except Fault δ} {h : α → γ} {k : β → δ}
    (hf : ∀ a, f' (h a) = k <$> f a) (l : List α) :
  (l.map h).mapM f' = List.map k <$> l.mapM f
  := by
  induction l with
  | nil => rfl
  | cons a rest ih =>
    rw [List.map_cons, List.mapM_cons, List.mapM_cons, hf, ih]
    cases f a with
    | error e => rfl
    | ok b => cases rest.mapM f <;> rfl

theorem foldlM_map {f : β → α → Except Fault β} {f' : δ → γ → Except Fault δ} {h : α → γ}
    {k : β → δ} (hf : ∀ b a, f' (k b) (h a) = k <$> f b a) (l : List α) (b : β) :
  (l.map h).foldlM f' (k b) = k <$> l.foldlM f b
  := by
  induction l generalizing b with
  | nil => rfl
  | cons a rest ih =>
    rw [List.map_cons, List.foldlM_cons, List.foldlM_cons, hf]
    cases f b a with
    | error e => rfl
    | ok b' => apply ih

end Fault

namespace Entries

variable {κ κ' ν μ : Type} [BEq κ] [BEq κ']

/-- Looking up under keys that are told apart as before. -/
theorem find?_map_prod {f : κ → κ'} (hf : ∀ k k', (f k == f k') = (k == k')) (h : ν → μ)
    (m : List (κ × ν)) (k : κ) :
  find? (m.map (Prod.map f h)) (f k) = (find? m k).map h
  := by
  induction m with
  | nil => rfl
  | cons entry rest ih =>
    by_cases hk : entry.1 == k
    · simp [find?, hf, hk]
    · simp [find?, hf, hk, ih]

/-- Looking up changed values under the same keys. -/
theorem find?_map_values (h : ν → μ) (m : List (κ × ν)) (k : κ) :
  find? (m.map (Prod.map id h)) k = (find? m k).map h
  := find?_map_prod (f := id) (fun _ _ => rfl) h m k

theorem insert_map_prod {f : κ → κ'} (hf : ∀ k k', (f k == f k') = (k == k')) (h : ν → μ)
    (m : List (κ × ν)) (k : κ) (v : ν) :
  insert (m.map (Prod.map f h)) (f k) (h v) = (insert m k v).map (Prod.map f h)
  := by
  induction m with
  | nil => rfl
  | cons entry rest ih =>
    by_cases hk : entry.1 == k
    · simp [insert, hf, hk]
    · simp [insert, hf, hk, ih, Prod.map]

theorem ofList_map_prod {f : κ → κ'} (hf : ∀ k k', (f k == f k') = (k == k')) (h : ν → μ)
    (entries : List (κ × ν)) :
  ofList (entries.map (Prod.map f h)) = (ofList entries).map (Prod.map f h)
  := by
  suffices hfold : ∀ m : List (κ × ν),
      (entries.map (Prod.map f h)).foldl (fun m entry => insert m entry.1 entry.2)
          (m.map (Prod.map f h))
        = (entries.foldl (fun m entry => insert m entry.1 entry.2) m).map (Prod.map f h) by
    exact hfold []
  induction entries with
  | nil => intro m; rfl
  | cons entry rest ih =>
    intro m
    rw [List.map_cons, List.foldl_cons, List.foldl_cons, ← ih, ← insert_map_prod hf]
    rfl

omit [BEq κ] [BEq κ'] in
theorem keys_map_prod (f : κ → κ') (h : ν → μ) (m : List (κ × ν)) :
  keys (m.map (Prod.map f h)) = (keys m).map f
  := by
  simp [keys, Function.comp_def]

end Entries

/-- The sources of ports under other ids. -/
def Inputs.rename (f : String → String) (inputs : Inputs) : Inputs := inputs.map (Prod.map id f)

namespace Inputs

theorem find?_rename (f : String → String) (inputs : Inputs) (port : Key) :
  Entries.find? (inputs.rename f) port = (Entries.find? inputs port).map f
  := Entries.find?_map_values f inputs port

theorem insert_rename (f : String → String) (inputs : Inputs) (port : Key) (source : String) :
  Entries.insert (inputs.rename f) port (f source)
    = Inputs.rename f (Entries.insert inputs port source)
  := Entries.insert_map_prod (fun _ _ => rfl) f inputs port source

theorem contains_rename (f : String → String) (inputs : Inputs) (port : Key) :
  Entries.contains (inputs.rename f) port = Entries.contains inputs port
  := by
  rw [Entries.contains, Entries.contains, find?_rename, Option.isSome_map]

end Inputs

/-! ### Migration -/

namespace Migration

/-- The ports and warnings after an entry: a legacy port moves to its current name. -/
def moveEntry {σ : Type} (label place : String) (state : Migrated σ) (entry : Key × σ) :
    Migrated σ :=
  match replacement? label entry.1 with
  | none => state
  | some current => moveLegacy place state entry.1.spelling current entry.2

theorem moveEntry_rename (f : String → String) (label place place' : String)
    {state state' : Migrated String} (h : state'.1 = Inputs.rename f state.1)
    (entry : Key × String) :
  (moveEntry label place' state' (Prod.map id f entry)).1
    = Inputs.rename f (moveEntry label place state entry).1
  := by
  have hfst : (Prod.map id f entry).1 = entry.1 := rfl
  simp only [moveEntry, hfst]
  cases replacement? label entry.1 with
  | none => exact h
  | some current =>
    simp only [moveLegacy, h, Inputs.contains_rename]
    split
    · rfl
    · exact Inputs.insert_rename f state.1 current entry.2

theorem foldl_moveEntry_rename (f : String → String) (label place place' : String)
    (ports : Inputs) {state state' : Migrated String} (h : state'.1 = Inputs.rename f state.1) :
  ((ports.rename f).foldl (moveEntry label place') state').1
    = Inputs.rename f (ports.foldl (moveEntry label place) state).1
  := by
  induction ports generalizing state state' with
  | nil => exact h
  | cons entry rest ih =>
    rw [Inputs.rename, List.map_cons, List.foldl_cons, List.foldl_cons]
    exact ih (moveEntry_rename f label place place' h entry)

/-- The migration of ports looks at the sources only to keep them. -/
theorem migrate_rename (f : String → String) (label : String) (inputs : Inputs)
    (context context' : String) :
  (migrate label (inputs.rename f) context').1 = Inputs.rename f (migrate label inputs context).1
  := by
  apply foldl_moveEntry_rename
  simp [Inputs.rename, List.filter_map, Function.comp_def]

theorem migrateUnder_rename (f : String → String) (label : Json) (inputs : Inputs)
    (context context' : String) :
  Prod.fst <$> migrateUnder label (inputs.rename f) context'
    = (fun migrated => Inputs.rename f migrated.1) <$> migrateUnder label inputs context
  := by
  simp only [migrateUnder]
  cases label.key with
  | error e => rfl
  | ok key =>
    simp only [Fault.ok_bind]
    cases key.text? with
    | none => rfl
    | some name =>
      simp only [Fault.pure_eq_ok, Fault.map_ok, migrate_rename f name inputs context context']

end Migration

namespace Graph

variable {f : String → String} {g : Graph}

/-! ### Renamings that tell ids apart -/

theorem mem_ids_of_node {n : Node} (h : n ∈ g.nodes) : n.id ∈ g.ids
  := List.mem_append_left _ (List.mem_map_of_mem h)

theorem mem_ids_of_edge {e : Edge} (h : e ∈ g.edges) : e.source ∈ g.ids ∧ e.target ∈ g.ids
  := by
  constructor
  · exact List.mem_append_right _ (List.mem_flatMap.mpr ⟨e, h, by simp⟩)
  · exact List.mem_append_right _ (List.mem_flatMap.mpr ⟨e, h, by simp⟩)

/-- Only the names of the ids of the graph matter. -/
theorem rename_congr {f' : String → String} (h : ∀ id ∈ g.ids, f id = f' id) :
  g.rename f = g.rename f'
  := by
  have hnodes : g.nodes.map (Node.rename f) = g.nodes.map (Node.rename f') := by
    apply List.map_congr_left
    intro n hn
    rw [Node.rename, Node.rename, h n.id (mem_ids_of_node hn)]
  have hedges : g.edges.map (Edge.rename f) = g.edges.map (Edge.rename f') := by
    apply List.map_congr_left
    intro e he
    obtain ⟨hsource, htarget⟩ := mem_ids_of_edge he
    rw [Edge.rename, Edge.rename, h _ hsource, h _ htarget]
  rw [rename, rename, hnodes, hedges]

end Graph

/-- A function that is injective on some texts agrees on them with an injective one. -/
theorem exists_injective_of_injOn {f : String → String} {ids : List String}
    (hf : Set.InjOn f {id | id ∈ ids}) :
  ∃ f' : String → String, Function.Injective f' ∧ ∀ id ∈ ids, f id = f' id
  := by
  -- the other texts get names that are longer than those of the ids
  let stem := String.ofList (List.replicate ((ids.map fun id => (f id).length).sum + 1) '_')
  have hlong : ∀ id ∈ ids, ∀ other, f id ≠ stem ++ other := by
    intro id hid other heq
    have hle := List.le_sum_of_mem (List.mem_map_of_mem (f := fun id => (f id).length) hid)
    have hlength := congrArg String.length heq
    simp only [String.length_append, stem, String.length_ofList, List.length_replicate] at hlength
    omega
  refine ⟨fun id => if id ∈ ids then f id else stem ++ id, ?_, ?_⟩
  · intro id other heq
    dsimp only at heq
    by_cases hid : id ∈ ids <;> by_cases hother : other ∈ ids
    · rw [if_pos hid, if_pos hother] at heq
      exact hf hid hother heq
    · rw [if_pos hid, if_neg hother] at heq
      exact (hlong id hid other heq).elim
    · rw [if_neg hid, if_pos hother] at heq
      exact (hlong other hother id heq.symm).elim
    · rw [if_neg hid, if_neg hother] at heq
      exact (String.append_right_inj stem).mp heq
  · intro id hid
    exact (if_pos hid).symm

namespace Graph

variable {f : String → String} {g : Graph}

/-- The inputs of an id under their new names. -/
theorem getD_map_rename (found : Option Inputs) :
  (found.map (Inputs.rename f)).getD [] = Inputs.rename f (found.getD [])
  := by
  cases found <;> rfl

/-! ### Searching -/

theorem firstNode_map (change : Node → Node) {holds holds' : Node → Except Fault Bool}
    (h : ∀ n, holds' (change n) = holds n) (nodes : List Node) :
  firstNode holds' (nodes.map change) = Option.map change <$> firstNode holds nodes
  := by
  induction nodes with
  | nil => rfl
  | cons n rest ih =>
    rw [List.map_cons, firstNode, firstNode, h, ih]
    cases holds n with
    | error fault => rfl
    | ok found => cases found <;> rfl

theorem members_map (change : Node → Node) {family : Family}
    (h : ∀ n, (change n).belongs family = n.belongs family) (nodes : List Node) :
  members family (nodes.map change) = List.map change <$> members family nodes
  := by
  induction nodes with
  | nil => rfl
  | cons n rest ih =>
    rw [List.map_cons, members, members, h, ih]
    cases n.belongs family with
    | error fault => rfl
    | ok found =>
      cases found with
      | false => rfl
      | true => cases members family rest <;> rfl

theorem leastBy_map {change : Node → Node} {rank rank' : Node → Nat}
    (h : ∀ n, rank' (change n) = rank n) (nodes : List Node) :
  leastBy rank' (nodes.map change) = (leastBy rank nodes).map change
  := by
  induction nodes with
  | nil => rfl
  | cons n rest ih =>
    rw [List.map_cons, leastBy, leastBy, ih]
    cases leastBy rank rest with
    | none => rfl
    | some other =>
      simp only [Option.map_some, h]
      split <;> rfl

/-- Whether a graph has the nodes of another one, changed in a way that leaves what the search for
a root looks at. -/
structure Mirrors (g g' : Graph) (change : Node → Node) : Prop where
  nodes : g'.nodes = g.nodes.map change
  terminalNodes : g'.terminalNodes = g.terminalNodes.map change
  belongs (n : Node) (family : Family) : (change n).belongs family = n.belongs family
  isOutput (n : Node) : (change n).isOutput = n.isOutput
  sectionTag (n : Node) : (change n).sectionTag = n.sectionTag
  rank (n : Node) : g'.terminalRank g'.terminalDistances (change n)
    = g.terminalRank g.terminalDistances n

namespace Mirrors

variable {g' : Graph} {change : Node → Node}

theorem nearestMember (h : g.Mirrors g' change) (family : Family) :
  g'.nearestMember family = Option.map change <$> g.nearestMember family
  := by
  rw [Graph.nearestMember, Graph.nearestMember, h.nodes,
    members_map change fun n => h.belongs n family]
  cases members family g.nodes with
  | error fault => rfl
  | ok candidates => exact congrArg Except.ok (leastBy_map h.rank candidates)

theorem sectionRoot (h : g.Mirrors g' change) (tag : Json) :
  g'.sectionRoot tag = (g.sectionRoot tag).map change
  := by
  rw [Graph.sectionRoot, Graph.sectionRoot]
  split
  · rfl
  · rw [h.nodes, List.find?_map]
    congr 2
    funext n
    rw [Function.comp_apply, h.sectionTag]

/-- The root that is found is the changed one. -/
theorem implicitRoot (h : g.Mirrors g' change) (family : Family) (tag : Json) :
  g'.implicitRoot family tag = Option.map change <$> g.implicitRoot family tag
  := by
  have houtput : firstNode (fun n => if n.isOutput then n.belongs family else .ok false) g'.nodes
      = Option.map change <$> firstNode
        (fun n => if n.isOutput then n.belongs family else .ok false) g.nodes := by
    rw [h.nodes]
    apply firstNode_map
    intro n
    rw [h.isOutput, h.belongs]
  have hterminal : firstNode (fun n => n.belongs family) g'.terminalNodes
      = Option.map change <$> firstNode (fun n => n.belongs family) g.terminalNodes := by
    rw [h.terminalNodes]
    exact firstNode_map change (fun n => h.belongs n family) g.terminalNodes
  rw [Graph.implicitRoot, Graph.implicitRoot, houtput, h.sectionRoot, hterminal, h.nearestMember]
  cases firstNode (fun n => if n.isOutput then n.belongs family else .ok false) g.nodes with
  | error fault => rfl
  | ok output =>
    cases output with
    | some n => rfl
    | none =>
      cases g.sectionRoot tag with
      | some n => rfl
      | none =>
        cases firstNode (fun n => n.belongs family) g.terminalNodes with
        | error fault => rfl
        | ok terminal => cases terminal <;> rfl

end Mirrors

section Injective

variable (hf : Function.Injective f)

include hf

/-! ### Looking up -/

theorem nodeMap_rename : (g.rename f).nodeMap = g.nodeMap.map (Prod.map f (Node.rename f))
  := by
  rw [nodeMap, nodeMap, ← Entries.ofList_map_prod fun _ _ => hf.beq_eq, rename, List.map_map,
    List.map_map]
  rfl

theorem node?_rename (id : String) :
  (g.rename f).node? (f id) = (g.node? id).map (Node.rename f)
  := by
  rw [node?, node?, rename, List.find?_map]
  congr 2
  funext n
  simp [Node.rename, hf.eq_iff]

theorem feedsEdge_rename (id : String) : (g.rename f).feedsEdge (f id) = g.feedsEdge id
  := by
  simp [feedsEdge, rename, Edge.rename, List.any_map, Function.comp_def, hf.eq_iff]

theorem terminalNodes_rename :
  (g.rename f).terminalNodes = g.terminalNodes.map (Node.rename f)
  := by
  rw [terminalNodes, terminalNodes, rename, List.filter_map]
  congr 2
  funext n
  rw [Function.comp_apply]
  congr 1
  exact feedsEdge_rename hf n.id

theorem inboundEdges_rename (id : String) :
  (g.rename f).inboundEdges (f id) = (g.inboundEdges id).map (Edge.rename f)
  := by
  rw [inboundEdges, inboundEdges, rename, List.filter_map]
  congr 2
  funext e
  simp [Edge.rename, hf.eq_iff]

/-! ### Tables -/

/-- A table under other ids. -/
def renameTable (f : String → String) (table : List (String × Inputs)) : List (String × Inputs) :=
  table.map (Prod.map f (Inputs.rename f))

theorem find?_renameTable (table : List (String × Inputs)) (id : String) :
  Entries.find? (renameTable f table) (f id) = (Entries.find? table id).map (Inputs.rename f)
  := Entries.find?_map_prod (fun _ _ => hf.beq_eq) _ table id

theorem addInput_rename (table : List (String × Inputs)) (e : Edge) :
  addInput (renameTable f table) (e.rename f) = renameTable f <$> addInput table e
  := by
  have hport : inputPort (e.rename f) = inputPort e := rfl
  have hports : (Entries.find? (renameTable f table) (e.rename f).target).getD []
      = Inputs.rename f ((Entries.find? table e.target).getD []) := by
    rw [Edge.rename, find?_renameTable hf]
    cases Entries.find? table e.target <;> rfl
  rw [addInput, addInput, hport, hports]
  cases inputPort e with
  | error fault => rfl
  | ok port =>
    simp only [Fault.ok_bind, Fault.pure_eq_ok, Fault.map_ok, Edge.rename, Inputs.insert_rename]
    exact congrArg Except.ok (Entries.insert_map_prod (fun _ _ => hf.beq_eq) _ table e.target _)

theorem inputMap_rename : (g.rename f).inputMap = renameTable f <$> g.inputMap
  := Fault.foldlM_map (addInput_rename hf) g.edges []

theorem targetInputs_rename (entry : String × Inputs) :
  targetInputs (g.rename f).nodeMap (Prod.map f (Inputs.rename f) entry)
    = renameTable f <$> targetInputs g.nodeMap entry
  := by
  have hfind : Entries.find? (g.rename f).nodeMap (Prod.map f (Inputs.rename f) entry).1
      = (Entries.find? g.nodeMap entry.1).map (Node.rename f) := by
    rw [nodeMap_rename hf]
    exact Entries.find?_map_prod (fun _ _ => hf.beq_eq) _ _ _
  rw [targetInputs, targetInputs, hfind]
  cases Entries.find? g.nodeMap entry.1 with
  | none => rfl
  | some n =>
    have hmigrate := Migration.migrateUnder_rename f n.label entry.2 entry.1 (f entry.1)
    have hone : ∀ (id : String) (x : Except Fault (Migration.Migrated String)),
        (do return [(id, (← x).1)]) = (fun inputs => [(id, inputs)]) <$> (Prod.fst <$> x) := by
      rintro id (fault | migrated) <;> rfl
    simp only [Option.map_some, Node.rename, Prod.map, hone, hmigrate]
    cases Migration.migrateUnder n.label entry.2 entry.1 <;> rfl

/-- The table of the interpreters has the same sources under their new names. -/
theorem currentInputs_rename :
  (g.rename f).currentInputs (g.rename f).nodeMap
    = renameTable f <$> g.currentInputs g.nodeMap
  := by
  rw [currentInputs, currentInputs, inputMap_rename hf]
  cases g.inputMap with
  | error fault => rfl
  | ok table =>
    have hmapM := Fault.mapM_map (targetInputs_rename (g := g) hf) table
    rw [← renameTable] at hmapM
    simp only [Fault.map_ok, Fault.ok_bind, hmapM]
    cases table.mapM (targetInputs g.nodeMap) with
    | error fault => rfl
    | ok tables =>
      simp only [Fault.map_ok, Fault.ok_bind, Fault.pure_eq_ok]
      rw [renameTable, List.map_flatten]
      rfl

/-! ### Distances -/

theorem contains_map (ids : List String) (id : String) :
  (ids.map f).contains (f id) = ids.contains id
  := by
  simp [hf.eq_iff]

theorem eraseDups_map (ids : List String) : (ids.map f).eraseDups = ids.eraseDups.map f
  := by
  -- removing an id from the rest makes the list shorter, but leaves no tail of it
  induction h : ids.length using Nat.strong_induction_on generalizing ids with
  | _ n ih =>
    cases ids with
    | nil => rfl
    | cons id rest =>
      have hlength : (rest.filter fun other => !other == id).length < n := by
        have hle := List.length_filter_le (fun other => !other == id) rest
        rw [List.length_cons] at h
        omega
      have hfilter : (rest.map f).filter (fun other => !other == f id)
          = (rest.filter fun other => !other == id).map f := by
        rw [List.filter_map]
        congr 2
        funext other
        rw [Function.comp_apply, hf.beq_eq]
      rw [List.map_cons, List.eraseDups_cons, List.eraseDups_cons, hfilter, ih _ hlength _ rfl,
        List.map_cons]

theorem newSources_rename (found : List String) :
  (g.rename f).newSources (found.map f) = (g.newSources found).map f
  := by
  rw [newSources, newSources, ← eraseDups_map hf, List.map_map, rename, List.filter_map,
    List.map_map]
  congr 2
  apply List.filter_congr
  intro e _
  simp only [Function.comp_apply, Edge.rename, contains_map hf]

/-- Distances under other ids. -/
def renameDistances (f : String → String) (distances : List (String × Nat)) :
    List (String × Nat) :=
  distances.map (Prod.map f id)

theorem distanceRounds_rename (rounds distance : Nat) (found : List (String × Nat)) :
  (g.rename f).distanceRounds rounds distance (renameDistances f found)
    = renameDistances f (g.distanceRounds rounds distance found)
  := by
  induction rounds generalizing distance found with
  | zero => rfl
  | succ rounds ih =>
    have hnew : (g.rename f).newSources (Entries.keys (renameDistances f found))
        = (g.newSources (Entries.keys found)).map f := by
      rw [renameDistances, Entries.keys_map_prod, newSources_rename hf]
    simp only [distanceRounds, hnew, List.isEmpty_map]
    split
    · rfl
    · rw [← ih, renameDistances, renameDistances, List.map_append, List.map_map, List.map_map]
      rfl

theorem terminalDistances_rename :
  (g.rename f).terminalDistances = renameDistances f g.terminalDistances
  := by
  have hids : ((g.rename f).terminalNodes.map Node.id).eraseDups
      = (g.terminalNodes.map Node.id).eraseDups.map f := by
    rw [terminalNodes_rename hf, List.map_map, ← eraseDups_map hf, List.map_map]
    rfl
  have hrounds : (g.rename f).edges.length = g.edges.length := by simp [rename]
  rw [terminalDistances, terminalDistances, hids, hrounds, ← distanceRounds_rename hf,
    renameDistances, List.map_map, List.map_map]
  rfl

/-! ### Roots -/

theorem mirrors_rename : g.Mirrors (g.rename f) (Node.rename f)
  where
  nodes := rfl
  terminalNodes := terminalNodes_rename hf
  belongs _ _ := rfl
  isOutput _ := rfl
  sectionTag _ := rfl
  rank n := by
    have hdistance : Entries.find? (renameDistances f g.terminalDistances) (f n.id)
        = Entries.find? g.terminalDistances n.id := by
      rw [renameDistances, Entries.find?_map_prod fun _ _ => hf.beq_eq, Option.map_id, id]
    rw [terminalRank, terminalRank, terminalDistances_rename hf, Node.rename, hdistance, rename,
      List.length_map]

/-- A root that is given by an id, or not at all. -/
def rootValue (rootId : Option String) : Json := rootId.elim .null .str

/-- The root of a preview is found under its new name. -/
theorem evaluationRoot_rename (family : Family) (tag : Json) (rootId : Option String) :
  (g.rename f).evaluationRoot family tag (rootValue (rootId.map f))
    = Option.map (Node.rename f) <$> g.evaluationRoot family tag (rootValue rootId)
  := by
  have hgiven : (rootValue (rootId.map f)).text?.bind (g.rename f).node?
      = ((rootValue rootId).text?.bind g.node?).map (Node.rename f) := by
    cases rootId with
    | none => rfl
    | some id => exact node?_rename hf id
  rw [evaluationRoot, evaluationRoot, hgiven]
  cases (rootValue rootId).text?.bind g.node? with
  | some n => rfl
  | none => exact (mirrors_rename hf).implicitRoot family tag

end Injective

end Graph

end AssetCanvas
