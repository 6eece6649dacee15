import AssetCanvas.Proofs.Validity

/-!
# Editing sessions

A session edits a graph that is empty at first: it adds nodes under new ids, connects nodes through
ports with names, disconnects ports and removes nodes.  What the edits do to the ports is told by
an assignment of sources, `Slots.edit`, without any list of edges.  Every edit keeps the graph in
order and in step with the assignment, `Graph.Implements.apply`, so after any session the graph has
no problems and its input map is the assignment, `Graph.session_tabulates`.
-/

namespace AssetCanvas

/-- An edit of a graph. -/
inductive Edit where
  | addNode (n : Node)
  | connect (source target port : String)
  | disconnect (target port : String)
  | removeNode (id : String)

namespace Edit

/-- The graph after an edit. -/
def apply (g : Graph) : Edit → Graph
  | addNode n => g.addNode n
  | connect source target port => g.connect source target (.str port)
  | disconnect target port => g.disconnect target (.str port)
  | removeNode id => g.removeNode id

/-- Whether an edit may be made: a new node has a new id, and a connection joins nodes of the graph
through a port with a name. -/
def Admissible (g : Graph) : Edit → Prop
  | addNode n => n.id ∉ g.nodes.map Node.id
  | connect source target port =>
    source ∈ g.nodes.map Node.id ∧ target ∈ g.nodes.map Node.id ∧ port ≠ ""
  | disconnect _ _ => True
  | removeNode _ => True

/-- Whether edits may be made one after the other. -/
def AllAdmissible : Graph → List Edit → Prop
  | _, [] => True
  | g, edit :: rest => edit.Admissible g ∧ AllAdmissible (edit.apply g) rest

end Edit

/-- The sources of ports, by the target and the port. -/
abbrev Slots := String → String → Option String

/-- The sources after an edit. -/
def Slots.edit (m : Slots) : Edit → Slots
  | .addNode _ => m
  | .connect source target port => fun t p =>
    if t = target ∧ p = port then some source else m t p
  | .disconnect target port => fun t p => if t = target ∧ p = port then none else m t p
  | .removeNode id => fun t p => if t = id ∨ m t p = some id then none else m t p

namespace Graph

/-! ### One edit -/

/-- A graph in order whose edges feed the ports of an assignment. -/
structure Implements (g : Graph) (m : Slots) : Prop where
  ids : (g.nodes.map Node.id).Nodup
  ends : ∀ e ∈ g.edges, EndsIn (g.nodes.map Node.id) e
  ports : ∀ e ∈ g.edges, ∃ port, e.targetPort = .str port ∧ port ≠ ""
  once : (g.edges.map feeding).Nodup
  slots : ∀ target port source, m target port = some source
    ↔ ∃ e ∈ g.edges, e.target = target ∧ e.targetPort = .str port ∧ e.source = source

theorem feeds_str_iff {e : Edge} {target port : String} :
  e.feeds target (.str port) = true ↔ e.target = target ∧ e.targetPort = .str port
  := by
  have hsame : e.targetPort.same (.str port) = true ↔ e.targetPort = .str port := by
    cases e.targetPort <;> simp [Json.same, Json.agrees, Json.sameAtom, Json.number?]
  rw [Edge.feeds, Bool.and_eq_true, decide_eq_true_eq, hsame]

namespace Implements

variable {g : Graph} {m : Slots}

theorem addNode (h : g.Implements m) {n : Node} (hn : n.id ∉ g.nodes.map Node.id) :
  (g.addNode n).Implements m
  where
  ids := by
    rw [Graph.addNode, List.map_append, List.nodup_append]
    refine ⟨h.ids, by simp, ?_⟩
    intro id hid id' hid'
    obtain rfl : id' = n.id := by simpa using hid'
    exact ne_of_mem_of_not_mem hid hn
  ends e he := by
    obtain ⟨hsource, htarget⟩ := h.ends e he
    simp only [EndsIn, Graph.addNode, List.map_append, List.mem_append]
    exact ⟨.inl hsource, .inl htarget⟩
  ports := h.ports
  once := h.once
  slots := h.slots

theorem disconnect (h : g.Implements m) (target port : String) :
  (g.disconnect target (.str port)).Implements (m.edit (.disconnect target port))
  where
  ids := h.ids
  ends e he := h.ends e (List.mem_of_mem_filter he)
  ports e he := h.ports e (List.mem_of_mem_filter he)
  once := h.once.sublist (List.filter_sublist.map feeding)
  slots t p source := by
    simp only [Slots.edit, Graph.disconnect, List.mem_filter, Bool.not_eq_true', ← Bool.not_eq_true,
      feeds_str_iff]
    split
    next hslot =>
      obtain ⟨rfl, rfl⟩ := hslot
      grind
    next hslot =>
      rw [h.slots]
      grind

/-- A port that is free can be fed. -/
theorem addEdge (h : g.Implements m) {source target port : String}
    (hsource : source ∈ g.nodes.map Node.id) (htarget : target ∈ g.nodes.map Node.id)
    (hport : port ≠ "") (hfree : m target port = none) :
  (g.addEdge (.link source target (.str port))).Implements (m.edit (.connect source target port))
  where
  ids := h.ids
  ends e he := by
    rcases List.mem_append.mp he with he | he
    · exact h.ends e he
    · obtain rfl := List.mem_singleton.mp he
      exact ⟨hsource, htarget⟩
  ports e he := by
    rcases List.mem_append.mp he with he | he
    · exact h.ports e he
    · obtain rfl := List.mem_singleton.mp he
      exact ⟨port, rfl, hport⟩
  once := by
    rw [Graph.addEdge, List.map_append, List.nodup_append]
    refine ⟨h.once, by simp, ?_⟩
    intro fed hfed fed' hfed' heq
    obtain ⟨e, he, rfl⟩ := List.mem_map.mp hfed
    obtain rfl : fed' = (target, .str port) := by simpa [feeding, Edge.link] using hfed'
    obtain ⟨htarget, hport⟩ := Prod.mk.inj heq
    have hfed := (h.slots target port e.source).mpr ⟨e, he, htarget, hport, rfl⟩
    rw [hfree] at hfed
    cases hfed
  slots t p s := by
    simp only [Slots.edit, Graph.addEdge, List.mem_append, List.mem_singleton]
    split
    next hslot =>
      obtain ⟨rfl, rfl⟩ := hslot
      constructor
      · rintro ⟨⟩
        exact ⟨_, .inr rfl, rfl, rfl, rfl⟩
      · rintro ⟨e, he | rfl, htarget, hport, rfl⟩
        · have hfed := (h.slots t p e.source).mpr ⟨e, he, htarget, hport, rfl⟩
          rw [hfree] at hfed
          cases hfed
        · rfl
    next hslot =>
      rw [h.slots]
      constructor
      · rintro ⟨e, he, hfeeds⟩
        exact ⟨e, .inl he, hfeeds⟩
      · rintro ⟨e, he | rfl, htarget, hport, rfl⟩
        · exact ⟨e, he, htarget, hport, rfl⟩
        · exact (hslot ⟨htarget.symm, (Json.str.inj hport).symm⟩).elim

theorem connect (h : g.Implements m) {source target port : String}
    (hsource : source ∈ g.nodes.map Node.id) (htarget : target ∈ g.nodes.map Node.id)
    (hport : port ≠ "") :
  (g.connect source target (.str port)).Implements (m.edit (.connect source target port))
  := by
  have hedit : m.edit (.connect source target port)
      = (m.edit (.disconnect target port)).edit (.connect source target port) := by
    funext t p
    simp only [Slots.edit]
    split <;> rfl
  rw [hedit]
  apply (h.disconnect target port).addEdge hsource htarget hport
  simp [Slots.edit]

theorem removeNode (h : g.Implements m) (id : String) :
  (g.removeNode id).Implements (m.edit (.removeNode id))
  where
  ids := h.ids.sublist (List.filter_sublist.map Node.id)
  ends e he := by
    simp only [Graph.removeNode, List.mem_filter, Bool.and_eq_true, decide_eq_true_eq] at he
    obtain ⟨hsource, htarget⟩ := h.ends e he.1
    have hkept : ∀ id' ∈ g.nodes.map Node.id, id' ≠ id →
        id' ∈ (g.removeNode id).nodes.map Node.id := by
      intro id' hid' hne
      obtain ⟨n, hn, rfl⟩ := List.mem_map.mp hid'
      apply List.mem_map_of_mem
      simpa [Graph.removeNode] using ⟨hn, hne⟩
    exact ⟨hkept _ hsource he.2.1, hkept _ htarget he.2.2⟩
  ports e he := h.ports e (List.mem_of_mem_filter he)
  once := h.once.sublist (List.filter_sublist.map feeding)
  slots t p source := by
    simp only [Slots.edit, Graph.removeNode, List.mem_filter, Bool.and_eq_true, decide_eq_true_eq]
    have hfed : ∀ e ∈ g.edges, e.target = t → e.targetPort = .str p → m t p = some e.source :=
      fun e he htarget hport => (h.slots t p e.source).mpr ⟨e, he, htarget, hport, rfl⟩
    constructor
    · intro hslot
      split at hslot
      next => cases hslot
      next hkept =>
        obtain ⟨e, he, htarget, hport, rfl⟩ := (h.slots t p source).mp hslot
        obtain ⟨ht, hsource⟩ := not_or.mp hkept
        refine ⟨e, ⟨he, ?_, ?_⟩, htarget, hport, rfl⟩
        · rintro rfl
          exact hsource hslot
        · rwa [htarget]
    · rintro ⟨e, ⟨he, hsource, htarget⟩, rfl, hport, rfl⟩
      rw [hfed e he rfl hport, if_neg]
      rintro (hremoved | hremoved)
      · exact htarget hremoved
      · exact hsource (Option.some.inj hremoved)

/-- One edit. -/
theorem apply (h : g.Implements m) {edit : Edit} (hedit : edit.Admissible g) :
  (edit.apply g).Implements (m.edit edit)
  := by
  cases edit with
  | addNode n => exact h.addNode hedit
  | connect source target port => exact h.connect hedit.1 hedit.2.1 hedit.2.2
  | disconnect target port => exact h.disconnect target port
  | removeNode id => exact h.removeNode id

/-- The edits of a session are made on the graph and on the assignment alike. -/
theorem foldl (h : g.Implements m) {edits : List Edit} (hedits : Edit.AllAdmissible g edits) :
  (edits.foldl Edit.apply g).Implements (edits.foldl Slots.edit m)
  := by
  induction edits generalizing g m with
  | nil => exact h
  | cons edit rest ih => exact ih (h.apply hedits.1) hedits.2

theorem problems_eq_nil (h : g.Implements m) : g.problems = .ok []
  := by
  apply (problems_eq_nil_iff _).mpr ⟨h.ids, h.ends, h.once⟩
  intro e he
  obtain ⟨port, hport, -⟩ := h.ports e he
  exact ⟨port, hport⟩

end Implements

theorem implements_empty : empty.Implements fun _ _ => none
  where
  ids := .nil
  ends e he := by cases he
  ports e he := by cases he
  once := .nil
  slots t p source := by simp [empty]

/-! ### The input map -/

/-- Whether an input map is an assignment: it has one entry for every port that has a source, and
no other entries. -/
structure Tabulates (inputs : List (String × Inputs)) (m : Slots) : Prop where
  targets : Entries.Distinct inputs
  ports : ∀ entry ∈ inputs, entry.2 ≠ [] ∧ Entries.Distinct entry.2
  sources : ∀ target key source,
    (∃ ports, (target, ports) ∈ inputs ∧ (key, source) ∈ ports)
      ↔ ∃ port, key = .text port ∧ m target port = some source

theorem distinct_inputMap {g : Graph} {inputs : List (String × Inputs)}
    (h : g.inputMap = .ok inputs) :
  Entries.Distinct inputs
  := by
  apply Fault.foldlM_keeps _ _ h
  · intro table e _ hdistinct table' hadd
    obtain ⟨port, -, hput⟩ := Fault.bind_eq_ok_iff.mp hadd
    obtain rfl := Except.ok.inj hput
    apply hdistinct.insert
  · exact .nil

/-- A port with a name keeps it in the input map. -/
theorem targetPort_eq_inputName {e : Edge} (h : ∃ port, e.targetPort = .str port ∧ port ≠ "") :
  e.targetPort = .str e.inputName
  := by
  obtain ⟨port, hport, hne⟩ := h
  simp [Edge.inputName, Port.inputName, hport, Json.text?, hne]

/-- Edges into different ports of a target stand under different keys. -/
theorem distinct_feeds {edges : List Edge} (hnodup : (edges.map feeding).Nodup) (target : String)
    (hports : ∀ e ∈ edges, ∃ port, e.targetPort = .str port ∧ port ≠ "") :
  Entries.Distinct (feeds (edges.filter fun e => e.target = target))
  := by
  have hapart : edges.Pairwise fun e e' => feeding e ≠ feeding e' := List.pairwise_map.mp hnodup
  rw [Entries.Distinct, Entries.keys, feeds, List.map_map, List.pairwise_map]
  apply (hapart.sublist List.filter_sublist).imp_of_mem
  intro e e' he he' hne
  obtain ⟨he, htarget⟩ := List.mem_filter.mp he
  obtain ⟨he', htarget'⟩ := List.mem_filter.mp he'
  have hname : e.inputName ≠ e'.inputName := by
    intro heq
    apply hne
    rw [feeding, feeding, of_decide_eq_true htarget, of_decide_eq_true htarget',
      targetPort_eq_inputName (hports e he), targetPort_eq_inputName (hports e' he'), heq]
  simpa using hname

theorem Implements.textual {g : Graph} {m : Slots} (h : g.Implements m) :
  ∀ e ∈ g.edges, e.Textual
  := by
  intro e he
  obtain ⟨port, hport, -⟩ := h.ports e he
  exact ⟨port, hport⟩

/-- The sources of a target are those of the edges into it, in the order of the edges. -/
theorem Implements.mem_inputMap_iff {g : Graph} {m : Slots} (h : g.Implements m)
    {inputs : List (String × Inputs)} (hinputs : g.inputMap = .ok inputs) {target : String}
    {ports : Inputs} :
  (target, ports) ∈ inputs
    ↔ ports = feeds (g.edges.filter fun e => e.target = target) ∧ ports ≠ []
  := by
  obtain ⟨inputs', hinputs', hfind⟩ := find?_foldlM_addInput h.textual
  obtain rfl := Except.ok.inj (hinputs.symm.trans hinputs')
  have htargets : Entries.Distinct inputs := distinct_inputMap hinputs
  rw [← htargets.find?_eq_some_iff, hfind, (distinct_feeds h.once target h.ports).ofList_eq]
  split
  next hnone =>
    constructor
    · rintro ⟨⟩
    · rintro ⟨rfl, hne⟩
      rw [hnone] at hne
      exact (hne rfl).elim
  next hsome =>
    constructor
    · rintro ⟨⟩
      exact ⟨rfl, by simpa [feeds] using hsome⟩
    · rintro ⟨rfl, -⟩
      rfl

theorem Implements.exists_inputMap {g : Graph} {m : Slots} (h : g.Implements m) :
  ∃ inputs, g.inputMap = .ok inputs ∧ Tabulates inputs m
  := by
  obtain ⟨inputs, hinputs, -⟩ := find?_foldlM_addInput h.textual
  refine ⟨inputs, hinputs, distinct_inputMap hinputs, ?_, ?_⟩
  · rintro ⟨target, ports⟩ hmem
    obtain ⟨rfl, hne⟩ := (h.mem_inputMap_iff hinputs).mp hmem
    exact ⟨hne, distinct_feeds h.once target h.ports⟩
  · intro target key source
    constructor
    · rintro ⟨ports, hmem, hsource⟩
      obtain ⟨rfl, -⟩ := (h.mem_inputMap_iff hinputs).mp hmem
      obtain ⟨e, he, heq⟩ := List.mem_map.mp hsource
      obtain ⟨rfl, rfl⟩ := Prod.mk.inj heq
      obtain ⟨he, htarget⟩ := List.mem_filter.mp he
      use e.inputName, rfl
      apply (h.slots _ _ _).mpr
      exact ⟨e, he, of_decide_eq_true htarget, targetPort_eq_inputName (h.ports e he), rfl⟩
    · rintro ⟨port, rfl, hslot⟩
      obtain ⟨e, he, rfl, hport, rfl⟩ := (h.slots target port source).mp hslot
      have hname := targetPort_eq_inputName (h.ports e he)
      rw [hport] at hname
      obtain rfl := Json.str.inj hname
      have hmem : (Key.text e.inputName, e.source)
          ∈ feeds (g.edges.filter fun e' => e'.target = e.target) :=
        List.mem_map_of_mem (List.mem_filter.mpr ⟨he, decide_eq_true rfl⟩)
      exact ⟨_, (h.mem_inputMap_iff hinputs).mpr ⟨rfl, List.ne_nil_of_mem hmem⟩, hmem⟩

/-- After a session the graph has no problems, and its input map is the assignment of sources that
the edits make. -/
theorem session_tabulates (edits : List Edit) (h : Edit.AllAdmissible empty edits) :
  (edits.foldl Edit.apply empty).problems = .ok []
    ∧ ∃ inputs, (edits.foldl Edit.apply empty).inputMap = .ok inputs
      ∧ Tabulates inputs (edits.foldl Slots.edit fun _ _ => none)
  := by
  have himplements := implements_empty.foldl h
  exact ⟨himplements.problems_eq_nil, himplements.exists_inputMap⟩

/-- A session in which a sum feeds itself, gets another source at the same port, and loses a
source with its node. -/
def rewired : List Edit :=
  [.addNode { id := "sum", label := .str "Sum" }, .addNode { id := "one", label := .str "One" },
    .addNode { id := "zero", label := .str "Zero" }, .connect "sum" "sum" "Inputs[0]",
    .connect "one" "sum" "Inputs[0]", .connect "zero" "sum" "Inputs[1]",
    .connect "zero" "one" "Input", .disconnect "one" "Input", .removeNode "zero"]

theorem session_tabulates_rewired :
  Edit.AllAdmissible empty rewired ∧ (rewired.foldl Edit.apply empty).problems = .ok []
    ∧ (rewired.foldl Slots.edit fun _ _ => none) "sum" "Inputs[0]" = some "one"
    ∧ ∃ inputs, (rewired.foldl Edit.apply empty).inputMap = .ok inputs
      ∧ Tabulates inputs (rewired.foldl Slots.edit fun _ _ => none)
  := by
  have hadmissible : Edit.AllAdmissible empty rewired := by
    simp [rewired, Edit.AllAdmissible, Edit.Admissible, Edit.apply, empty, addNode, connect,
      disconnect, addEdge]
  obtain ⟨hproblems, hinputs⟩ := session_tabulates rewired hadmissible
  exact ⟨hadmissible, hproblems, by decide, hinputs⟩

end Graph

end AssetCanvas
