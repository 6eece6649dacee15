import AssetCanvas.Proofs.Acyclic
import AssetCanvas.Proofs.Realization
import AssetCanvas.Proofs.Validity

/-!
# What the interpreters read and what is assembled

The interpreters look the source of a port up in their table, while the assembly of a node puts
the asset of the source of every edge into the slot of its port.  Of several ports that mean one
slot, the table prefers the current name, and the assembly the last edge.  In an acyclic graph
without problems both agree at a node exactly if every edge that the table keeps is one that
`Graph.Prevails` in the assembly, `Graph.Acyclic.agrees_iff`.
-/

namespace AssetCanvas

open Assembly

namespace Graph

variable {g : Graph}

/-! ### What is assembled -/

/-- The parts of the asset of a node. -/
def partsOf (g : Graph) (n : Node) : Except Fault Parts := do
  let discriminant ← n.discriminant
  let own ← ownFields n discriminant
  let nodes := g.nodeMap
  let sources := fun source => assemble g nodes (Walk.without (Entries.keys nodes) n.id) source
  (g.inboundEdges n.id).foldlM (addChild n discriminant sources) ⟨own, []⟩

/-- The asset of a node has the fields of its parts. -/
theorem assetOf_eq_partsOf {n : Node} (h : Entries.find? g.nodeMap n.id = some n) :
  g.assetOf n.id = (do return some (.obj (← g.partsOf n).toFields))
  := by
  rw [assetOf, assemble, dif_pos (Entries.mem_keys_of_find? h), h]
  simp only [ofNode, partsOf, bind_assoc, pure_bind]

/-- Whether the assembly of a node has a child in a slot, into which some edge leads. -/
structure Places (g : Graph) (n : Node) (slot : String × Option Nat) (child : Json) : Prop where
  parts : ∃ parts, g.partsOf n = .ok parts ∧ parts.child? slot = some child
  edge : ∃ e ∈ g.inboundEdges n.id, n.slot e.targetPort = .ok slot

/-- Whether the asset of the source that the interpreters read under a port is the child that the
assembly has in the slot of the port. -/
def AgreesAt (g : Graph) (n : Node) (port source : String) : Prop :=
  ∃ slot child, n.slot (.str port) = .ok slot ∧ g.assetOf source = .ok (some child)
    ∧ g.Places n slot child

/-- Whether the interpreters and the assembly agree on the sources of a node. -/
def Agrees (g : Graph) (n : Node) : Prop :=
  ∀ port source, g.Reads n.id port source → g.AgreesAt n port source

/-- The last edge into a slot of a node. -/
def lastInto? (g : Graph) (n : Node) (slot : String × Option Nat) : Option Edge :=
  ((g.inboundEdges n.id).filter fun e => n.slot e.targetPort = .ok slot).getLast?

/-- Whether the source of an edge is assembled where the interpreters look for it: the last edge
into the slot has a source with the same asset, and if the slot is a field, then no edge feeds
an item of the field. -/
structure Prevails (g : Graph) (n : Node) (e : Edge) (slot : String × Option Nat) : Prop where
  last : ∃ last, g.lastInto? n slot = some last ∧ g.assetOf last.source = g.assetOf e.source
  field : slot.2 = none → ∀ e' ∈ g.inboundEdges n.id, ∀ index,
    n.slot e'.targetPort ≠ .ok (slot.1, some index)

theorem exists_lastInto? {n : Node} {slot : String × Option Nat} {e : Edge}
    (he : e ∈ g.inboundEdges n.id) (hslot : n.slot e.targetPort = .ok slot) :
  ∃ last, g.lastInto? n slot = some last
  := by
  cases h : g.lastInto? n slot with
  | some last => use last
  | none =>
    rw [lastInto?, List.getLast?_eq_none_iff, List.filter_eq_nil_iff] at h
    exact (h e he (decide_eq_true hslot)).elim

theorem mem_of_lastInto? {n : Node} {slot : String × Option Nat} {last : Edge}
    (h : g.lastInto? n slot = some last) :
  last ∈ g.inboundEdges n.id ∧ n.slot last.targetPort = .ok slot
  := by
  obtain ⟨hmem, hslot⟩ := List.mem_filter.mp (List.mem_of_getLast? h)
  exact ⟨hmem, decide_eq_true_iff.mp hslot⟩

/-- The current name of a port means the same slot. -/
theorem slot_current {n : Node} {label : String} (h : n.label = .str label) (port : String) :
  n.slot (.str (Migration.current label port)) = n.slot (.str port)
  := by
  rw [Node.slot, Node.slot]
  congr 1
  funext discriminant
  rw [slotOf, slotOf, h, Slot.ofPort_str, Slot.ofPort_str, Migration.current_current]

/-! ### Graphs without problems -/

section Valid

variable (ht : g.Typed) (hp : g.problems = .ok [])

include ht hp

/-- The node of an id is found. -/
theorem find?_of_problems {n : Node} (hn : n ∈ g.nodes) : Entries.find? g.nodeMap n.id = some n
  := by
  apply g.find?_nodeMap _ hn
  apply ((problems_eq_nil_iff ht.ports).mp hp).1

/-- The source of an edge has an asset. -/
theorem exists_assetOf_source {e : Edge} (he : e ∈ g.edges) :
  ∃ fields, g.assetOf e.source = .ok (some (.obj fields))
  := by
  have hends := ((problems_eq_nil_iff ht.ports).mp hp).2.1 e he
  apply ht.exists_assetOf hends.1

/-- A write is brought by an edge into a node if it puts the asset of the source of the edge into
the slot of its port. -/
def Brings (g : Graph) (n : Node) (e : Edge) (w : Write) : Prop :=
  g.assetOf e.source = .ok (some w.2) ∧ n.slot e.targetPort = .ok w.1

/-- The parts of a node are what the edges into it bring. -/
theorem exists_brings (ha : g.Acyclic) {n : Node} (hn : n ∈ g.nodes) :
  ∃ own, ∃ write : Edge → Write, (∀ e ∈ g.inboundEdges n.id, g.Brings n e (write e))
    ∧ g.partsOf n = .ok (.putAll ⟨own, []⟩ ((g.inboundEdges n.id).map write))
  := by
  obtain ⟨discriminant, hdiscriminant⟩ := ht.shaped.exists_discriminant hn
  obtain ⟨own, hown⟩ := ht.shaped.exists_ownFields hn discriminant
  have hslots : ∀ e ∈ g.inboundEdges n.id, ∃ w, g.Brings n e w := by
    intro e he
    obtain ⟨fields, hfields⟩ := exists_assetOf_source ht hp (List.mem_of_mem_filter he)
    obtain ⟨slot, hslot⟩ := ht.exists_slot_of_mem hn (List.mem_of_mem_filter he)
    exact ⟨(slot, .obj fields), hfields, hslot⟩
  have : Nonempty Write := ⟨(("", none), .null)⟩
  choose! write hwrite using hslots
  use own, write, hwrite
  have hsources : (fun source => assemble g g.nodeMap
        (Walk.without (Entries.keys g.nodeMap) n.id) source)
      = fun source => (g.unfold (Walk.without (Entries.keys g.nodeMap) n.id) source).toAsset := by
    funext source
    apply assemble_eq
  simp only [partsOf, hdiscriminant, hown, Fault.ok_bind, hsources, foldlM_addChild]
  apply Outline.putInputs_eq
  rw [List.forall₂_map_left_iff, List.forall₂_map_right_iff, List.forall₂_same]
  intro e he
  obtain ⟨hmem, htarget⟩ := List.mem_filter.mp he
  obtain ⟨hasset, hslot⟩ := hwrite e he
  constructor
  · -- the walk to the source is the one from the source itself
    rw [← decide_eq_true_iff.mp htarget, ha.unfold_source hmem, ← assemble_eq]
    apply hasset
  · rw [Node.slot, hdiscriminant] at hslot
    apply hslot

/-- The child in the slot of an edge is the asset of its source exactly if the edge prevails. -/
theorem places_iff (ha : g.Acyclic) {n : Node} (hn : n ∈ g.nodes) {slot : String × Option Nat}
    {e : Edge} (he : e ∈ g.edges) :
  (∃ child, g.assetOf e.source = .ok (some child) ∧ g.Places n slot child)
    ↔ g.Prevails n e slot
  := by
  obtain ⟨own, write, hwrite, hparts⟩ := exists_brings ht hp ha hn
  obtain ⟨fields, hfields⟩ := exists_assetOf_source ht hp he
  have hslots : ∀ e ∈ g.inboundEdges n.id, ∀ slot,
      (write e).1 = slot ↔ n.slot e.targetPort = .ok slot := by
    intro e he slot
    rw [(hwrite e he).2, Except.ok.injEq]
  have hlast : lastIn? slot ((g.inboundEdges n.id).map write)
      = (g.lastInto? n slot).map fun e => (write e).2 := by
    rw [lastIn?, lastInto?, List.filter_map, List.getLast?_map, Option.map_map]
    congr 2
    apply List.filter_congr
    intro e he
    simp [hslots e he]
  have hchild : ∀ last, g.lastInto? n slot = some last → ∃ fields',
      g.assetOf last.source = .ok (some (.obj fields'))
        ∧ ((Parts.putAll ⟨own, []⟩ ((g.inboundEdges n.id).map write)).child? slot
            = some (.obj fields)
          ↔ fields' = fields ∧ (slot.2 = none → ∀ e' ∈ g.inboundEdges n.id, ∀ index,
            n.slot e'.targetPort ≠ .ok (slot.1, some index))) := by
    intro last hinto
    have hmem : last ∈ g.inboundEdges n.id := List.mem_of_mem_filter (List.mem_of_getLast? hinto)
    obtain ⟨fields', hfields'⟩ := exists_assetOf_source ht hp (List.mem_of_mem_filter hmem)
    have hwritten : (write last).2 = .obj fields' :=
      Option.some.inj (Except.ok.inj ((hwrite last hmem).1.symm.trans hfields'))
    rw [hinto, Option.map_some, hwritten] at hlast
    use fields', hfields'
    rw [child?_putAll_iff hlast, List.forall_mem_map]
    apply and_congr_right'
    apply imp_congr_right
    intro _
    apply forall₂_congr
    intro e' he'
    apply forall_congr'
    intro index
    rw [ne_eq, ne_eq, hslots e' he']
  constructor
  · rintro ⟨child, hchild', ⟨parts, hparts', hplaced⟩, e', he', hslot⟩
    obtain rfl := Except.ok.inj (hparts.symm.trans hparts')
    obtain rfl := Option.some.inj (Except.ok.inj (hfields.symm.trans hchild'))
    obtain ⟨last, hinto⟩ := exists_lastInto? he' hslot
    obtain ⟨fields', hfields', hiff⟩ := hchild last hinto
    obtain ⟨rfl, hfield⟩ := hiff.mp hplaced
    exact ⟨⟨last, hinto, hfields'.trans hfields.symm⟩, hfield⟩
  · rintro ⟨⟨last, hinto, hassets⟩, hfield⟩
    obtain ⟨fields', hfields', hiff⟩ := hchild last hinto
    rw [hfields, hfields'] at hassets
    obtain rfl := Json.obj.inj (Option.some.inj (Except.ok.inj hassets))
    exact ⟨_, hfields, ⟨_, hparts, hiff.mpr ⟨rfl, hfield⟩⟩, last, mem_of_lastInto? hinto⟩

/-- The interpreters and the assembly agree on the sources of a node exactly if every edge that
the table keeps prevails in the slot of its port. -/
theorem Acyclic.agrees_iff (ha : g.Acyclic) {n : Node} (hn : n ∈ g.nodes) {label : String}
    (hlabel : n.label = .str label) :
  g.Agrees n ↔ ∀ e, Keeps label (g.inboundEdges n.id) e →
    ∃ slot, n.slot (.str e.inputName) = .ok slot ∧ g.Prevails n e slot
  := by
  have hreads := reads_iff ht.toTextual (find?_of_problems ht hp hn) hlabel
  have hagrees : ∀ e, Keeps label (g.inboundEdges n.id) e →
      (g.AgreesAt n (Migration.current label e.inputName) e.source
        ↔ ∃ slot, n.slot (.str e.inputName) = .ok slot ∧ g.Prevails n e slot) := by
    intro e hkeeps
    have he : e ∈ g.edges := List.mem_of_mem_filter (mem_of_last hkeeps.last).1
    rw [AgreesAt, slot_current hlabel]
    apply exists_congr
    intro slot
    rw [← places_iff ht hp ha hn he, exists_and_left]
  constructor
  · intro h e hkeeps
    apply (hagrees e hkeeps).mp
    apply h
    apply (hreads _ _).mpr
    exact ⟨e, hkeeps, rfl, rfl⟩
  · intro h port source hread
    obtain ⟨e, hkeeps, rfl, rfl⟩ := (hreads _ _).mp hread
    apply (hagrees e hkeeps).mpr
    apply h e hkeeps

end Valid

/-! ### A slot with two ports -/

/-- A sum whose first input is fed under its current name and then under its legacy name. -/
def twiceFed : Graph where
  nodes :=
    [{ id := "sum", label := .str "Sum", assetType := .str "Sum" },
      { id := "zero", label := .str "Constant", assetType := .str "Constant" },
      { id := "noise", label := .str "SimplexNoise2D", assetType := .str "SimplexNoise2D" }]
  edges := [.link "zero" "sum" (.str "Inputs[0]"), .link "noise" "sum" (.str "InputA")]

theorem typed_twiceFed : twiceFed.Typed
  where
  labels := by simp [twiceFed]
  ports := by simp [twiceFed, Edge.Textual, Edge.link]
  types := by simp [twiceFed]
  fields := by simp [twiceFed]
  records := by simp [twiceFed]
  indices := by
    intro e he port hport
    have hparse : ∀ e ∈ twiceFed.edges, ∃ slot, Port.parse e.targetPort.spelling = .ok slot := by
      simp only [twiceFed, List.forall_mem_cons]
      exact ⟨⟨_, rfl⟩, ⟨_, rfl⟩, by simp⟩
    obtain ⟨slot, hslot⟩ := hparse e he
    rw [hport] at hslot
    use slot, hslot

theorem acyclic_twiceFed : twiceFed.Acyclic
  := by
  apply acyclic_of_apart
  decide

/-- A node that nothing feeds is put together as its type. -/
theorem assetOf_leaf (id type : String)
    (h : Entries.find? twiceFed.nodeMap id
      = some { id := id, label := .str type, assetType := .str type })
    (hin : twiceFed.inboundEdges id = []) :
  twiceFed.assetOf id = .ok (some (.obj [("Type", .str type)]))
  := by
  have hparts := assetOf_eq_partsOf (n := { id := id, label := .str type, assetType := .str type }) h
  simp only [partsOf, hin] at hparts
  apply hparts.trans
  rfl

/-- The interpreters read the constant, and the assembly places the noise. -/
theorem not_agrees_twiceFed :
  ∃ n ∈ twiceFed.nodes, twiceFed.problems = .ok [] ∧ twiceFed.Acyclic ∧ ¬ twiceFed.Agrees n
  := by
  have hlabel : (Json.str "Sum") = .str "Sum" := rfl
  refine ⟨_, List.mem_cons_self .., rfl, acyclic_twiceFed, ?_⟩
  rw [Acyclic.agrees_iff typed_twiceFed rfl acyclic_twiceFed (List.mem_cons_self ..) hlabel]
  intro h
  have hkeeps : Keeps "Sum" (twiceFed.inboundEdges "sum")
      (.link "zero" "sum" (.str "Inputs[0]")) := by
    constructor
    · rfl
    · intro port hr
      cases hr
  obtain ⟨slot, hslot, ⟨last, hlast, hassets⟩, -⟩ := h _ hkeeps
  obtain rfl : ("Inputs", some 0) = slot := Except.ok.inj hslot
  obtain rfl : Edge.link "noise" "sum" (.str "InputA") = last := Option.some.inj hlast
  have hnoise := assetOf_leaf "noise" "SimplexNoise2D" rfl rfl
  have hzero := assetOf_leaf "zero" "Constant" rfl rfl
  replace hassets : twiceFed.assetOf "noise" = twiceFed.assetOf "zero" := hassets
  rw [hnoise, hzero] at hassets
  simp at hassets

end Graph

end AssetCanvas
