import AssetCanvas.Proofs.Agreement
import AssetCanvas.Proofs.Depiction
import AssetCanvas.Proofs.ValidAssets

/-!
# Children that meet at one port

Two items of the arrays of an asset never feed the same port of its node, but a nested asset may
feed the port of an item, or of another nested asset: its field may be named like the port, or be
a legacy name of it.  `Layout.feeds_once_iff` says of the layout of a valid tree that no port is
fed twice, that its graph has no problems, that no source is hidden from the interpreters, and
that none is hidden in the assembly, each exactly if no asset of the tree has such children.
-/

namespace AssetCanvas

open Json

/-! ### Repetitions -/

section Repetitions

variable {α β : Type} [DecidableEq β]

/-- The images of different members are different exactly if every member is the last one with
its image. -/
theorem nodup_map_iff_last {l : List α} (hl : l.Nodup) (f : α → β) :
  (l.map f).Nodup ↔ ∀ a ∈ l, (l.filter fun b => f b = f a).getLast? = some a
  := by
  rw [List.nodup_map_iff_inj_on hl]
  constructor
  · intro h a ha
    cases hlast : (l.filter fun b => f b = f a).getLast? with
    | none =>
      rw [List.getLast?_eq_none_iff, List.filter_eq_nil_iff] at hlast
      exact (hlast a ha (decide_eq_true rfl)).elim
    | some b =>
      obtain ⟨hb, hsame⟩ := List.mem_filter.mp (List.mem_of_getLast? hlast)
      rw [h b hb a ha (decide_eq_true_iff.mp hsame)]
  · intro h a ha b hb hab
    have hlast := h a ha
    rw [hab, h b hb] at hlast
    exact (Option.some.inj hlast).symm

end Repetitions

/-- No two edges with one target have the same image exactly if none of the edges into a target
have. -/
theorem nodup_map_target_iff {β : Type} (f : Edge → β) (edges : List Edge) :
  (edges.map fun e => (e.target, f e)).Nodup
    ↔ ∀ id, ((edges.filter fun e => e.target = id).map f).Nodup
  := by
  induction edges with
  | nil => simp
  | cons e rest ih =>
    rw [List.map_cons, List.nodup_cons, ih]
    constructor
    · rintro ⟨hnew, hrest⟩ id
      by_cases hid : e.target = id
      · rw [List.filter_cons_of_pos (by simpa using hid), List.map_cons, List.nodup_cons]
        refine ⟨?_, hrest id⟩
        intro hmem
        obtain ⟨e', he', heq⟩ := List.mem_map.mp hmem
        obtain ⟨he', htarget⟩ := List.mem_filter.mp he'
        apply hnew
        apply List.mem_map.mpr
        use e', he'
        rw [heq, hid, decide_eq_true_iff.mp htarget]
      · rw [List.filter_cons_of_neg (by simpa using hid)]
        apply hrest
    · intro h
      constructor
      · intro hmem
        obtain ⟨e', he', heq⟩ := List.mem_map.mp hmem
        obtain ⟨htarget, hf⟩ := Prod.mk.inj heq
        have hnodup := h e.target
        rw [List.filter_cons_of_pos (by simp), List.map_cons, List.nodup_cons] at hnodup
        apply hnodup.1
        rw [← hf]
        apply List.mem_map_of_mem
        apply List.mem_filter.mpr
        exact ⟨he', decide_eq_true htarget⟩
      · intro id
        apply List.Nodup.sublist _ (h id)
        apply List.Sublist.map
        apply List.Sublist.filter
        apply List.sublist_cons_self

/-! ### Graphs of layouts -/

namespace Graph

open Asset Layout

variable {g : Graph} {stem : String} {field : Option String} {fields : Fields}

namespace Realizes

/-- No two edges feed one port exactly if no two edges into one node do. -/
theorem nodup_feeding_iff (h : g.Realizes (placeRoot stem field fields)) :
  (g.edges.map feeding).Nodup
    ↔ ∀ n ∈ g.nodes, ((g.inboundEdges n.id).map Edge.targetPort).Nodup
  := by
  have htargets := nodup_map_target_iff Edge.targetPort g.edges
  rw [show (g.edges.map feeding).Nodup
      ↔ (g.edges.map fun e => (e.target, e.targetPort)).Nodup from Iff.rfl, htargets]
  constructor
  · intro hall n _
    apply hall n.id
  · intro hall id
    by_cases hid : id ∈ g.nodes.map Node.id
    · obtain ⟨n, hn, rfl⟩ := List.mem_map.mp hid
      apply hall n hn
    · have hnil : (g.edges.filter fun e => e.target = id) = [] := by
        rw [List.filter_eq_nil_iff]
        intro e he htarget
        apply hid
        rw [← decide_eq_true_iff.mp htarget]
        apply (h.endsIn he).2
      rw [hnil]
      apply List.nodup_nil

/-- The source of every edge into a node is read exactly if the edges have different entries in
the input map. -/
theorem forall_reads_iff (h : g.Realizes (placeRoot stem field fields)) (ht : g.Textual) {n : Node}
    (hn : n ∈ g.nodes) {label : String} (hlabel : n.label = .str label)
    (hcurrent : ∀ e ∈ g.inboundEdges n.id, Migration.replacement? label (.text e.inputName) = none) :
  (∀ e ∈ g.inboundEdges n.id, ∃ port, g.Reads n.id port e.source)
    ↔ ((g.inboundEdges n.id).map Edge.inputName).Nodup
  := by
  have hsources : ((g.inboundEdges n.id).map Edge.source).Nodup :=
    h.nodup_sources.sublist (List.Sublist.map _ List.filter_sublist)
  have hreads := reads_iff ht (g.find?_nodeMap h.nodup_ids hn) hlabel
  rw [nodup_map_iff_last (List.Nodup.of_map _ hsources)]
  apply forall₂_congr
  intro e he
  constructor
  · rintro ⟨port, hread⟩
    obtain ⟨e', hkeeps, -, hsource⟩ := (hreads _ _).mp hread
    obtain rfl := List.inj_on_of_nodup_map hsources (mem_of_last hkeeps.last).1 he hsource
    apply hkeeps.last
  · intro hlast
    use Migration.current label e.inputName
    apply (hreads _ _).mpr
    refine ⟨e, ⟨hlast, ?_⟩, rfl, rfl⟩
    intro port hr
    rw [hcurrent e he] at hr
    cases hr

end Realizes

/-- Whether the assembly has the source of an edge in the slot of its port: no later edge leads
into the slot, and if the slot is a field, then no edge feeds an item of the field. -/
structure StandsIn (g : Graph) (n : Node) (e : Edge) (slot : String × Option Nat) : Prop where
  means : n.slot e.targetPort = .ok slot
  last : g.lastInto? n slot = some e
  shown : slot.2 = none → ∀ e' ∈ g.inboundEdges n.id, ∀ index,
    n.slot e'.targetPort ≠ .ok (slot.1, some index)

namespace Depicts

variable {n : Node} {parent : Option String} {t : Fields}

/-- The sources of all edges into a node stand in their slots exactly if the children of the
asset are separate. -/
theorem forall_standsIn_iff (h : g.Depicts n parent t) (hd : (g.inboundEdges n.id).Nodup) :
  (∀ e ∈ g.inboundEdges n.id, ∃ slot, g.StandsIn n e slot) ↔ Separate parent t
  := by
  have hslots : ((g.inboundEdges n.id).map fun e => n.slot e.targetPort)
      = (children t).map (slotAt parent t) := by
    rw [h.map_ports n.slot]
    apply List.map_congr_left
    intro c _
    apply h.slot_eq
  have hchildren : ∀ P : Except Fault (String × Option Nat) → Prop,
      (∀ e ∈ g.inboundEdges n.id, P (n.slot e.targetPort))
        ↔ ∀ c ∈ children t, P (slotAt parent t c) := by
    intro P
    rw [h.forall_ports_iff (P := fun port => P (n.slot port))]
    apply forall₂_congr
    intro c _
    rw [h.slot_eq, slotAt]
  have hreadable := hchildren fun s => ∃ slot, s = .ok slot
  have hunmixed := hchildren fun s => ∀ field, s = .ok (field, none) →
    ∀ c' ∈ children t, ∀ index, slotAt parent t c' ≠ .ok (field, some index)
  have hitems := fun field => hchildren fun s => ∀ index, s ≠ .ok (field, some index)
  constructor
  · intro hstands
    constructor
    · apply hreadable.mp
      intro e he
      obtain ⟨slot, hstand⟩ := hstands e he
      use slot, hstand.means
    · rw [← hslots, nodup_map_iff_last hd]
      intro e he
      obtain ⟨slot, hstand⟩ := hstands e he
      rw [hstand.means]
      apply hstand.last
    · apply hunmixed.mp
      intro e he field hfield
      obtain ⟨slot, hstand⟩ := hstands e he
      obtain rfl := Except.ok.inj (hstand.means.symm.trans hfield)
      apply (hitems field).mp (hstand.shown rfl)
  · intro hseparate e he
    have hlast := (nodup_map_iff_last hd _).mp (hslots ▸ hseparate.apart) e he
    obtain ⟨⟨field, index⟩, hslot⟩ := hreadable.mpr hseparate.readable e he
    use (field, index), hslot
    · rw [hslot] at hlast
      apply hlast
    · rintro rfl
      apply (hitems field).mpr
      apply hunmixed.mpr hseparate.field e he field hslot

end Depicts

section Tree

variable (h : g.Realizes (placeRoot stem field fields))
  (hmapping : Everywhere (fun _ => Mapping) field fields)

include h hmapping

/-- No port of a layout is fed twice exactly if no nested asset feeds the port of another child. -/
theorem Realizes.nodup_feeding_iff_uncontested :
  (g.edges.map feeding).Nodup ↔ Everywhere Uncontested field fields
  := by
  rw [h.nodup_feeding_iff]
  apply h.forall_nodes_iff
  intro n _ parent t hreach hdepicts
  rw [hdepicts.ports]
  apply nodup_ports_iff (hmapping parent t hreach)

theorem Realizes.problems_eq_nil_iff_uncontested :
  g.problems = .ok [] ↔ Everywhere Uncontested field fields
  := by
  rw [problems_eq_nil_iff (h.textual hmapping).ports, h.nodup_feeding_iff_uncontested hmapping,
    and_iff_right h.nodup_ids, and_iff_right]
  intro e he
  apply h.endsIn he

/-- The interpreters read the source of every edge of a layout exactly if no nested asset has the
entry of another child in the input map. -/
theorem Realizes.forall_reads_iff_unmasked :
  (∀ n ∈ g.nodes, ∀ e ∈ g.inboundEdges n.id, ∃ port, g.Reads n.id port e.source)
    ↔ Everywhere Unmasked field fields
  := by
  apply h.forall_nodes_iff
  intro n hn parent t hreach hdepicts
  have hentries : (g.inboundEdges n.id).map Edge.inputName = (children t).map (entryOf parent t) :=
    hdepicts.map_ports fun port => Port.inputName (port.text?.getD "")
  rw [h.forall_reads_iff (h.textual hmapping) hn hdepicts.label, hentries]
  · apply nodup_entries_iff (hmapping parent t hreach)
  · apply hdepicts.replacement?_inputName (hmapping parent t hreach)

omit hmapping in
/-- The assembly has the source of every edge of a layout in its slot exactly if the children of
every asset are separate. -/
theorem Realizes.forall_standsIn_iff_separate :
  (∀ n ∈ g.nodes, ∀ e ∈ g.inboundEdges n.id, ∃ slot, g.StandsIn n e slot)
    ↔ Everywhere Separate field fields
  := by
  apply h.forall_nodes_iff
  intro n _ parent t _ hdepicts
  apply hdepicts.forall_standsIn_iff
  apply List.Nodup.of_map Edge.source
  apply h.nodup_sources.sublist (List.Sublist.map _ List.filter_sublist)

end Tree

end Graph

namespace Layout

open Asset

/-- Of every valid tree there is a layout, if the distances of the policy are numbers and the stem
of the ids has a spelling.  No port of a layout is fed twice, and its graph has no problems, exactly
if no nested asset feeds the port of another child; no source is hidden from the interpreters
exactly if no nested asset has the entry of another child; and none is hidden in the assembly
exactly if the children of every asset are separate. -/
theorem feeds_once_iff {fields : Fields} (hvalid : Asset.problems (.obj fields) = .ok [])
    {field : Option String} (hmapping : Everywhere (fun _ => Mapping) field fields) (stem : Json)
    (start : Float × Float) (policy : LayoutPolicy) :
  (policy.Spaced → (stemValue policy stem).isSpellable = true →
      Everywhere (fun _ t => (parts t).length ≤ capacity) field fields →
      ∃ l, Layout.ofAsset (.obj fields) stem start (Json.ofOption field) policy = .ok l)
    ∧ ∀ l, Layout.ofAsset (.obj fields) stem start (Json.ofOption field) policy = .ok l →
      ((l.edges.map Graph.feeding).Nodup ↔ Everywhere Uncontested field fields)
      ∧ (l.toGraph.problems = .ok [] ↔ Everywhere Uncontested field fields)
      ∧ ((∀ n ∈ l.nodes, ∀ e ∈ l.toGraph.inboundEdges n.id,
          ∃ port, l.toGraph.Reads n.id port e.source) ↔ Everywhere Unmasked field fields)
      ∧ ((∀ n ∈ l.nodes, ∀ e ∈ l.toGraph.inboundEdges n.id,
          ∃ slot, l.toGraph.StandsIn n e slot) ↔ Everywhere Separate field fields)
  := by
  constructor
  · intro hp hstem hsize
    have hnil : problemsAt "root" (.obj fields) = [] := eq_of_problems hvalid
    apply exists_ofAsset start hp hstem
    intro parent t hreach
    exact ⟨everywhere_discriminated hnil parent t hreach,
      fun _ hc => isSpellable_of_mapping (hmapping parent t hreach) hc, hsize parent t hreach⟩
  · intro l hl
    have hg := realizes_of_ofAsset hl
    exact ⟨hg.nodup_feeding_iff_uncontested hmapping, hg.problems_eq_nil_iff_uncontested hmapping,
      hg.forall_reads_iff_unmasked hmapping, hg.forall_standsIn_iff_separate⟩

/-! ### A port that is fed twice -/

/-- A sum with an input under its legacy name and one in its array. -/
def twiceInput : Fields :=
  [("Type", .str "Sum"), ("InputA", .obj (bare "Constant")),
    ("Inputs", .arr [.obj (bare "SimplexNoise2D")])]

theorem parts_twiceInput :
  parts twiceInput = [.plain "Type" (.str "Sum"), .child ⟨"InputA", none, bare "Constant"⟩,
    .record "Inputs", .child ⟨"Inputs", some 0, bare "SimplexNoise2D"⟩]
  := rfl

theorem everywhere_twiceInput {P : Option String → Fields → Prop} (here : P none twiceInput)
    (below : ∀ parent type, P parent (bare type)) :
  Everywhere P none twiceInput
  := by
  apply everywhere_over_bare here _ below
  rw [parts_twiceInput]
  simp [Part.asset?]

/-- The sum is valid, and its layout feeds the first input twice. -/
theorem feeds_twice_twiceInput :
  Asset.problems (.obj twiceInput) = .ok []
    ∧ ∃ l, Layout.ofAsset (.obj twiceInput) .null (0.0, 0.0) .null {} = .ok l
      ∧ ¬ (l.edges.map Graph.feeding).Nodup ∧ l.toGraph.problems ≠ .ok []
  := by
  have hvalid : Asset.problems (.obj twiceInput) = .ok [] := by rfl
  have hmapping : Everywhere (fun _ => Mapping) none twiceInput := by
    apply everywhere_twiceInput
    · constructor
      · simp [twiceInput]
      · unfold Entries.Distinct
        decide
    · intro parent type
      apply (readable_bare parent type).mapping
  have hpolicy : LayoutPolicy.Spaced {} :=
    ⟨⟨_, rfl, trivial⟩, ⟨_, rfl, trivial⟩, ⟨_, rfl, trivial⟩, ⟨_, rfl, trivial⟩⟩
  have hcontested : ¬ Everywhere Uncontested none twiceInput := by
    intro h
    have hfield : (⟨"InputA", none, bare "Constant"⟩ : Child) ∈ children twiceInput := by
      rw [mem_children, parts_twiceInput]
      simp
    have hitem : (⟨"Inputs", some 0, bare "SimplexNoise2D"⟩ : Child) ∈ children twiceInput := by
      rw [mem_children, parts_twiceInput]
      simp
    have hsame := h.here _ hfield rfl _ hitem rfl
    have hindex := congrArg Child.index hsame
    cases hindex
  obtain ⟨hexists, hiff⟩ := feeds_once_iff hvalid hmapping .null (0.0, 0.0) {}
  obtain ⟨l, hl⟩ := hexists hpolicy rfl (by
    apply everywhere_twiceInput
    · rw [parts_twiceInput]
      decide
    · intro parent type
      apply (readable_bare parent type).size)
  obtain ⟨hfeeding, hproblems, -, -⟩ := hiff l hl
  use hvalid, l, hl
  constructor
  · intro hnodup
    apply hcontested (hfeeding.mp hnodup)
  · intro hnil
    apply hcontested (hproblems.mp hnil)

end Layout

end AssetCanvas
