import AssetCanvas.Proofs.Handlers
import AssetCanvas.Proofs.Outline
import AssetCanvas.Proofs.Tables
import Mathlib.Data.List.TakeWhile

/-!
# Outlines that look alike

An evaluation of densities sees little of an outline: labels, discriminants and plain fields, and
the sources of the ports that handlers consult.  Two outlines that are the same in this respect
are `Outline.Alike`, and ids with such outlines have the same densities, `Density.evaluate_alike`,
in graphs whose ports have their current names, `Graph.Current`.
-/

namespace AssetCanvas

open Density

/-- Two nodes with the same label, the same discriminant and the same plain fields. -/
structure Node.Alike (n n' : Node) : Prop where
  label : n.label = n'.label
  assetType : n.assetType = n'.assetType
  fields : ∃ own own', n.fields = .obj own ∧ n'.fields = .obj own'
    ∧ ∀ key : String, Entries.find? own (.text key) = Entries.find? own' (.text key)

/-- Alike nodes are dispatched by the same type. -/
theorem Node.Alike.typeName {n n' : Node} (h : n.Alike n') (category : String) :
  n.typeName category = n'.typeName category
  := by
  simp only [Node.typeName, Node.typeValue, Node.dispatchValue, h.label, h.assetType]

/-- The name under which the input map has a port. -/
def Port.nameOf (port : Json) : String := Port.inputName (port.text?.getD "")

namespace Outline

/-- The source of a port among some inputs: of several with one name the last one. -/
def input? (inputs : List (Json × Outline)) (port : String) : Option Outline :=
  ((inputs.filter fun input => Port.nameOf input.1 = port).getLast?).map Prod.snd

/-- Two outlines of alike nodes with alike sources at the ports that are consulted. -/
inductive Alike : Outline → Outline → Prop
  | node {n n' : Node} {inputs inputs' : List (Json × Outline)} :
    n.Alike n' →
    (∀ port, Consulted port → (input? inputs port).isSome = (input? inputs' port).isSome) →
    (∀ port o o', Consulted port → input? inputs port = some o → input? inputs' port = some o' →
      Alike o o') →
    Alike (.node n inputs) (.node n' inputs')

end Outline

/-! ### Indexed ports -/

namespace Density

/-- The true values of a predicate on the numbers from zero on are all met within a bound that
they do not exceed. -/
theorem takeWhile_range {p : Nat → Bool} {bound : Nat}
    (h : ∀ m, (∀ i < m, p i = true) → m ≤ bound) (more : Nat) :
  (List.range (bound + more)).takeWhile p = (List.range bound).takeWhile p
  := by
  induction more with
  | zero => rfl
  | succ more ih =>
    rw [← Nat.add_assoc, List.range_succ, List.takeWhile_append, ← ih]
    split
    · rename_i hall
      have hfull := List.takeWhile_prefix p |>.eq_of_length hall
      have hlast : p (bound + more) = false := by
        by_contra htrue
        have hle := h (bound + more + 1) (by
          intro i hi
          rcases Nat.lt_succ_iff_lt_or_eq.mp hi with hi | rfl
          · apply List.takeWhile_eq_self_iff.mp hfull
            apply List.mem_range.mpr hi
          · simpa using htrue)
        omega
      rw [List.takeWhile_cons_of_neg (by simp [hlast]), List.append_nil, hfull]
    · rfl

/-- Items with a source are no more than the ports with a source. -/
theorem Scope.le_length_inputs {s : Scope} {m : Nat}
    (h : ∀ i < m, s.has (Port.slot "Inputs" i) = true) :
  m ≤ s.inputs.length
  := by
  have hnodup : ((List.range m).map fun i => Key.text (Port.slot "Inputs" i)).Nodup := by
    apply List.Nodup.map _ List.nodup_range
    intro i j hij
    apply (Port.slot_inj.mp (Key.text.inj hij)).2
  have hsub : ((List.range m).map fun i => Key.text (Port.slot "Inputs" i))
      ⊆ Entries.keys s.inputs := by
    intro key hkey
    obtain ⟨i, hi, rfl⟩ := List.mem_map.mp hkey
    have hhas := h i (List.mem_range.mp hi)
    obtain ⟨source, hsource⟩ := Option.isSome_iff_exists.mp hhas
    obtain ⟨key', hkey', hmem⟩ := Entries.mem_of_find? hsource
    rw [← Key.eq_of_beq_text hkey']
    apply List.mem_map_of_mem hmem
  have hlength := (List.subperm_of_subset hnodup hsub).length_le
  simpa [Entries.keys] using hlength

/-- The indexed ports are told by which items have a source. -/
theorem Scope.indexedPorts_congr {s s' : Scope}
    (h : ∀ i, s.has (Port.slot "Inputs" i) = s'.has (Port.slot "Inputs" i)) :
  s.indexedPorts = s'.indexedPorts
  := by
  have hbound : ∀ m, (∀ i < m, (s.has ∘ Port.slot "Inputs") i = true) → m ≤ s.inputs.length :=
    fun m hm => Scope.le_length_inputs hm
  have hsame : s.has ∘ Port.slot "Inputs" = s'.has ∘ Port.slot "Inputs" := by
    funext i
    apply h
  have hbound' : ∀ m, (∀ i < m, (s.has ∘ Port.slot "Inputs") i = true) → m ≤ s'.inputs.length := by
    rw [hsame]
    exact fun m hm => Scope.le_length_inputs hm
  rw [Scope.indexedPorts, Scope.indexedPorts, List.takeWhile_map, List.takeWhile_map, ← hsame,
    ← takeWhile_range hbound s'.inputs.length, ← takeWhile_range hbound' s.inputs.length,
    Nat.add_comm]

end Density

/-! ### Graphs with current ports -/

namespace Graph

/-- A textual graph in which no edge feeds a legacy port and no source is empty. -/
structure Current (g : Graph) : Prop extends g.Textual where
  current : ∀ e ∈ g.edges, ∀ n ∈ g.nodes, n.id = e.target → ∀ label, n.label = .str label →
    Migration.replacement? label (.text e.inputName) = none
  sources : ∀ e ∈ g.edges, e.source ≠ ""

/-- The last edge that feeds a port of a node. -/
def feeder? (g : Graph) (id port : String) : Option Edge :=
  ((g.inboundEdges id).filter fun e => e.inputName = port).getLast?

variable {g : Graph}

theorem mem_of_feeder? {id port : String} {e : Edge} (h : g.feeder? id port = some e) :
  e ∈ g.edges ∧ e.target = id
  := by
  obtain ⟨he, htarget⟩ := List.mem_filter.mp (mem_of_last h).1
  use he
  simpa using htarget

/-- Without legacy ports the migration changes nothing. -/
theorem find?_migrate_of_current {label context : String} {edges : List Edge}
    (h : ∀ e ∈ edges, Migration.replacement? label (.text e.inputName) = none) (port : String) :
  Entries.find? (Migration.migrate label (Entries.ofList (feeds edges)) context).1 (.text port)
    = ((edges.filter fun e => e.inputName = port).getLast?).map Edge.source
  := by
  cases hlast : (edges.filter fun e => e.inputName = port).getLast? with
  | none =>
    apply Option.eq_none_iff_forall_ne_some.mpr
    intro source hsource
    obtain ⟨e, hkeeps, hname, -⟩ := exists_keeps hsource
    have he := (mem_of_last hkeeps.last).1
    rw [Migration.current_eq, h e he] at hname
    rw [List.getLast?_eq_none_iff, List.filter_eq_nil_iff] at hlast
    apply hlast e he
    simpa using hname
  | some e =>
    obtain ⟨he, hname⟩ := mem_of_last hlast
    have hkeeps : Keeps label edges e := by
      constructor
      · rw [hname, hlast]
      · intro current hcurrent
        rw [h e he] at hcurrent
        cases hcurrent
    have hfind := hkeeps.find?_migrate context
    rw [Migration.current_eq, h e he] at hfind
    rw [← hname]
    apply hfind

/-- In the context of a graph with current ports, the source of a port is that of the last edge
into it. -/
theorem Current.exists_context (h : g.Current) {seed : Json} {ctx : Context}
    (hctx : Context.ofGraph g seed = .ok ctx) :
  ctx.nodes = g.nodeMap ∧ seed.toInt = .ok ctx.seed
    ∧ ∀ id n, Entries.find? g.nodeMap id = some n → ∀ port : String,
      Entries.find? ((Entries.find? ctx.inputs id).getD []) (.text port)
        = (g.feeder? id port).map Edge.source
  := by
  obtain ⟨tables, htables, hfind⟩ := find?_currentInputs h.toTextual
  simp only [Context.ofGraph, htables, Fault.ok_bind] at hctx
  obtain ⟨seed', hseed, hctx⟩ := Fault.bind_eq_ok_iff.mp hctx
  obtain rfl := Except.ok.inj hctx
  refine ⟨rfl, hseed, ?_⟩
  intro id n hn port
  obtain ⟨hmem, rfl⟩ := mem_nodes_of_find? hn
  obtain ⟨label, hlabel⟩ := h.labels n hmem
  rw [hfind n.id n label hn hlabel, feeder?]
  by_cases hnil : g.inboundEdges n.id = []
  · simp [hnil, Entries.find?]
  · rw [if_neg hnil, Option.getD_some]
    apply find?_migrate_of_current
    intro e he
    obtain ⟨he, htarget⟩ := List.mem_filter.mp he
    apply h.current e he n hmem _ label hlabel
    simpa [eq_comm] using htarget

/-- What an outline with a node says of the walk. -/
theorem unfold_eq_node {fresh : List String} {id : String} {content : Node}
    {inputs : List (Json × Outline)} (h : g.unfold fresh id = .node content inputs) :
  id ∈ fresh ∧ ∃ n, Entries.find? g.nodeMap id = some n ∧ content = n.content
    ∧ inputs = (g.inboundEdges id).map fun e =>
      (e.targetPort, g.unfold (Walk.without fresh id) e.source)
  := by
  rw [unfold] at h
  by_cases hmem : id ∈ fresh
  · rw [dif_pos hmem] at h
    use hmem
    cases hn : Entries.find? g.nodeMap id with
    | none => simp [hn] at h
    | some n =>
      simp only [hn, Outline.node.injEq] at h
      exact ⟨n, rfl, h.1.symm, h.2.symm⟩
  · rw [dif_neg hmem] at h
    cases h

/-- The source of a port in an outline is that of the last edge into the port. -/
theorem input?_unfold (id port : String) (outlineOf : String → Outline) :
  Outline.input? ((g.inboundEdges id).map fun e => (e.targetPort, outlineOf e.source)) port
    = (g.feeder? id port).map fun e => outlineOf e.source
  := by
  rw [Outline.input?, List.filter_map, List.getLast?_map, Option.map_map]
  rfl

/-- Alike outlines of two ids come from alike nodes whose consulted ports have alike sources. -/
theorem nodes_of_alike {g' : Graph} {fresh fresh' : List String} {id id' : String}
    (h : Outline.Alike (g.unfold fresh id) (g'.unfold fresh' id')) :
  id ∈ fresh ∧ id' ∈ fresh' ∧ ∃ n n', Entries.find? g.nodeMap id = some n
    ∧ Entries.find? g'.nodeMap id' = some n' ∧ n.Alike n'
    ∧ (∀ port, Consulted port → (g.feeder? id port).isSome = (g'.feeder? id' port).isSome)
    ∧ ∀ port e e', Consulted port → g.feeder? id port = some e → g'.feeder? id' port = some e' →
      Outline.Alike (g.unfold (Walk.without fresh id) e.source)
        (g'.unfold (Walk.without fresh' id') e'.source)
  := by
  generalize ho : g.unfold fresh id = o at h
  generalize ho' : g'.unfold fresh' id' = o' at h
  cases h with
  | node hcontent hsome hinputs =>
    obtain ⟨hmem, n, hn, rfl, rfl⟩ := unfold_eq_node ho
    obtain ⟨hmem', n', hn', rfl, rfl⟩ := unfold_eq_node ho'
    use hmem, hmem', n, n', hn, hn', ⟨hcontent.label, hcontent.assetType, hcontent.fields⟩
    constructor
    · intro port hport
      have h := hsome port hport
      rw [input?_unfold, input?_unfold] at h
      simpa using h
    · intro port e e' hport he he'
      apply hinputs port _ _ hport
      · rw [input?_unfold, he]
        rfl
      · rw [input?_unfold, he']
        rfl

end Graph

/-! ### Evaluation -/

namespace Density

open AssetCanvas.Graph

variable {g g' : Graph} {ctx ctx' : Context} {seed : Json}

theorem none_or_some_of_isSome_eq {α : Type} {found found' : Option α}
    (h : found.isSome = found'.isSome) :
  found = none ∧ found' = none ∨ ∃ a a', found = some a ∧ found' = some a'
  := by
  cases found with
  | none =>
    left
    use rfl
    simpa using h.symm
  | some a =>
    right
    obtain ⟨a', ha'⟩ := Option.isSome_iff_exists.mp h.symm
    exact ⟨a, a', rfl, ha'⟩

/-- Scopes of alike nodes agree if the nodes that feed the ports that are consulted are alike and
have the same densities. -/
theorem scope_agrees (hg : g.Current) (hg' : g'.Current) (hctx : Context.ofGraph g seed = .ok ctx)
    (hctx' : Context.ofGraph g' seed = .ok ctx') {id id' : String} {n n' : Node}
    (hn : Entries.find? g.nodeMap id = some n) (hn' : Entries.find? g'.nodeMap id' = some n')
    (halike : n.Alike n') {sources sources' : String → List Point → Except Fault (List Float)}
    (hfeeders : ∀ port, Consulted port →
      (g.feeder? id port).isSome = (g'.feeder? id' port).isSome)
    (hsources : ∀ port e e', Consulted port → g.feeder? id port = some e →
      g'.feeder? id' port = some e' → sources e.source = sources' e'.source
        ∧ ∃ m m', Entries.find? g.nodeMap e.source = some m
          ∧ Entries.find? g'.nodeMap e'.source = some m' ∧ m.Alike m') :
  (ctx.scope n id sources).Agrees (ctx'.scope n' id' sources')
  := by
  obtain ⟨hnodes, hseed, hfind⟩ := hg.exists_context hctx
  obtain ⟨hnodes', hseed', hfind'⟩ := hg'.exists_context hctx'
  replace hfind := hfind id n hn
  replace hfind' := hfind' id' n' hn'
  have hhas : ∀ port, Consulted port →
      (ctx.scope n id sources).has port = (ctx'.scope n' id' sources').has port := by
    intro port hport
    simp only [Scope.has, Entries.contains, Context.scope, hfind, hfind', Option.isSome_map]
    apply hfeeders port hport
  constructor
  · exact .inr halike.fields
  · apply Except.ok.inj (hseed.symm.trans hseed')
  · apply hhas
  · intro port hport
    funext points
    simp only [Scope.input, Context.scope, hfind, hfind']
    rcases none_or_some_of_isSome_eq (hfeeders port hport) with ⟨he, he'⟩ | ⟨e, e', he, he'⟩
    · rw [he, he']
      rfl
    · simp only [he, he', Option.map_some, (hsources port e e' hport he he').1]
  · intro port hport
    simp only [Scope.curve?, Scope.source?, Context.scope, hfind, hfind', hnodes, hnodes']
    rcases none_or_some_of_isSome_eq (hfeeders port hport) with ⟨he, he'⟩ | ⟨e, e', he, he'⟩
    · rw [he, he']
      rfl
    · obtain ⟨-, m, m', hm, hm', hlike⟩ := hsources port e e' hport he he'
      obtain ⟨own, own', hown, hown', hsame⟩ := hlike.fields
      have hne := hg.sources e (mem_of_feeder? he).1
      have hne' := hg'.sources e' (mem_of_feeder? he').1
      simp only [he, he', Option.map_some, hne, hne', if_false, hm, hm', hlike.typeName, hown,
        hown', Json.members, Fault.ok_bind, Json.field, hsame]
  · apply Scope.indexedPorts_congr
    intro i
    apply hhas _ (consulted_slot i)

/-- Ids whose outlines look alike have the same densities. -/
theorem evaluate_alike (hg : g.Current) (hg' : g'.Current) (hctx : Context.ofGraph g seed = .ok ctx)
    (hctx' : Context.ofGraph g' seed = .ok ctx') (fresh : List String) (id : String)
    (fresh' : List String) (id' : String)
    (halike : Outline.Alike (g.unfold fresh id) (g'.unfold fresh' id')) :
  evaluate ctx fresh id = evaluate ctx' fresh' id'
  := by
  induction fresh, id using walk_induction generalizing fresh' id' with
  | step fresh id ih =>
    obtain ⟨hmem, hmem', n, n', hn, hn', hnode, hfeeders, hbelow⟩ := nodes_of_alike halike
    have hscope : (ctx.scope n id fun source images =>
          evaluate ctx (Walk.without fresh id) source images).Agrees
        (ctx'.scope n' id' fun source images =>
          evaluate ctx' (Walk.without fresh' id') source images) := by
      apply scope_agrees hg hg' hctx hctx' hn hn' hnode hfeeders
      intro port e e' hport he he'
      have hsource := hbelow port e e' hport he he'
      constructor
      · apply ih hmem e.source _ _ hsource
      · obtain ⟨-, -, m, m', hm, hm', hlike, -⟩ := nodes_of_alike hsource
        exact ⟨m, m', hm, hm', hlike⟩
    funext points
    rw [evaluate, evaluate, dif_pos hmem, dif_pos hmem', (hg.exists_context hctx).1,
      (hg'.exists_context hctx').1, hn, hn']
    simp only [hnode.typeName]
    cases n'.typeName family.category with
    | error fault => rfl
    | ok type => rw [Fault.ok_bind, Fault.ok_bind, respects_handlerOf type _ _ hscope]

/-- The densities of ids whose outlines look alike, at some points, or the same faults. -/
theorem ofGraph_alike (hg : g.Current) (hg' : g'.Current) {id id' : String}
    (halike : Outline.Alike (g.unfold (Entries.keys g.nodeMap) id)
      (g'.unfold (Entries.keys g'.nodeMap) id')) (seed : Json) (points : List Point) :
  Density.ofGraph g id seed points = Density.ofGraph g' id' seed points
  := by
  obtain ⟨tables, htables, -⟩ := find?_currentInputs hg.toTextual
  obtain ⟨tables', htables', -⟩ := find?_currentInputs hg'.toTextual
  cases hseed : seed.toInt with
  | error fault =>
    simp [Density.ofGraph, Context.ofGraph, htables, htables', hseed]
  | ok n =>
    have hctx : Context.ofGraph g seed = .ok ⟨g.nodeMap, tables, n⟩ := by
      simp [Context.ofGraph, htables, hseed]
    have hctx' : Context.ofGraph g' seed = .ok ⟨g'.nodeMap, tables', n⟩ := by
      simp [Context.ofGraph, htables', hseed]
    rw [Density.ofGraph, Density.ofGraph, hctx, hctx']
    apply congrFun (evaluate_alike hg hg' hctx hctx' _ id _ id' halike)

end Density

end AssetCanvas
