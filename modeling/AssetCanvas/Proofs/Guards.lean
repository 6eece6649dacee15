import AssetCanvas.Proofs.Agreement
import AssetCanvas.Proofs.HandlerScripts
import AssetCanvas.Proofs.PositionFaults
import AssetCanvas.Proofs.Recursion
import AssetCanvas.Proofs.Sources

/-!
# Guarded walks

The assembly of assets and the two interpreters are recursions with a shared set of ids.  Every
operation has a script, and it calls only sources that an edge leads from.  So all three are
guarded for every graph, with cycles, loops, edges without ends and ids that several nodes have:
`Graph.guarded`.
-/

namespace AssetCanvas

open Requests

/-! ### Assembly -/

namespace Assembly

/-- How assets are assembled: an operation that fails leaves its id in the shared set. -/
def recursion (g : Graph) : Recursion Unit (Option Json) where
  operation? id := (Entries.find? g.nodeMap id).map fun n _ answers => do
    return some (← ofNode n (g.inboundEdges id) fun source => answers (source, ()))
  closed _ := none
  restores := false

theorem computes (g : Graph) :
  (recursion g).Computes fun fresh id _ => assemble g g.nodeMap fresh id
  where
  entered {fresh id d operation} hmem hoperation := by
    obtain ⟨n, hn, rfl⟩ := Option.map_eq_some_iff.mp hoperation
    rw [assemble, dif_pos hmem, hn]
  blank {fresh id d} hnone := by
    rw [assemble, Option.map_eq_none_iff.mp hnone]
    split <;> rfl
  closed {fresh id d} hmem := by
    rw [assemble, dif_neg hmem]
    rfl

/-- The asset of a node is put together from the assets of the sources of the edges into it. -/
theorem scripted_ofNode {P : String × Unit → Prop} (n : Node) {edges : List Edge}
    (h : ∀ e ∈ edges, P (e.source, ())) :
  Scripted P (fun answers => ofNode n edges fun source => answers (source, ()))
  := by
  apply (Scripted.read _).bind
  intro discriminant
  apply (Scripted.read _).bind
  intro own
  apply Scripted.map
  apply Scripted.foldlM
  intro e he parts
  apply (Scripted.request (h e he)).bind
  rintro (_ | child)
  · apply Scripted.pure
  · apply (Scripted.read _).map

theorem scripted_operation (g : Graph) (id : String)
    (operation : Unit → Answers (String × Unit) (Option Json) → Except Fault (Option Json))
    (h : (recursion g).operation? id = some operation) (d : Unit) :
  Scripted (fun call => g.Feeds call.1 id) (operation d)
  := by
  obtain ⟨n, -, rfl⟩ := Option.map_eq_some_iff.mp h
  apply Scripted.map
  apply scripted_ofNode
  intro e he
  apply Graph.feeds_of_mem_inboundEdges he

end Assembly

/-! ### Positions -/

namespace Positions

/-- Whether an operation has a script, whatever the random source is, with requests for the
positions of certain sources. -/
def Scripted {α : Type} (P : String → Prop) (operation : Answers Call Drawn → Draw α) : Prop :=
  ∀ source, Requests.Scripted (fun call => P call.1) (fun answers => operation answers source)

namespace Scripted

variable {α β : Type} {P : String → Prop} {operation : Answers Call Drawn → Draw α}

theorem read (x : Draw α) : Scripted P (fun _ => x) := fun source => .read (x source)

theorem drawn {id : String} (h : P id) : Scripted P (fun answers => drawn answers id)
  := by
  intro source
  have hasked : P (id, source).1 := h
  exact .request hasked

theorem bind {next : α → Answers Call Drawn → Draw β} (h : Scripted P operation)
    (hnext : ∀ a, Scripted P (next a)) :
  Scripted P (fun answers => operation answers >>= fun a => next a answers)
  := fun source => (h source).bind fun result => hnext result.1 result.2

theorem map (h : Scripted P operation) (f : α → β) :
  Scripted P (fun answers => operation answers >>= fun a => pure (f a))
  := h.bind fun a => read (pure (f a))

end Scripted

theorem scripted_fed (inputs : Inputs) (port : String) :
  Scripted (fun id => ∃ port, Entries.find? inputs port = some id)
    (fun answers => fed inputs (drawn answers) port)
  := by
  unfold fed
  cases hsource : Entries.find? inputs port with
  | none => apply Scripted.read
  | some source => apply Scripted.drawn ⟨port, hsource⟩

/-- A type asks for the positions of the sources of its ports. -/
theorem scripted_produce (ctx : Context) (n : Node) (inputs : Inputs) (type : String) :
  Scripted (fun id => ∃ port, Entries.find? inputs port = some id)
    (fun answers => produce ctx n inputs (drawn answers) type)
  := by
  simp only [produce]
  split
  · apply Scripted.read
  · apply Scripted.read
  · apply Scripted.read
  · apply Scripted.read
  · -- an occurrence
    apply (Scripted.read _).bind
    intro chance
    apply (scripted_fed inputs _).bind
    intro ps
    apply Scripted.read
  · -- an offset
    apply (Scripted.read _).bind
    intro offset
    apply (Scripted.read _).bind
    intro vector
    apply (scripted_fed inputs _).map
  · -- a union
    apply (scripted_fed inputs _).bind
    intro a
    apply (scripted_fed inputs _).map
  · apply scripted_fed
  · apply scripted_fed
  · apply (scripted_fed inputs _).map
  · apply scripted_fed
  · apply Scripted.read
  · apply scripted_fed
  · apply Scripted.read
  · -- an unknown type
    cases forwardedPorts.find? fun port => Entries.contains inputs (Key.text port) with
    | none => apply Scripted.read
    | some port => apply scripted_fed

/-- How positions are computed. -/
def recursion (ctx : Context) : Recursion RandomSource Drawn where
  operation? id := (Entries.find? ctx.nodes id).map fun n source answers =>
    (do
      let type ← n.typeName family.category
      let inputs := (Entries.find? ctx.inputs id).getD []
      truncate ctx.policy.maxSamples (← produce ctx n inputs (drawn answers) type) :
      Draw (List Position)) source
  closed source := ([], source)
  restores := true

theorem computes (ctx : Context) : (recursion ctx).Computes (evaluate ctx)
  where
  entered {fresh id source operation} hmem hoperation := by
    obtain ⟨n, hn, rfl⟩ := Option.map_eq_some_iff.mp hoperation
    rw [evaluate, dif_pos hmem, hn]
    rfl
  blank {fresh id source} hnone := by
    rw [evaluate, Option.map_eq_none_iff.mp hnone]
    split <;> rfl
  closed {fresh id source} hmem := by
    rw [evaluate, dif_neg hmem]
    rfl

theorem Context.of_ofGraph {g : Graph} {range : WorldRange} {policy : EvaluationPolicy}
    {ctx : Context} (h : Context.ofGraph g range policy = .ok ctx) :
  ctx.nodes = g.nodeMap ∧ g.currentInputs g.nodeMap = .ok ctx.inputs ∧ ctx.range = range
    ∧ ctx.policy = policy
  := by
  obtain ⟨inputs, hinputs, hctx⟩ := Fault.bind_eq_ok_iff.mp h
  obtain rfl := Except.ok.inj hctx
  exact ⟨rfl, hinputs, rfl, rfl⟩

theorem scripted_operation {g : Graph} {range : WorldRange} {policy : EvaluationPolicy}
    {ctx : Context} (hctx : Context.ofGraph g range policy = .ok ctx) (id : String)
    (operation : RandomSource → Answers Call Drawn → Except Fault Drawn)
    (h : (recursion ctx).operation? id = some operation) (source : RandomSource) :
  Requests.Scripted (fun call => g.Feeds call.1 id) (operation source)
  := by
  obtain ⟨-, hinputs, -⟩ := Context.of_ofGraph hctx
  obtain ⟨n, -, rfl⟩ := Option.map_eq_some_iff.mp h
  have hscripted : Scripted (g.Feeds · id) fun answers => (do
      let type ← n.typeName family.category
      let inputs := (Entries.find? ctx.inputs id).getD []
      truncate ctx.policy.maxSamples (← produce ctx n inputs (drawn answers) type) :
      Draw (List Position)) := by
    apply (Scripted.read _).bind
    intro type
    apply Scripted.bind
    · intro source
      apply (scripted_produce ctx n _ type source).mono
      rintro call ⟨port, hport⟩
      apply Graph.feeds_of_find? hinputs hport
    · intro ps
      apply Scripted.read
  apply hscripted

end Positions

/-! ### Densities -/

namespace Density

/-- How densities are computed. -/
def recursion (ctx : Context) : Recursion (List Point) (List Float) where
  operation? id := (Entries.find? ctx.nodes id).map fun n points answers => do
    let type ← n.typeName family.category
    handlerOf type (ctx.scope n id fun source images => answers (source, images)) points
  closed := constant 0.0
  restores := true

theorem computes (ctx : Context) : (recursion ctx).Computes (evaluate ctx)
  where
  entered {fresh id points operation} hmem hoperation := by
    obtain ⟨n, hn, rfl⟩ := Option.map_eq_some_iff.mp hoperation
    rw [evaluate, dif_pos hmem, hn]
  blank {fresh id points} hnone := by
    rw [evaluate, Option.map_eq_none_iff.mp hnone]
    split <;> rfl
  closed {fresh id points} hmem := by
    rw [evaluate, dif_neg hmem]
    rfl

theorem Context.of_ofGraph {g : Graph} {seed : Json} {ctx : Context}
    (h : Context.ofGraph g seed = .ok ctx) :
  ctx.nodes = g.nodeMap ∧ g.currentInputs g.nodeMap = .ok ctx.inputs ∧ seed.toInt = .ok ctx.seed
  := by
  obtain ⟨inputs, hinputs, hrest⟩ := Fault.bind_eq_ok_iff.mp h
  obtain ⟨seed, hseed, hctx⟩ := Fault.bind_eq_ok_iff.mp hrest
  obtain rfl := Except.ok.inj hctx
  exact ⟨rfl, hinputs, hseed⟩

theorem scripted_operation {g : Graph} {seed : Json} {ctx : Context}
    (hctx : Context.ofGraph g seed = .ok ctx) (id : String)
    (operation : List Point → Scope.Replies → Except Fault (List Float))
    (h : (recursion ctx).operation? id = some operation) (points : List Point) :
  Requests.Scripted (fun call => g.Feeds call.1 id) (operation points)
  := by
  obtain ⟨-, hinputs, -⟩ := Context.of_ofGraph hctx
  obtain ⟨n, -, rfl⟩ := Option.map_eq_some_iff.mp h
  apply (Scripted.read _).bind
  intro type
  have hscripted := scripted_handlerOf type (ctx.scope n id fun _ _ => .ok []) points
  apply hscripted.mono
  rintro call ⟨port, hport⟩
  apply Graph.feeds_of_find? hinputs hport

end Density

/-! ### All walks -/

namespace Graph

/-- The walks up a graph that assemble assets and compute positions and densities are guarded. -/
theorem guarded_walks (g : Graph) :
  (Assembly.recursion g).Guarded g.Feeds (Entries.keys g.nodeMap)
      (fun fresh id _ => Assembly.assemble g g.nodeMap fresh id)
    ∧ (∀ range policy ctx, Positions.Context.ofGraph g range policy = .ok ctx →
      (Positions.recursion ctx).Guarded g.Feeds (Entries.keys ctx.nodes) (Positions.evaluate ctx))
    ∧ (∀ seed ctx, Density.Context.ofGraph g seed = .ok ctx →
      (Density.recursion ctx).Guarded g.Feeds (Entries.keys ctx.nodes) (Density.evaluate ctx))
  := by
  refine ⟨?_, ?_, ?_⟩
  · apply Recursion.guarded (Assembly.computes g)
    · exact fun id hsome => Entries.isSome_map_find?_iff.mp hsome
    · apply Assembly.scripted_operation
  · intro range policy ctx hctx
    apply Recursion.guarded (Positions.computes ctx)
    · exact fun id hsome => Entries.isSome_map_find?_iff.mp hsome
    · apply Positions.scripted_operation hctx
  · intro seed ctx hctx
    apply Recursion.guarded (Density.computes ctx)
    · exact fun id hsome => Entries.isSome_map_find?_iff.mp hsome
    · apply Density.scripted_operation hctx

/-- Two sums that feed each other, and one of them itself and a third sum, with an edge that comes
from no node and a second node under the id of the first one. -/
def knot : Graph where
  nodes := [{ id := "a", label := .str "Sum" }, { id := "b", label := .str "Sum" },
    { id := "c", label := .str "Sum" }, { id := "a", label := .str "Sum" }]
  edges := [.link "a" "a" (.str "Inputs[0]"), .link "b" "a" (.str "Inputs[1]"),
    .link "a" "b" (.str "Inputs[0]"), .link "ghost" "b" (.str "Inputs[1]"),
    .link "a" "c" (.str "Inputs[0]")]

theorem textual_knot : knot.Textual
  where
  labels := by simp [knot]
  ports := by simp [knot, Edge.Textual, Edge.link]

/-- The walks in the knot are guarded, and so are those in a graph without cycles, where a call in
the middle of a walk has the result of a walk of its own. -/
theorem guarded_walks_knot :
  (∃ ctx, Positions.Context.ofGraph knot {} {} = .ok ctx
      ∧ (Positions.recursion ctx).Guarded knot.Feeds (Entries.keys ctx.nodes)
        (Positions.evaluate ctx))
    ∧ (∃ ctx, Density.Context.ofGraph knot (.int 0) = .ok ctx
      ∧ (Density.recursion ctx).Guarded knot.Feeds (Entries.keys ctx.nodes) (Density.evaluate ctx))
    ∧ ∀ script, (Assembly.recursion twiceFed).Performs twiceFed.Feeds script →
      ∀ root d visiting frames id d',
        (Assembly.recursion twiceFed).Reaches script (Recursion.start root d)
          ⟨visiting, frames, .call id d'⟩ →
        (Assembly.recursion twiceFed).Ends script ⟨visiting, frames, .call id d'⟩ visiting frames
          (twiceFed.assetOf id)
  := by
  obtain ⟨tables, htables, -⟩ := find?_currentInputs textual_knot
  refine ⟨⟨⟨knot.nodeMap, tables, {}, {}⟩, ?_⟩, ⟨⟨knot.nodeMap, tables, 0⟩, ?_⟩, ?_⟩
  · have hctx : Positions.Context.ofGraph knot {} {} = .ok ⟨knot.nodeMap, tables, {}, {}⟩ := by
      simp [Positions.Context.ofGraph, htables]
    exact ⟨hctx, (guarded_walks knot).2.1 _ _ _ hctx⟩
  · have hctx : Density.Context.ofGraph knot (.int 0) = .ok ⟨knot.nodeMap, tables, 0⟩ := by
      simp [Density.Context.ofGraph, htables, Json.toInt]
    exact ⟨hctx, (guarded_walks knot).2.2 _ _ hctx⟩
  · exact (guarded_walks twiceFed).1.alone acyclic_twiceFed

end Graph

end AssetCanvas
