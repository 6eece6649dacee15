import AssetCanvas.Preview.Density.Grid
import AssetCanvas.Proofs.Guards
import AssetCanvas.Proofs.Handlers
import AssetCanvas.Proofs.Restriction

/-!
# Only what is above a node matters

What is computed for a node does not change if the graph is restricted to the ids above the node,
`Graph.above`.  The operation of every id above is the same in both graphs, since the restriction
keeps the node and the edges into it, in their order, and with them the inputs of its ports.  So
the recursions agree by `Recursion.evaluate_congr`: for assets in every graph, and for the
previews, whose root is given, wherever the table of the interpreters can be made.
-/

namespace AssetCanvas

open Requests

namespace Graph

/-- The part of a graph above an id. -/
def above (g : Graph) (id : String) : Graph := g.subgraph (g.ancestorIds id)

variable {g : Graph} {id : String}

theorem node?_above (g : Graph) (id : String) : (g.above id).node? id = g.node? id
  := node?_subgraph (mem_ancestorIds_iff.mpr .refl)

theorem Tabular.above (h : g.Tabular) (id : String) : (g.above id).Tabular
  := (g.closed_ancestorIds id).tabular_subgraph h

/-- A given root is the first node with its id. -/
theorem evaluationRoot_of_node? {n : Node} (h : g.node? id = some n) (family : Family)
    (tag : Json) :
  g.evaluationRoot family tag (.str id) = .ok (some n)
  := by
  simp only [evaluationRoot, Json.text?, Option.bind_some, h]

end Graph

/-- Two recursions with the same operations above an id give it the same result, in the graph and
in the part above the id. -/
theorem Recursion.evaluate_above {δ β : Type} {r r' : Recursion δ β}
    {evaluate evaluate' : List String → String → δ → Except Fault β} {g : Graph} {id : String}
    (hc : r.Computes evaluate) (hc' : r'.Computes evaluate') (hclosed : r.closed = r'.closed)
    (hscripted : ∀ id operation, r.operation? id = some operation → ∀ d,
      Scripted (fun call => g.Feeds call.1 id) (operation d))
    (hoperation : ∀ other ∈ g.ancestorIds id, r.operation? other = r'.operation? other) (d : δ) :
  evaluate (Entries.keys g.nodeMap) id d = evaluate' (Entries.keys (g.above id).nodeMap) id d
  := by
  apply evaluate_congr hc hc' hclosed hscripted
  intro other hother
  have hmem := Graph.mem_ancestorIds_iff.mpr hother
  constructor
  · rw [Graph.above, Graph.mem_keys_subgraph_iff hmem]
  · exact fun _ => hoperation other hmem

/-! ### Assets -/

/-- Assets are assembled alike in a closed subgraph. -/
theorem Assembly.operation?_subgraph {g : Graph} {ids : List String} (hclosed : g.Closed ids)
    {id : String} (h : id ∈ ids) :
  (recursion g).operation? id = (recursion (g.subgraph ids)).operation? id
  := by
  simp only [recursion, g.find?_nodeMap_subgraph h, hclosed.inboundEdges_subgraph h]

theorem Graph.assetOf_above (g : Graph) (id : String) : (g.above id).assetOf id = g.assetOf id
  := by
  symm
  apply Recursion.evaluate_above (Assembly.computes g) (Assembly.computes (g.above id)) rfl
    (Assembly.scripted_operation g) _ ()
  intro other hother
  apply Assembly.operation?_subgraph (g.closed_ancestorIds id) hother

/-! ### Positions -/

namespace Positions

/-- What a type gives depends on the range and the policy, but on no other part of the context. -/
theorem produce_congr {ctx ctx' : Context} (hrange : ctx.range = ctx'.range)
    (hpolicy : ctx.policy = ctx'.policy) :
  produce ctx = produce ctx'
  := by
  have hlattice : lattice ctx = lattice ctx' := by
    funext n spacing jitter source
    simp only [lattice, hrange, hpolicy]
  have hspaced : spacedLattice ctx = spacedLattice ctx' := by
    funext n field default
    simp only [spacedLattice, hlattice]
  funext n inputs evaluate type
  simp only [produce, hlattice, hspaced, hrange, hpolicy]

variable {g : Graph} {ids : List String} {id : String} {range : WorldRange}
  {policy : EvaluationPolicy} {ctx ctx' : Context}

/-- Positions are computed alike in a closed subgraph. -/
theorem operation?_subgraph (hclosed : g.Closed ids)
    (hctx : Context.ofGraph g range policy = .ok ctx)
    (hctx' : Context.ofGraph (g.subgraph ids) range policy = .ok ctx') (hid : id ∈ ids) :
  (recursion ctx).operation? id = (recursion ctx').operation? id
  := by
  obtain ⟨hnodes, hinputs, hrange, hpolicy⟩ := Context.of_ofGraph hctx
  obtain ⟨hnodes', hinputs', hrange', hpolicy'⟩ := Context.of_ofGraph hctx'
  have hproduce : produce ctx = produce ctx' :=
    produce_congr (hrange.trans hrange'.symm) (hpolicy.trans hpolicy'.symm)
  simp only [recursion, hnodes, hnodes', g.find?_nodeMap_subgraph hid]
  cases hn : Entries.find? g.nodeMap id with
  | none => rfl
  | some n =>
    simp only [Option.map_some, hclosed.find?_currentInputs hinputs hinputs' hid hn, hproduce,
      hpolicy, hpolicy']

theorem evaluate_above (hctx : Context.ofGraph g range policy = .ok ctx)
    (hctx' : Context.ofGraph (g.above id) range policy = .ok ctx') :
  evaluate ctx (Entries.keys ctx.nodes) id = evaluate ctx' (Entries.keys ctx'.nodes) id
  := by
  funext source
  rw [(Context.of_ofGraph hctx).1, (Context.of_ofGraph hctx').1]
  apply Recursion.evaluate_above (computes ctx) (computes ctx') rfl (scripted_operation hctx)
  intro other hother
  apply operation?_subgraph (g.closed_ancestorIds id) hctx hctx' hother

theorem ofGraph_above (hg : g.Tabular) {n : Node} (hn : g.node? id = some n) (range : WorldRange)
    (seed : Json) (policy : EvaluationPolicy) :
  ofGraph (g.above id) range seed (.str id) policy = ofGraph g range seed (.str id) policy
  := by
  have hroot : root g (.str id) = .ok (some n) := Graph.evaluationRoot_of_node? hn _ _
  have hroot' : root (g.above id) (.str id) = .ok (some n) :=
    Graph.evaluationRoot_of_node? ((g.node?_above id).trans hn) _ _
  obtain ⟨table', htable'⟩ := hg.above id
  obtain ⟨table, htable⟩ := hg
  obtain rfl : n.id = id := by simpa using List.find?_some hn
  have hctx : Context.ofGraph g range policy = .ok ⟨g.nodeMap, table, range, policy⟩ := by
    simp [Context.ofGraph, htable]
  have hctx' : Context.ofGraph (g.above n.id) range policy
      = .ok ⟨(g.above n.id).nodeMap, table', range, policy⟩ := by
    simp [Context.ofGraph, htable']
  simp only [ofGraph, hroot, hroot', hctx, hctx', Fault.ok_bind, evaluate_above hctx hctx']

end Positions

/-! ### Densities -/

namespace Density

/-- Handlers look at the nodes only for the curves of their sources. -/
theorem Scope.agrees_of_nodes {s : Scope} (hfields : ∃ fields, s.fields = .obj fields)
    {nodes : List (String × Node)}
    (h : ∀ (port : String) source, Entries.find? s.inputs port = some source →
      Entries.find? s.nodes source = Entries.find? nodes source) :
  s.Agrees { s with nodes }
  where
  fields := by
    obtain ⟨fields, hfields⟩ := hfields
    exact .inr ⟨fields, fields, hfields, hfields, fun _ => rfl⟩
  seed := rfl
  has _ _ := rfl
  input _ _ := rfl
  curve port _ := by
    simp only [curve?, source?]
    cases hsource : Entries.find? s.inputs port with
    | none => rfl
    | some source => simp only [h port source hsource]
  indexed := rfl

variable {g : Graph} {ids : List String} {id : String} {seed : Json} {ctx ctx' : Context}

/-- Densities are computed alike in a closed subgraph. -/
theorem operation?_subgraph (hfields : ∀ n ∈ g.nodes, ∃ fields, n.fields = .obj fields)
    (hclosed : g.Closed ids) (hctx : Context.ofGraph g seed = .ok ctx)
    (hctx' : Context.ofGraph (g.subgraph ids) seed = .ok ctx') (hid : id ∈ ids) :
  (recursion ctx).operation? id = (recursion ctx').operation? id
  := by
  obtain ⟨hnodes, hinputs, hseed⟩ := Context.of_ofGraph hctx
  obtain ⟨hnodes', hinputs', hseed'⟩ := Context.of_ofGraph hctx'
  simp only [recursion, hnodes, hnodes', g.find?_nodeMap_subgraph hid]
  cases hn : Entries.find? g.nodeMap id with
  | none => rfl
  | some n =>
    have hscope : ∀ evaluate, (ctx.scope n id evaluate).Agrees (ctx'.scope n id evaluate) := by
      intro evaluate
      have hsame : ctx'.scope n id evaluate
          = { ctx.scope n id evaluate with nodes := ctx'.nodes } := by
        simp only [Context.scope, hclosed.find?_currentInputs hinputs hinputs' hid hn,
          Except.ok.inj (hseed.symm.trans hseed')]
      rw [hsame]
      apply Scope.agrees_of_nodes (hfields n (Graph.mem_nodes_of_find? hn).1)
      intro port source hsource
      obtain ⟨e, he, rfl, rfl⟩ := Graph.feeds_of_find? hinputs hsource
      simp only [Context.scope, hnodes, hnodes', g.find?_nodeMap_subgraph (hclosed e he hid)]
    simp only [Option.map_some, respects_handlerOf _ _ _ (hscope _)]

theorem evaluate_above (hfields : ∀ n ∈ g.nodes, ∃ fields, n.fields = .obj fields)
    (hctx : Context.ofGraph g seed = .ok ctx)
    (hctx' : Context.ofGraph (g.above id) seed = .ok ctx') :
  evaluate ctx (Entries.keys ctx.nodes) id = evaluate ctx' (Entries.keys ctx'.nodes) id
  := by
  funext points
  rw [(Context.of_ofGraph hctx).1, (Context.of_ofGraph hctx').1]
  apply Recursion.evaluate_above (computes ctx) (computes ctx') rfl (scripted_operation hctx)
  intro other hother
  apply operation?_subgraph hfields (g.closed_ancestorIds id) hctx hctx' hother

theorem ofGraph_above (hg : g.Tabular) (hfields : ∀ n ∈ g.nodes, ∃ fields, n.fields = .obj fields)
    (id : String) (seed : Json) (points : List Point) :
  ofGraph (g.above id) id seed points = ofGraph g id seed points
  := by
  obtain ⟨table', htable'⟩ := hg.above id
  obtain ⟨table, htable⟩ := hg
  cases hseed : seed.toInt with
  | error e => simp [ofGraph, Context.ofGraph, htable, htable', hseed]
  | ok n =>
    have hctx : Context.ofGraph g seed = .ok ⟨g.nodeMap, table, n⟩ := by
      simp [Context.ofGraph, htable, hseed]
    have hctx' : Context.ofGraph (g.above id) seed = .ok ⟨(g.above id).nodeMap, table', n⟩ := by
      simp [Context.ofGraph, htable', hseed]
    simp only [ofGraph, hctx, hctx', Fault.ok_bind, evaluate_above hfields hctx hctx']

end Density

theorem DensityGrid.ofGraph_above {g : Graph} (hg : g.Tabular)
    (hfields : ∀ n ∈ g.nodes, ∃ fields, n.fields = .obj fields) {id : String} {n : Node}
    (hn : g.node? id = some n) (resolution low high height : Json) (policy : EvaluationPolicy)
    (seed : Json) :
  ofGraph (g.above id) resolution low high height (.str id) policy seed
    = ofGraph g resolution low high height (.str id) policy seed
  := by
  have hroot : Density.root g (.str id) = .ok (some n) := Graph.evaluationRoot_of_node? hn _ _
  have hroot' : Density.root (g.above id) (.str id) = .ok (some n) :=
    Graph.evaluationRoot_of_node? ((g.node?_above id).trans hn) _ _
  obtain rfl : n.id = id := by simpa using List.find?_some hn
  simp only [ofGraph, hroot, hroot', Fault.ok_bind, Density.ofGraph_above hg hfields]

/-! ### All results -/

/-- What is computed for a node is computed from what is above it. -/
theorem Graph.confined (g : Graph) {id : String} (hid : id ∈ g.nodes.map Node.id) :
  (g.above id).assetOf id = g.assetOf id
    ∧ (g.Tabular → ∀ range seed policy,
      Positions.ofGraph (g.above id) range seed (.str id) policy
        = Positions.ofGraph g range seed (.str id) policy)
    ∧ (g.Tabular → (∀ n ∈ g.nodes, ∃ fields, n.fields = .obj fields) →
      ∀ resolution low high height policy seed,
        DensityGrid.ofGraph (g.above id) resolution low high height (.str id) policy seed
          = DensityGrid.ofGraph g resolution low high height (.str id) policy seed)
  := by
  obtain ⟨n, hn⟩ : ∃ n, g.node? id = some n := by
    obtain ⟨n, hmem, rfl⟩ := List.mem_map.mp hid
    apply Option.isSome_iff_exists.mp
    rw [node?, List.find?_isSome]
    exact ⟨n, hmem, by simp⟩
  refine ⟨g.assetOf_above id, ?_, ?_⟩
  · intro hg range seed policy
    apply Positions.ofGraph_above hg hn
  · intro hg hfields resolution low high height policy seed
    apply DensityGrid.ofGraph_above hg hfields hn

/-- In the knot, the third sum does not matter for the first one. -/
theorem Graph.confined_knot :
  (knot.above "a").nodes.map Node.id = ["a", "b", "a"]
    ∧ (knot.above "a").assetOf "a" = knot.assetOf "a"
    ∧ (∀ seed policy, Positions.ofGraph (knot.above "a") {} seed (.str "a") policy
      = Positions.ofGraph knot {} seed (.str "a") policy)
    ∧ ∀ seed policy,
      DensityGrid.ofGraph (knot.above "a") (.int 4) (.int 0) (.int 16) (.int 64) (.str "a") policy
          seed
        = DensityGrid.ofGraph knot (.int 4) (.int 0) (.int 16) (.int 64) (.str "a") policy seed
  := by
  have hid : "a" ∈ knot.nodes.map Node.id := by simp [knot]
  have hfields : ∀ n ∈ knot.nodes, ∃ fields, n.fields = .obj fields := by simp [knot]
  obtain ⟨hasset, hpositions, hgrid⟩ := confined knot hid
  refine ⟨rfl, hasset, ?_, ?_⟩
  · intro seed policy
    apply hpositions textual_knot.tabular
  · intro seed policy
    apply hgrid textual_knot.tabular hfields

end AssetCanvas
