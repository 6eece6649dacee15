import AssetCanvas.Proofs.Confinement
import AssetCanvas.Proofs.Renaming

/-!
# Amended nodes

`Graph.mapNodes` changes the nodes of a graph.  A change that leaves the id of a node, its label,
its discriminant and its tags leaves the way in which nodes are found: the root of a preview is
the changed one, `Graph.evaluationRoot_mapNodes`, and the table of the interpreters stays as it
is, `Graph.currentInputs_mapNodes`.  So a preview is the same if what its walk reads of the nodes
is: `Positions.evaluate_mapNodes` for the nodes that a walk may still enter, and
`DensityGrid.ofGraph_mapNodes` for changes that leave the fields, too.
-/

namespace AssetCanvas

/-- Whether a change leaves what nodes are found by. -/
structure Node.Amends (change : Node → Node) : Prop where
  id (n : Node) : (change n).id = n.id
  label (n : Node) : (change n).label = n.label
  assetType (n : Node) : (change n).assetType = n.assetType
  output (n : Node) : (change n).output = n.output
  sectionTag (n : Node) : (change n).sectionTag = n.sectionTag

namespace Node.Amends

variable {change : Node → Node}

theorem belongs (h : Amends change) (n : Node) (family : Family) :
  (change n).belongs family = n.belongs family
  := by
  simp only [Node.belongs, labelOrEmpty, h.label, h.assetType]

theorem typeName (h : Amends change) (n : Node) (category : String) :
  (change n).typeName category = n.typeName category
  := by
  simp only [Node.typeName, typeValue, dispatchValue, h.label, h.assetType]

end Node.Amends

namespace Graph

variable {change : Node → Node} {g : Graph}

/-- The graph with its nodes changed. -/
def mapNodes (change : Node → Node) (g : Graph) : Graph := { g with nodes := g.nodes.map change }

/-! ### Looking up -/

section Amends

variable (h : Node.Amends change)

include h

theorem nodeMap_mapNodes : (g.mapNodes change).nodeMap = g.nodeMap.map (Prod.map id change)
  := by
  have hsame : ∀ key other : String, (id key == id other) = (key == other) := fun _ _ => rfl
  rw [nodeMap, nodeMap, ← Entries.ofList_map_prod hsame, mapNodes, List.map_map, List.map_map]
  congr 2
  funext n
  simp [h.id]

theorem find?_nodeMap_mapNodes (key : String) :
  Entries.find? (g.mapNodes change).nodeMap key = (Entries.find? g.nodeMap key).map change
  := by
  rw [nodeMap_mapNodes h]
  apply Entries.find?_map_values

theorem node?_mapNodes (id : String) : (g.mapNodes change).node? id = (g.node? id).map change
  := by
  rw [node?, node?, mapNodes, List.find?_map]
  congr 2
  funext n
  rw [Function.comp_apply, h.id]

theorem terminalNodes_mapNodes : (g.mapNodes change).terminalNodes = g.terminalNodes.map change
  := by
  rw [terminalNodes, terminalNodes, mapNodes, List.filter_map]
  congr 2
  funext n
  rw [Function.comp_apply, h.id]
  rfl

theorem targetInputs_mapNodes :
  targetInputs (g.mapNodes change).nodeMap = targetInputs g.nodeMap
  := by
  funext entry
  rw [targetInputs, targetInputs, find?_nodeMap_mapNodes h]
  cases Entries.find? g.nodeMap entry.1 with
  | none => rfl
  | some n => simp only [Option.map_some, h.label]

theorem currentInputs_mapNodes :
  (g.mapNodes change).currentInputs (g.mapNodes change).nodeMap = g.currentInputs g.nodeMap
  := by
  simp only [currentInputs, targetInputs_mapNodes h]
  rfl

/-! ### Roots -/

omit h in
theorem distanceRounds_mapNodes (rounds distance : Nat) (found : List (String × Nat)) :
  (g.mapNodes change).distanceRounds rounds distance found
    = g.distanceRounds rounds distance found
  := by
  have hnew : (g.mapNodes change).newSources = g.newSources := rfl
  induction rounds generalizing distance found with
  | zero => rfl
  | succ rounds ih => simp only [distanceRounds, hnew, ih]

theorem terminalDistances_mapNodes :
  (g.mapNodes change).terminalDistances = g.terminalDistances
  := by
  have hids : (g.mapNodes change).terminalNodes.map Node.id = g.terminalNodes.map Node.id := by
    rw [terminalNodes_mapNodes h, List.map_map]
    congr 1
    funext n
    exact h.id n
  rw [terminalDistances, terminalDistances, hids, distanceRounds_mapNodes]
  rfl

theorem mirrors_mapNodes : g.Mirrors (g.mapNodes change) change
  where
  nodes := rfl
  terminalNodes := terminalNodes_mapNodes h
  belongs := h.belongs
  isOutput n := by rw [Node.isOutput, Node.isOutput, h.output]
  sectionTag := h.sectionTag
  rank n := by
    rw [terminalRank, terminalRank, terminalDistances_mapNodes h, h.id, mapNodes, List.length_map]

/-- The root of a preview is the amended one. -/
theorem evaluationRoot_mapNodes (family : Family) (tag rootId : Json) :
  (g.mapNodes change).evaluationRoot family tag rootId
    = Option.map change <$> g.evaluationRoot family tag rootId
  := by
  have hgiven : rootId.text?.bind (g.mapNodes change).node?
      = (rootId.text?.bind g.node?).map change := by
    cases rootId.text? with
    | none => rfl
    | some id => exact node?_mapNodes h id
  rw [evaluationRoot, evaluationRoot, hgiven]
  cases rootId.text?.bind g.node? with
  | some n => rfl
  | none => exact (mirrors_mapNodes h).implicitRoot family tag

end Amends

end Graph

/-! ### Positions -/

namespace Positions

variable {g : Graph} {range : WorldRange} {policy : EvaluationPolicy} {ctx : Context}
  {change : Node → Node}

/-- The context of a graph whose nodes have been changed. -/
def Context.mapNodes (change : Node → Node) (ctx : Context) : Context :=
  { ctx with nodes := ctx.nodes.map (Prod.map id change) }

theorem Context.ofGraph_mapNodes (h : Node.Amends change) :
  Context.ofGraph (g.mapNodes change) range policy
    = Context.mapNodes change <$> Context.ofGraph g range policy
  := by
  simp only [Context.ofGraph, Graph.currentInputs_mapNodes h]
  rw [Graph.nodeMap_mapNodes h]
  cases g.currentInputs g.nodeMap <;> rfl

theorem Context.find?_mapNodes (change : Node → Node) (ctx : Context) (key : String) :
  Entries.find? (ctx.mapNodes change).nodes key = (Entries.find? ctx.nodes key).map change
  := Entries.find?_map_values change ctx.nodes key

theorem Context.keys_mapNodes (change : Node → Node) (ctx : Context) :
  Entries.keys (ctx.mapNodes change).nodes = Entries.keys ctx.nodes
  := by
  rw [mapNodes, Entries.keys_map_prod, List.map_id]

/-- A walk looks only at the nodes that it has not entered yet. -/
theorem evaluate_mapNodes (hctx : Context.ofGraph g range policy = .ok ctx) {fresh : List String}
    (h : ∀ n ∈ g.nodes, n.id ∈ fresh → change n = n) :
  evaluate (ctx.mapNodes change) fresh = evaluate ctx fresh
  := by
  funext id source
  symm
  apply Recursion.evaluate_congr (computes ctx) (computes (ctx.mapNodes change)) rfl
    (scripted_operation hctx)
  intro other _
  refine ⟨Iff.rfl, fun hother => ?_⟩
  have hproduce : produce (ctx.mapNodes change) = produce ctx := produce_congr rfl rfl
  have hnode : (Entries.find? ctx.nodes other).map change = Entries.find? ctx.nodes other := by
    cases hn : Entries.find? ctx.nodes other with
    | none => rfl
    | some n =>
      rw [(Context.of_ofGraph hctx).1] at hn
      obtain ⟨hmem, rfl⟩ := Graph.mem_nodes_of_find? hn
      rw [Option.map_some, h n hmem hother]
  simp only [recursion, Context.find?_mapNodes, hnode, hproduce]
  rfl

end Positions

/-! ### Densities -/

namespace Density

variable {g : Graph} {ctx : Context} {change : Node → Node}

/-- The context of a graph whose nodes have been changed. -/
def Context.mapNodes (change : Node → Node) (ctx : Context) : Context :=
  { ctx with nodes := ctx.nodes.map (Prod.map id change) }

theorem Context.ofGraph_mapNodes (h : Node.Amends change) (seed : Json) :
  Context.ofGraph (g.mapNodes change) seed = Context.mapNodes change <$> Context.ofGraph g seed
  := by
  simp only [Context.ofGraph, Graph.currentInputs_mapNodes h]
  rw [Graph.nodeMap_mapNodes h]
  cases g.currentInputs g.nodeMap with
  | error e => rfl
  | ok table => cases seed.toInt <;> rfl

theorem Context.find?_mapNodes (change : Node → Node) (ctx : Context) (key : String) :
  Entries.find? (ctx.mapNodes change).nodes key = (Entries.find? ctx.nodes key).map change
  := Entries.find?_map_values change ctx.nodes key

section Fields

variable (h : Node.Amends change) (hfields : ∀ n, (change n).fields = n.fields)

include h hfields

/-- A handler sees of a node what it saw before. -/
theorem scope_mapNodes (ctx : Context) (n : Node) (id : String)
    (evaluate : String → List Point → Except Fault (List Float)) :
  ((ctx.mapNodes change).scope (change n) id evaluate).Agrees (ctx.scope n id evaluate)
  where
  fields := .inl (hfields n)
  seed := rfl
  has _ _ := rfl
  input _ _ := rfl
  curve port _ := by
    have hsource : ((ctx.mapNodes change).scope (change n) id evaluate).source? port
        = ((ctx.scope n id evaluate).source? port).map change := by
      have hinputs : (ctx.mapNodes change).inputs = ctx.inputs := rfl
      simp only [Scope.source?, Context.scope, Context.find?_mapNodes, hinputs]
      cases Entries.find? ((Entries.find? ctx.inputs id).getD []) (.text port) with
      | none => rfl
      | some source =>
        dsimp only
        split <;> rfl
    rw [Scope.curve?, Scope.curve?, hsource]
    cases (ctx.scope n id evaluate).source? port with
    | none => rfl
    | some source => simp only [Option.map_some, h.typeName, hfields]
  indexed := rfl

theorem operation?_mapNodes (ctx : Context) (id : String) :
  (recursion (ctx.mapNodes change)).operation? id = (recursion ctx).operation? id
  := by
  simp only [recursion, Context.find?_mapNodes]
  cases Entries.find? ctx.nodes id with
  | none => rfl
  | some n =>
    simp only [Option.map_some, h.typeName,
      respects_handlerOf _ _ _ (scope_mapNodes h hfields ctx n id _)]

theorem ofGraph_mapNodes (id : String) (seed : Json) (points : List Point) :
  ofGraph (g.mapNodes change) id seed points = ofGraph g id seed points
  := by
  rw [ofGraph, ofGraph, Context.ofGraph_mapNodes h]
  cases hctx : Context.ofGraph g seed with
  | error e => rfl
  | ok ctx =>
    have hkeys : Entries.keys (ctx.mapNodes change).nodes = Entries.keys ctx.nodes := by
      rw [Context.mapNodes, Entries.keys_map_prod, List.map_id]
    rw [Fault.map_ok, Fault.ok_bind, Fault.ok_bind, hkeys]
    symm
    apply Recursion.evaluate_congr (computes ctx) (computes (ctx.mapNodes change)) rfl
      (scripted_operation hctx)
    intro other _
    exact ⟨Iff.rfl, fun _ => (operation?_mapNodes h hfields ctx other).symm⟩

end Fields

end Density

/-- A grid does not change with what densities do not look at. -/
theorem DensityGrid.ofGraph_mapNodes {g : Graph} {change : Node → Node} (h : Node.Amends change)
    (hfields : ∀ n, (change n).fields = n.fields) (resolution low high height rootId : Json)
    (policy : EvaluationPolicy) (seed : Json) :
  ofGraph (g.mapNodes change) resolution low high height rootId policy seed
    = ofGraph g resolution low high height rootId policy seed
  := by
  have hroot : Density.root (g.mapNodes change) rootId
      = Option.map change <$> Density.root g rootId := Graph.evaluationRoot_mapNodes h _ _ _
  rw [ofGraph, ofGraph, hroot]
  cases Resolution.ofJson resolution policy with
  | error e => rfl
  | ok n =>
    cases Density.root g rootId with
    | error e => rfl
    | ok root =>
      cases root with
      | none => rfl
      | some root =>
        simp only [Fault.map_ok, Fault.ok_bind, Option.map_some, h.id,
          Density.ofGraph_mapNodes h hfields]

end AssetCanvas
