import AssetCanvas.Preview.Density.Grid
import AssetCanvas.Proofs.Drawing
import AssetCanvas.Proofs.Guards
import AssetCanvas.Proofs.Likeness
import AssetCanvas.Proofs.Renaming

/-!
# Ids carry no meaning

A graph under other ids has the same asset, the same previews with the same roots, and with a
shared generator the same positions, `Graph.anonymous_rename`.  The walks go through the renamed
ids in the same order, `Recursion.Renames.evaluate` and `Positions.Relating.Walks.evaluate`; nodes
look at their ids only to find their own generator.  The one id with a meaning is the empty one,
which no curve has, so no id may be empty, before or after.
-/

namespace AssetCanvas

open Requests

/-- Whether a recursion does at renamed ids what another one does at the ids. -/
structure Recursion.Renames {δ β : Type} (r r' : Recursion δ β) (f : String → String) : Prop where
  closed : r'.closed = r.closed
  operation : ∀ id, Option.Rel
    (fun operation operation' => ∀ d answers answers',
      (∀ source d, answers' (f source, d) = answers (source, d)) →
        operation' d answers' = operation d answers)
    (r.operation? id) (r'.operation? (f id))

theorem Walk.without_map {f : String → String} (hf : Function.Injective f) (fresh : List String)
    (id : String) :
  without (fresh.map f) (f id) = (without fresh id).map f
  := by
  rw [without, without, List.filter_map]
  congr 2
  funext other
  simp [hf.eq_iff]

theorem Recursion.Renames.evaluate {δ β : Type} {r r' : Recursion δ β} {f : String → String}
    {evaluate evaluate' : List String → String → δ → Except Fault β} (h : r.Renames r' f)
    (hf : Function.Injective f) (hc : r.Computes evaluate) (hc' : r'.Computes evaluate')
    (fresh : List String) (id : String) (d : δ) :
  evaluate' (fresh.map f) (f id) d = evaluate fresh id d
  := by
  induction fresh, id using Graph.walk_induction generalizing d with
  | step fresh id ih =>
    by_cases hmem : id ∈ fresh
    · rcases Lookup.cases (h.operation id) with
        ⟨hnone, hnone'⟩ | ⟨operation, operation', hop, hop', hsame⟩
      · rw [hc.blank hnone, hc'.blank hnone', h.closed]
      · rw [hc.entered hmem hop, hc'.entered (List.mem_map_of_mem hmem) hop']
        apply hsame
        intro source d
        rw [Walk.without_map hf]
        apply ih hmem
    · rw [hc.closed hmem, hc'.closed (by simpa [hf.eq_iff] using hmem), h.closed]

/-! ### A shared generator -/

/-- In the shared mode every node draws from one generator. -/
theorem RandomSource.generator_shared {s : RandomSource} (h : s.mode = .shared)
    (node : Option String) :
  s.generator node = s.shared
  := by
  simp [generator, h]

theorem RandomSource.store_shared {s : RandomSource} (h : s.mode = .shared) (node : Option String)
    (g : Generator) :
  s.store node g = { s with shared := g }
  := by
  simp [store, h]

namespace Positions

/-- Equal sources in the shared mode. -/
def Shared (s s' : RandomSource) : Prop := s = s' ∧ s.mode = .shared

/-- Any two nodes draw from the one generator. -/
theorem tied_shared (n n' : Node) : Relating.Tied Shared n n'
  where
  generator := by
    rintro s _ ⟨rfl, hmode⟩
    rw [RandomSource.generator_shared hmode, RandomSource.generator_shared hmode]
  store := by
    rintro s _ g ⟨rfl, hmode⟩
    rw [Shared, RandomSource.store_shared hmode, RandomSource.store_shared hmode]
    exact ⟨rfl, hmode⟩

end Positions

section Renamed

variable {f : String → String} {g : Graph} (hf : Function.Injective f)

include hf

theorem Graph.keys_nodeMap_rename :
  Entries.keys (g.rename f).nodeMap = (Entries.keys g.nodeMap).map f
  := by
  rw [nodeMap_rename hf, Entries.keys_map_prod]

theorem Graph.find?_nodeMap_rename (id : String) :
  Entries.find? (g.rename f).nodeMap (f id) = (Entries.find? g.nodeMap id).map (Node.rename f)
  := by
  rw [nodeMap_rename hf]
  exact Entries.find?_map_prod (fun _ _ => hf.beq_eq) _ _ id

/-! ### Assets -/

namespace Assembly

/-- Children are put together in the order of the edges, by the labels and ports alone. -/
theorem ofNode_rename (n : Node) (id : String)
    {assetOf assetOf' : String → Except Fault (Option Json)}
    (h : ∀ source, assetOf' (f source) = assetOf source) :
  ofNode (n.rename f) ((g.rename f).inboundEdges (f id)) assetOf'
    = ofNode n (g.inboundEdges id) assetOf
  := by
  have hchild : ∀ (discriminant : Json) (parts : Parts) (e : Edge),
      addChild (n.rename f) discriminant assetOf' parts (e.rename f)
        = addChild n discriminant assetOf parts e := by
    intro discriminant parts e
    have hsource : assetOf' (e.rename f).source = assetOf e.source := h e.source
    rw [addChild, addChild, hsource]
    rfl
  have hdiscriminant : (n.rename f).discriminant = n.discriminant := rfl
  have hown : ownFields (n.rename f) = ownFields n := rfl
  simp only [ofNode, Graph.inboundEdges_rename hf, List.foldlM_map, hchild, hdiscriminant, hown]

theorem renames (g : Graph) : (recursion g).Renames (recursion (g.rename f)) f
  where
  closed := rfl
  operation id := by
    simp only [recursion, Graph.find?_nodeMap_rename hf]
    cases Entries.find? g.nodeMap id with
    | none => exact .none
    | some n =>
      apply Option.Rel.some
      intro _ answers answers' h
      have hnode : ofNode (n.rename f) ((g.rename f).inboundEdges (f id))
            (fun source => answers' (source, ()))
          = ofNode n (g.inboundEdges id) fun source => answers (source, ()) := by
        apply ofNode_rename hf
        intro source
        exact h source ()
      exact congrArg (fun asset => do return some (← asset)) hnode

end Assembly

namespace Graph

theorem assetOf_rename (id : String) : (g.rename f).assetOf (f id) = g.assetOf id
  := by
  have hevaluate := (Assembly.renames hf g).evaluate hf (Assembly.computes g)
    (Assembly.computes (g.rename f)) (Entries.keys g.nodeMap) id ()
  rw [assetOf, assetOf, keys_nodeMap_rename hf]
  exact hevaluate

theorem assetsOf_rename (ids : List String) : (g.rename f).assetsOf (ids.map f) = g.assetsOf ids
  := by
  rw [assetsOf, assetsOf, List.mapM_map]
  simp only [Function.comp_def, assetOf_rename hf]

theorem roots_rename : (g.rename f).roots = g.roots.map (Node.rename f)
  := by
  have htagged : (g.rename f).nodes.filter Node.isOutput
      = (g.nodes.filter Node.isOutput).map (Node.rename f) := by
    rw [rename, List.filter_map]
    rfl
  have hfirst : (g.rename f).nodes.take 1 = (g.nodes.take 1).map (Node.rename f) := by
    rw [rename, List.map_take]
  simp only [roots, htagged, terminalNodes_rename hf, hfirst, List.isEmpty_map]
  split
  · split <;> rfl
  · rfl

theorem disconnectedAssets_rename (id : String) :
  (g.rename f).disconnectedAssets (f id) = g.disconnectedAssets id
  := by
  have hothers : ((g.rename f).terminalNodes.filter fun n => n.id ≠ f id).map Node.id
      = ((g.terminalNodes.filter fun n => n.id ≠ id).map Node.id).map f := by
    have hsame : (fun n : Node => decide (n.id ≠ f id)) ∘ Node.rename f
        = fun n : Node => decide (n.id ≠ id) := by
      funext n
      simp [Node.rename, hf.eq_iff]
    rw [terminalNodes_rename hf, List.filter_map, hsame, List.map_map, List.map_map]
    rfl
  rw [disconnectedAssets, disconnectedAssets, hothers, assetsOf_rename hf]

theorem assetFrom_rename (n : Node) : (g.rename f).assetFrom (n.rename f) = g.assetFrom n
  := by
  have hid : (n.rename f).id = f n.id := rfl
  simp only [assetFrom, hid, assetOf_rename hf, feedsEdge_rename hf, disconnectedAssets_rename hf]

/-- The asset of a graph does not depend on the ids. -/
theorem toAsset_rename (rootId : Option String) :
  (g.rename f).toAsset (rootValue (rootId.map f)) = g.toAsset (rootValue rootId)
  := by
  have hprimary : (g.rename f).primaryRoot (rootValue (rootId.map f))
      = (g.primaryRoot (rootValue rootId)).map (Node.rename f) := by
    cases rootId with
    | none =>
      have hhead : (g.rename f).roots.head? = g.roots.head?.map (Node.rename f) := by
        rw [roots_rename hf, List.head?_map]
      exact hhead
    | some id => exact node?_rename hf id
  rw [toAsset, toAsset, hprimary]
  cases g.primaryRoot (rootValue rootId) with
  | none => rfl
  | some n => exact assetFrom_rename hf n

end Graph

/-! ### Densities -/

namespace Density

variable {ctx ctx' : Context}

/-- Whether a context is another one under other ids. -/
structure Context.Renames (ctx ctx' : Context) (f : String → String) : Prop where
  nodes : ctx'.nodes = ctx.nodes.map (Prod.map f (Node.rename f))
  inputs : ctx'.inputs = Graph.renameTable f ctx.inputs
  seed : ctx'.seed = ctx.seed

theorem Context.Renames.input (h : ctx.Renames ctx' f) (id : String) :
  (Entries.find? ctx'.inputs (f id)).getD []
    = Inputs.rename f ((Entries.find? ctx.inputs id).getD [])
  := by
  rw [h.inputs, Graph.find?_renameTable hf, Graph.getD_map_rename]

/-- The scopes of a node agree under both names, if the names of its sources are not empty. -/
theorem scope_rename (h : ctx.Renames ctx' f) (n : Node) (id : String)
    (hnamed : ∀ port source,
      Entries.find? ((Entries.find? ctx.inputs id).getD []) port = some source →
        source ≠ "" ∧ f source ≠ "")
    {evaluate evaluate' : String → List Point → Except Fault (List Float)}
    (hevaluate : ∀ source points, evaluate' (f source) points = evaluate source points) :
  (ctx.scope n id evaluate).Agrees (ctx'.scope (n.rename f) (f id) evaluate')
  := by
  have hhas : ∀ port : String, (ctx.scope n id evaluate).has port
      = (ctx'.scope (n.rename f) (f id) evaluate').has port := by
    intro port
    simp only [Scope.has, Context.scope, h.input hf, Inputs.contains_rename]
  constructor
  · exact .inl rfl
  · exact h.seed.symm
  · intro port _
    exact hhas port
  · intro port _
    funext points
    simp only [Scope.input, Context.scope, h.input hf, Inputs.find?_rename]
    cases Entries.find? ((Entries.find? ctx.inputs id).getD []) (Key.text port) with
    | none => rfl
    | some source => exact (hevaluate source points).symm
  · intro port _
    simp only [Scope.curve?, Scope.source?, Context.scope, h.input hf, Inputs.find?_rename]
    cases hsource : Entries.find? ((Entries.find? ctx.inputs id).getD []) (Key.text port) with
    | none => rfl
    | some source =>
      obtain ⟨hne, hne'⟩ := hnamed _ _ hsource
      have hfind : Entries.find? ctx'.nodes (f source)
          = (Entries.find? ctx.nodes source).map (Node.rename f) := by
        rw [h.nodes]
        exact Entries.find?_map_prod (fun _ _ => hf.beq_eq) _ _ source
      simp only [Option.map_some, hne, hne', if_false, hfind]
      cases Entries.find? ctx.nodes source <;> rfl
  · apply Scope.indexedPorts_congr
    intro i
    exact hhas _

theorem renames {seed : Json} (hctx : Context.ofGraph g seed = .ok ctx) (h : ctx.Renames ctx' f)
    (hnamed : ∀ id ∈ g.ids, id ≠ "" ∧ f id ≠ "") :
  (recursion ctx).Renames (recursion ctx') f
  where
  closed := rfl
  operation id := by
    have hfind : Entries.find? ctx'.nodes (f id)
        = (Entries.find? ctx.nodes id).map (Node.rename f) := by
      rw [h.nodes]
      exact Entries.find?_map_prod (fun _ _ => hf.beq_eq) _ _ id
    simp only [recursion, hfind]
    cases Entries.find? ctx.nodes id with
    | none => exact .none
    | some n =>
      apply Option.Rel.some
      intro points answers answers' hanswers
      have hagrees : (ctx.scope n id fun source images => answers (source, images)).Agrees
          (ctx'.scope (n.rename f) (f id) fun source images => answers' (source, images)) := by
        apply scope_rename hf h n id _ hanswers
        intro port source hsource
        obtain ⟨e, he, rfl, -⟩ := Graph.feeds_of_find? (Context.of_ofGraph hctx).2.1 hsource
        exact hnamed _ (Graph.mem_ids_of_edge he).1
      have hhandlers : ∀ type, handlerOf type
            (ctx'.scope (n.rename f) (f id) fun source images => answers' (source, images)) points
          = handlerOf type (ctx.scope n id fun source images => answers (source, images)) points :=
        fun type => by rw [respects_handlerOf type _ _ hagrees]
      exact congrArg (n.typeName family.category >>= ·) (funext hhandlers)

theorem ofGraph_rename (hnamed : ∀ id ∈ g.ids, id ≠ "" ∧ f id ≠ "") (id : String) (seed : Json)
    (points : List Point) :
  ofGraph (g.rename f) (f id) seed points = ofGraph g id seed points
  := by
  have hcontext : Context.ofGraph (g.rename f) seed
      = (fun ctx => ⟨(g.rename f).nodeMap, Graph.renameTable f ctx.inputs, ctx.seed⟩)
        <$> Context.ofGraph g seed := by
    simp only [Context.ofGraph, Graph.currentInputs_rename hf]
    cases g.currentInputs g.nodeMap with
    | error fault => rfl
    | ok table => cases seed.toInt <;> rfl
  rw [ofGraph, ofGraph, hcontext]
  cases hctx : Context.ofGraph g seed with
  | error fault => rfl
  | ok ctx =>
    have hrenames : ctx.Renames
        ⟨(g.rename f).nodeMap, Graph.renameTable f ctx.inputs, ctx.seed⟩ f :=
      ⟨by rw [(Context.of_ofGraph hctx).1, Graph.nodeMap_rename hf], rfl, rfl⟩
    have hevaluate := (renames hf hctx hrenames hnamed).evaluate hf (computes _) (computes _)
      (Entries.keys ctx.nodes) id points
    simp only [Fault.map_ok, Fault.ok_bind]
    rw [Graph.keys_nodeMap_rename hf, ← (Context.of_ofGraph hctx).1]
    exact hevaluate

end Density

/-- A grid under other ids has the same densities, with the new name of the root. -/
theorem DensityGrid.ofGraph_rename (hnamed : ∀ id ∈ g.ids, id ≠ "" ∧ f id ≠ "")
    (resolution low high height : Json) (rootId : Option String) (policy : EvaluationPolicy)
    (seed : Json) :
  ofGraph (g.rename f) resolution low high height (Graph.rootValue (rootId.map f)) policy seed
    = (fun d => { d with rootId := d.rootId.map f })
      <$> ofGraph g resolution low high height (Graph.rootValue rootId) policy seed
  := by
  simp only [ofGraph, Density.root, Graph.evaluationRoot_rename hf]
  cases Resolution.ofJson resolution policy with
  | error fault => rfl
  | ok n =>
    cases g.evaluationRoot Density.family (.str Density.sectionName) (Graph.rootValue rootId) with
    | error fault => rfl
    | ok found =>
      cases found with
      | none =>
        simp only [Fault.ok_bind, Fault.map_ok, Option.map_none]
        cases Resolution.emptyShape [n, n] <;> rfl
      | some root =>
        simp only [Fault.ok_bind, Fault.map_ok, Option.map_some]
        cases Resolution.axis n low high with
        | error fault => rfl
        | ok axis =>
          cases height.toFloat with
          | error fault => rfl
          | ok y =>
            simp only [Fault.ok_bind, Node.rename, Density.ofGraph_rename hf hnamed]
            cases Density.ofGraph g root.id seed (points axis y) <;> rfl

/-! ### Positions -/

namespace Positions

/-- The walks go through the nodes under both names. -/
theorem walks_rename {range : WorldRange} {policy : EvaluationPolicy} {ctx : Context}
    (hctx : Context.ofGraph g range policy = .ok ctx) :
  (Relating.between Shared).Walks Eq ctx
    { ctx with nodes := (g.rename f).nodeMap, inputs := Graph.renameTable f ctx.inputs } f Set.univ
  where
  context := ⟨rfl, rfl, rfl, rfl⟩
  inj := hf.injOn
  nodes id _ := by
    rw [(Context.of_ofGraph hctx).1, Graph.find?_nodeMap_rename hf]
    apply Lookup.map
    intro n _
    refine ⟨rfl, rfl, ?_⟩
    intro type _
    apply (tied_shared n (n.rename f)).draws <;> rfl
  inputs id _ port := by
    rw [Graph.find?_renameTable hf, Graph.getD_map_rename, Inputs.find?_rename]
    apply Lookup.map
    intro source _
    exact ⟨Set.mem_univ source, rfl⟩
  limit := Relating.lift_eq _ _

/-- With a shared generator the positions do not depend on the ids. -/
theorem ofGraph_rename (range : WorldRange) (seed : Json) (rootId : Option String)
    {policy : EvaluationPolicy} (hmode : policy.randomMode = .str "shared") :
  ofGraph (g.rename f) range seed (Graph.rootValue (rootId.map f)) policy
    = ofGraph g range seed (Graph.rootValue rootId) policy
  := by
  have hcontext : Context.ofGraph (g.rename f) range policy
      = (fun ctx => { ctx with
          nodes := (g.rename f).nodeMap, inputs := Graph.renameTable f ctx.inputs })
        <$> Context.ofGraph g range policy := by
    simp only [Context.ofGraph, Graph.currentInputs_rename hf]
    cases g.currentInputs g.nodeMap <;> rfl
  simp only [ofGraph, root, Graph.evaluationRoot_rename hf, hcontext, hmode]
  cases g.evaluationRoot family (.str sectionName) (Graph.rootValue rootId) with
  | error fault => rfl
  | ok found =>
    cases found with
    | none => rfl
    | some n =>
      simp only [Fault.ok_bind, Fault.map_ok, Option.map_some, RandomSource.ofJson,
        RandomMode.ofJson]
      cases seed.toInt with
      | error fault => rfl
      | ok start =>
        cases hctx : Context.ofGraph g range policy with
        | error fault => rfl
        | ok ctx =>
          have hfresh : ∀ id ∈ Set.univ, id ∈ Entries.keys ctx.nodes
              ↔ f id ∈ Entries.keys (g.rename f).nodeMap := by
            intro id _
            rw [(Context.of_ofGraph hctx).1, Graph.keys_nodeMap_rename hf]
            simp [hf.eq_iff]
          have hsame := (walks_rename hf hctx).evaluate pointwise_eq _ _ n.id hfresh
            (Set.mem_univ _) (.new start .shared) (.new start .shared) ⟨rfl, rfl⟩
          simp only [Fault.ok_bind, Fault.map_ok, Fault.pure_eq_ok, Node.rename, StateT.run]
          rcases hsame with ⟨e, hx, hy⟩ | ⟨ps, qs, t, t', hx, hy, rfl, -⟩
          · rw [hx, hy]
          · rw [hx, hy]
            rfl

end Positions

end Renamed

/-! ### All results -/

/-- Whether a graph shows no trace of its ids under other ones. -/
structure Graph.Anonymous (g : Graph) (f : String → String) : Prop where
  asset : ∀ rootId : Option String, (∀ id ∈ rootId, id ∈ g.ids) →
    (g.rename f).toAsset (rootValue (rootId.map f)) = g.toAsset (rootValue rootId)
  positionRoot : ∀ rootId : Option String, (∀ id ∈ rootId, id ∈ g.ids) →
    Positions.root (g.rename f) (rootValue (rootId.map f))
      = Option.map (Node.rename f) <$> Positions.root g (rootValue rootId)
  densityRoot : ∀ rootId : Option String, (∀ id ∈ rootId, id ∈ g.ids) →
    Density.root (g.rename f) (rootValue (rootId.map f))
      = Option.map (Node.rename f) <$> Density.root g (rootValue rootId)
  densities : ∀ resolution low high height rootId policy seed,
    (∀ id ∈ rootId, id ∈ g.ids) →
      DensityGrid.ofGraph (g.rename f) resolution low high height (rootValue (rootId.map f)) policy
          seed
        = (fun d => { d with rootId := d.rootId.map f })
          <$> DensityGrid.ofGraph g resolution low high height (rootValue rootId) policy seed
  positions : ∀ range seed rootId (policy : EvaluationPolicy), (∀ id ∈ rootId, id ∈ g.ids) →
    policy.randomMode = .str "shared" →
      Positions.ofGraph (g.rename f) range seed (rootValue (rootId.map f)) policy
        = Positions.ofGraph g range seed (rootValue rootId) policy

theorem Fault.map_congr {α β : Type} {f f' : α → β} {x : Except Fault α}
    (h : ∀ a, x = .ok a → f a = f' a) :
  f <$> x = f' <$> x
  := by
  cases x with
  | error e => rfl
  | ok a => rw [map_ok, map_ok, h a rfl]

/-- The root of sampled densities is a node of the graph. -/
theorem DensityGrid.mem_ids_of_rootId {g : Graph} {resolution low high height rootValue : Json}
    {policy : EvaluationPolicy} {seed : Json} {d : DensitySamples}
    (h : ofGraph g resolution low high height rootValue policy seed = .ok d) :
  ∀ id ∈ d.rootId, id ∈ g.ids
  := by
  obtain ⟨n, -, h⟩ := Fault.bind_eq_ok_iff.mp h
  obtain ⟨found, hfound, h⟩ := Fault.bind_eq_ok_iff.mp h
  cases found with
  | none =>
    obtain ⟨shape, -, hzeros⟩ := Fault.bind_eq_ok_iff.mp h
    cases hzeros
    rintro id ⟨⟩
  | some root =>
    obtain ⟨axis, -, h⟩ := Fault.bind_eq_ok_iff.mp h
    obtain ⟨y, -, h⟩ := Fault.bind_eq_ok_iff.mp h
    obtain ⟨values, -, hvalues⟩ := Fault.bind_eq_ok_iff.mp h
    cases hvalues
    rintro id ⟨⟩
    exact Graph.mem_ids_of_node (Graph.mem_of_evaluationRoot hfound)

/-- Names that tell the ids of a graph apart leave all results as they are. -/
theorem Graph.anonymous_rename {g : Graph} {f : String → String}
    (hf : Set.InjOn f {id | id ∈ g.ids}) (hnamed : ∀ id ∈ g.ids, id ≠ "" ∧ f id ≠ "") :
  g.Anonymous f
  := by
  obtain ⟨f', hinj, hsame⟩ := exists_injective_of_injOn hf
  have hnamed' : ∀ id ∈ g.ids, id ≠ "" ∧ f' id ≠ "" := by
    intro id hid
    rw [← hsame id hid]
    exact hnamed id hid
  have hids : ∀ id? : Option String, (∀ id ∈ id?, id ∈ g.ids) → id?.map f = id?.map f' := by
    rintro (_ | id) hmem
    · rfl
    · rw [Option.map_some, Option.map_some, hsame id (hmem id rfl)]
  have hnodes : ∀ found, (∀ n, found = .ok (some n) → n ∈ g.nodes) →
      Option.map (Node.rename f) <$> (found : Except Fault (Option Node))
        = Option.map (Node.rename f') <$> found := by
    intro found hmem
    apply Fault.map_congr
    rintro (_ | n) hn
    · rfl
    · rw [Option.map_some, Option.map_some, Node.rename, Node.rename,
        hsame n.id (mem_ids_of_node (hmem n hn))]
  have hgraph : g.rename f = g.rename f' := rename_congr hsame
  constructor
  · intro rootId hmem
    rw [hgraph, hids rootId hmem]
    exact toAsset_rename hinj rootId
  · intro rootId hmem
    rw [Positions.root, Positions.root, hgraph, hids rootId hmem,
      hnodes _ fun n hn => mem_of_evaluationRoot hn]
    exact evaluationRoot_rename hinj _ _ rootId
  · intro rootId hmem
    rw [Density.root, Density.root, hgraph, hids rootId hmem,
      hnodes _ fun n hn => mem_of_evaluationRoot hn]
    exact evaluationRoot_rename hinj _ _ rootId
  · intro resolution low high height rootId policy seed hmem
    rw [hgraph, hids rootId hmem, DensityGrid.ofGraph_rename hinj hnamed']
    apply Fault.map_congr
    intro d hd
    rw [hids d.rootId (DensityGrid.mem_ids_of_rootId hd)]
  · intro range seed rootId policy hmem hmode
    rw [hgraph, hids rootId hmem]
    exact Positions.ofGraph_rename hinj range seed rootId hmode

/-- The knot under longer ids. -/
theorem Graph.anonymous_knot :
  knot.ids = ["a", "b", "c", "a", "a", "a", "b", "a", "a", "b", "ghost", "b", "a", "c"]
    ∧ knot.Anonymous fun id => "node_" ++ id
  := by
  have hinj : Function.Injective fun id => "node_" ++ id := fun id id' h =>
    (String.append_right_inj "node_").mp h
  refine ⟨rfl, anonymous_rename hinj.injOn ?_⟩
  simp [ids, knot, Edge.link]

end AssetCanvas
