import AssetCanvas.Graph.Walk
import AssetCanvas.Preview.Density.Arithmetic
import AssetCanvas.Preview.Density.Coordinate
import AssetCanvas.Preview.Density.Noise
import AssetCanvas.Preview.Density.Warp
import AssetCanvas.Preview.Inputs

/-!
# Densities of a graph

`Density.evaluate` computes the densities of a node at a list of points.  `Density.handlers`
tells for every type of node how.  The walk carries the ids that it has not entered yet, so an
input that closes a cycle is zero everywhere, while a node reached on two paths is evaluated
twice.
-/

namespace AssetCanvas.Density

/-- The types that need the terrain of a running world.  A preview has zeros for them. -/
def worldTypes : List String :=
  ["HeightAboveSurface", "SurfaceDensity", "TerrainBoolean", "TerrainMask", "BeardDensity",
    "ColumnDensity", "CaveDensity", "Terrain", "DistanceToBiomeEdge", "Pipeline"]

/-- How the types of nodes compute their densities. -/
def handlers : List (String × Handler) :=
  arithmetic ++ coordinates ++ noises ++ warps ++ worldTypes.map fun type => (type, always 0.0)

/-- The family of densities. -/
def family : Family := .ofNames (Entries.keys handlers) ""

/-- The section whose root is a density. -/
def sectionName : String := "Terrain"

/-- The ports that a node of an unknown type forwards, the preferred one first. -/
def forwardedPorts : List String := ["Input", "Inputs[0]"]

/-- How an unknown type computes its densities: it hands on its source. -/
def unknown : Handler := fun s points =>
  match forwardedPorts.find? s.has with
  | some port => s.input port points
  | none => .ok (constant 0.0 points)

/-- How a type computes its densities. -/
def handlerOf (type : String) : Handler := (Entries.find? handlers type).getD unknown

/-- What an evaluation reads: the nodes, the input map with current port names and the seed. -/
structure Context where
  nodes : List (String × Node)
  inputs : List (String × Inputs)
  seed : Int

/-- The context of a graph. -/
def Context.ofGraph (g : Graph) (seed : Json) : Except Fault Context := do
  let nodes := g.nodeMap
  return ⟨nodes, ← g.currentInputs nodes, ← seed.toInt⟩

/-- The scope of a node, given the evaluation of its sources. -/
def Context.scope (ctx : Context) (n : Node) (id : String)
    (evaluate : String → List Point → Except Fault (List Float)) : Scope :=
  ⟨n.fields, (Entries.find? ctx.inputs id).getD [], ctx.nodes, ctx.seed, evaluate⟩

/-- The densities of an id at some points, given the ids that the walk has not entered yet. -/
def evaluate (ctx : Context) (fresh : List String) (id : String) (points : List Point) :
    Except Fault (List Float) :=
  if _entered : id ∈ fresh then
    match Entries.find? ctx.nodes id with
    | none => .ok (constant 0.0 points)
    | some n => do
      let type ← n.typeName family.category
      let sources := fun source images => evaluate ctx (Walk.without fresh id) source images
      handlerOf type (ctx.scope n id sources) points
  else
    .ok (constant 0.0 points)
termination_by fresh.length
decreasing_by
  apply Walk.length_without_lt
  assumption

/-- The root of a density preview. -/
def root (g : Graph) (rootId : Json) : Except Fault (Option Node) :=
  g.evaluationRoot family (.str sectionName) rootId

/-- The densities of a node of a graph at some points. -/
def ofGraph (g : Graph) (id : String) (seed : Json) (points : List Point) :
    Except Fault (List Float) := do
  let ctx ← Context.ofGraph g seed
  evaluate ctx (Entries.keys ctx.nodes) id points

end AssetCanvas.Density
