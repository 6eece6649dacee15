import AssetCanvas.Json.Container
import AssetCanvas.Port

/-!
# Graphs

A `Graph` is a list of nodes and a list of edges; the order of both is kept.  An `Edge`
feeds the output of its source node into a port of its target node.  The ids of nodes are
texts, except in a document, which may hold any values in their places.  `Graph.connect`,
`Graph.disconnect`, `Graph.addNode` and `Graph.removeNode` edit a graph, and
`Graph.inputMap` is the map from targets to ports to sources.
-/

namespace AssetCanvas

/-- A node of a graph. -/
structure Node (ι : Type := String) where
  id : ι
  /-- The label shown on the canvas, a text in every graph of a layout. -/
  label : Json
  /-- The discriminant of the asset, null if there is none. -/
  assetType : Json := .null
  position : Float × Float := (0.0, 0.0)
  /-- The plain fields of the asset, an object in every graph that was laid out or read. -/
  fields : Json := .obj []
  /-- The tag of an output: the node is one unless the tag is false or empty. -/
  output : Json := .bool false
  /-- The section whose root the node is, null if it is none. -/
  sectionTag : Json := .null
  /-- The record of the fields that held arrays of assets; null if there is no record. -/
  arrayFields : Json := .null
  /-- Whether the coordinates were read as numbers: an undefined coordinate agrees with itself
  only then. -/
  restored : Bool := false

/-- Whether a node is tagged as an output. -/
def Node.isOutput {ι : Type} (n : Node ι) : Bool := n.output.truthy

/-- An edge of a graph. -/
structure Edge (ι : Type := String) where
  id : Json
  source : ι
  sourcePort : Json
  target : ι
  /-- The port that the edge feeds, a text in every graph of a layout of texts. -/
  targetPort : Json

/-- The id of an edge that was given none, from the spellings of its ends and its port. -/
def Edge.standardText (source target port : String) : String := s!"edge_{source}_{target}_{port}"

/-- The id of an edge that was given none, where its ends and its port have spellings. -/
def Edge.standardId (source target port : Json) : Except Fault String := do
  return standardText (← source.spelled) (← target.spelled) (← port.spelled)

/-- The edge from the output of `source` into `port` of `target`, a port with a spelling. -/
def Edge.link (source target : String) (port : Json) : Edge :=
  ⟨.str (standardText source target port.spelling), source, .str Port.output, target, port⟩

/-- Whether the edge feeds a port of a target. -/
def Edge.feeds (e : Edge) (target : String) (port : Json) : Bool :=
  e.target = target && e.targetPort.same port

/-- The sources of a node by their ports. -/
abbrev Inputs := List (Key × String)

/-- A graph. -/
structure Graph (ι : Type := String) where
  nodes : List (Node ι) := []
  edges : List (Edge ι) := []

namespace Graph

/-- The graph without nodes. -/
def empty : Graph := ⟨[], []⟩

/-- The number of nodes and edges in words. -/
def summary (g : Graph) : String :=
  let nodes := g.nodes.length
  let edges := g.edges.length
  s!"Graph(nodes={nodes}, edges={edges})"

/-! ### Looking up -/

/-- The nodes by their ids.  An id that occurs twice keeps its first place and stands for
its last node. -/
def nodeMap (g : Graph) : List (String × Node) :=
  Entries.ofList (g.nodes.map fun n => (n.id, n))

/-- The first node with an id. -/
def node? (g : Graph) (id : String) : Option Node := g.nodes.find? fun n => n.id = id

/-- Whether a node feeds an edge. -/
def feedsEdge (g : Graph) (id : String) : Bool := g.edges.any fun e => e.source = id

/-- The nodes that feed no edge. -/
def terminalNodes (g : Graph) : List Node := g.nodes.filter fun n => !g.feedsEdge n.id

/-- The edges into a node. -/
def inboundEdges (g : Graph) (id : String) : List Edge := g.edges.filter fun e => e.target = id

/-- The port of an edge in the input map. -/
def inputPort (e : Edge) : Except Fault Key :=
  if e.targetPort.truthy then e.targetPort.key else .ok Port.default

/-- The input map with one more edge. -/
def addInput (inputs : List (String × Inputs)) (e : Edge) :
    Except Fault (List (String × Inputs)) := do
  let port ← inputPort e
  let ports := (Entries.find? inputs e.target).getD []
  return Entries.insert inputs e.target (Entries.insert ports port e.source)

/-- The map from targets to ports to sources.  Of two edges into one port the later one
counts. -/
def inputMap (g : Graph) : Except Fault (List (String × Inputs)) := g.edges.foldlM addInput []

/-! ### Editing -/

/-- The graph with one more node. -/
def addNode (g : Graph) (n : Node) : Graph := { g with nodes := g.nodes ++ [n] }

/-- The graph with one more edge. -/
def addEdge (g : Graph) (e : Edge) : Graph := { g with edges := g.edges ++ [e] }

/-- The graph without the nodes of an id and the edges that touch them. -/
def removeNode (g : Graph) (id : String) : Graph :=
  { nodes := g.nodes.filter fun n => n.id ≠ id
    edges := g.edges.filter fun e => e.source ≠ id && e.target ≠ id }

/-- The graph without the edges into a port. -/
def disconnect (g : Graph) (target : String) (port : Json) : Graph :=
  { g with edges := g.edges.filter fun e => !e.feeds target port }

/-- The graph in which `source` alone feeds a port of `target`. -/
def connect (g : Graph) (source target : String) (port : Json) : Graph :=
  (g.disconnect target port).addEdge (.link source target port)

/-- The nodes with the first one of an id changed. -/
def updateFirst (id : String) (change : Node → Node) : List Node → List Node
  | [] => []
  | n :: rest => if n.id = id then change n :: rest else n :: updateFirst id change rest

/-- The graph with the first node of an id changed. -/
def updateNode (g : Graph) (id : String) (change : Node → Node) : Graph :=
  { g with nodes := updateFirst id change g.nodes }

/-- The graph restricted to some nodes and the edges among them. -/
def subgraph (g : Graph) (ids : List String) : Graph :=
  { nodes := g.nodes.filter fun n => ids.contains n.id
    edges := g.edges.filter fun e => ids.contains e.source && ids.contains e.target }

end Graph

end AssetCanvas
