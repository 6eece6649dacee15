import AssetCanvas.Graph

/-!
# Exported graphs

`Graph.exported` is a graph as a set of nodes and a multiset of edges.  Nodes stand in the
order in which their ids occur first, and edges in the order of source, target and id.  Ids
of edges between the same ends can be ordered only if all of them are texts or all of them
are numbers.
-/

namespace AssetCanvas

namespace Key

/-- The number of a key that stands for one. -/
def number? (k : Key) : Option Number := k.toJson.number?

/-- Whether a key does not come after another one: texts by their code points, numbers by
their values. -/
def le (a b : Key) : Bool :=
  match a, b with
  | .text s, .text t => s ≤ t
  | a, b =>
    match a.number?, b.number? with
    | some x, some y => !y.lt x
    | _, _ => false

/-- Whether the order of two keys is defined. -/
def comparable (a b : Key) : Bool :=
  (a.text?.isSome && b.text?.isSome) || (a.number?.isSome && b.number?.isSome)

end Key

/-- An edge of an exported graph, with its port. -/
structure ExportEdge where
  source : String
  target : String
  id : Key
  port : Json

namespace ExportEdge

/-- Whether two edges have the same ends. -/
def parallel (e f : ExportEdge) : Bool := e.source = f.source && e.target = f.target

/-- Whether an edge does not come after another one. -/
def le (e f : ExportEdge) : Bool :=
  e.source < f.source || (e.source = f.source
    && (e.target < f.target || (e.target = f.target && e.id.le f.id)))

/-- Whether the order of an edge among some others is defined. -/
def comparable (edges : List ExportEdge) (e : ExportEdge) : Bool :=
  edges.all fun f => !e.parallel f || e.id.comparable f.id

end ExportEdge

/-- A graph as a set of nodes and a multiset of edges; an end of an edge that is no node has
no attributes. -/
structure Export where
  nodes : List (String × Option Node)
  edges : List ExportEdge

namespace Graph

/-- The ids of the nodes and the ends of the edges, in the order in which they occur. -/
def allIds (g : Graph) : List String :=
  (g.nodes.map Node.id ++ g.edges.flatMap fun e => [e.source, e.target]).eraseDups

/-- The ports of edges by their ends and ids, with one more edge. -/
def addPort (ports : List ((String × String × Key) × Json)) (e : Edge) :
    Except Fault (List ((String × String × Key) × Json)) := do
  return Entries.insert ports (e.source, e.target, ← e.id.key) e.targetPort

/-- The export of a graph.  Edges with the same ends and the same id count once, with the
port of the last one. -/
def exported (g : Graph) : Except Fault Export := do
  let ports ← g.edges.foldlM addPort []
  let edges := ports.map fun (ends, port) => ⟨ends.1, ends.2.1, ends.2.2, port⟩
  if edges.all (ExportEdge.comparable edges) then
    let nodes := g.nodeMap
    return { nodes := g.allIds.map fun id => (id, Entries.find? nodes id)
             edges := edges.mergeSort ExportEdge.le }
  else
    throw .wrongKind

end Graph

end AssetCanvas
