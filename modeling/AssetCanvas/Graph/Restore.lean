import AssetCanvas.Graph.Document
import AssetCanvas.Json.Printer
import AssetCanvas.Json.Reader

/-!
# Saving and restoring graphs

`Graph.restore` writes a graph as JSON text and reads it again.  Keys become texts on the
way, and attributes get the form that reading gives them, so the restored graph need not
agree with the graph; `Graph.agrees` tells whether it does.
-/

namespace AssetCanvas

/-- Whether two coordinates agree; undefined ones do so only if they were read. -/
def Node.coordinatesAgree (restored : Bool) (x y : Float) : Bool :=
  x == y || (restored && x.isNaN && y.isNaN)

/-- Whether two nodes have the same attributes. -/
def Node.agrees (n m : Node) : Bool :=
  let restored := n.restored && m.restored
  n.id = m.id && n.label.agrees true m.label && n.assetType.agrees true m.assetType
    && coordinatesAgree restored n.position.1 m.position.1
    && coordinatesAgree restored n.position.2 m.position.2
    && n.fields.agrees true m.fields && n.output.agrees true m.output
    && n.sectionTag.agrees true m.sectionTag && n.arrayFields.agrees true m.arrayFields

/-- Whether two edges have the same ends, ports and id. -/
def Edge.agrees (e f : Edge) : Bool :=
  e.source = f.source && e.target = f.target && e.targetPort.agrees true f.targetPort
    && e.sourcePort.agrees true f.sourcePort && e.id.agrees true f.id

namespace Graph

/-- Whether two graphs have the same nodes and edges in the same order. -/
def agrees (g h : Graph) : Bool :=
  g.nodes.length = h.nodes.length && g.edges.length = h.edges.length
    && (g.nodes.zip h.nodes).all (fun p => p.1.agrees p.2)
    && (g.edges.zip h.edges).all (fun p => p.1.agrees p.2)

/-- The graph that was written and read again. -/
def restore (g : Graph) : Except Fault Graph := do
  Graph.ofJson (← Json.parse ((← g.toJson).render none))

end Graph

end AssetCanvas
