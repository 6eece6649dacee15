import AssetCanvas.Graph
import AssetCanvas.TableVersion

/-!
# Serialised graphs

A document is a graph that may have any values as ids.  `Graph.write` writes it as an object
with a table stamp, and `Graph.read` reads such an object.  A value that is not shaped like a
graph is refused; an entry that is missing or empty gets its default.  `Graph.toJson` writes a
graph of the canvas, and `Graph.ofJson` reads one: its ids have to be texts.
-/

namespace AssetCanvas

/-! ### Writing -/

/-- The record of array fields as a part of an object: no part for no record. -/
def Node.recordPart {ι : Type} (n : Node ι) : Except Fault Fields :=
  if n.arrayFields.isNull then .ok []
  else do return [("array_fields", .arr (← n.arrayFields.items))]

/-- A node of a document as an object.  The tags and the record are left out where there are
none. -/
def Node.write (n : Node Json) : Except Fault Json := do
  let own : Fields :=
    [("id", n.id), ("type", n.label), ("asset_type", n.assetType),
      ("position", .obj [("x", .float n.position.1), ("y", .float n.position.2)]),
      ("fields", n.fields)]
  let output : Fields := if n.isOutput then [("output", .bool true)] else []
  let tag : Fields := if n.sectionTag.isNull then [] else [("section", n.sectionTag)]
  return .obj (own ++ output ++ tag ++ (← n.recordPart))

/-- An edge of a document as an object. -/
def Edge.write (e : Edge Json) : Json :=
  .obj [("id", e.id), ("source", e.source), ("source_port", e.sourcePort),
    ("target", e.target), ("target_port", e.targetPort)]

/-- A document as an object, stamped with the current tables. -/
def Graph.write (g : Graph Json) : Except Fault Json := do
  return .obj [("table", TableStamp.toJson {}), ("nodes", .arr (← g.nodes.mapM Node.write)),
    ("edges", .arr (g.edges.map Edge.write))]

/-- The node of a document for a node of the canvas. -/
def Node.values (n : Node) : Node Json := { n with id := .str n.id }

/-- The edge of a document for an edge of the canvas. -/
def Edge.values (e : Edge) : Edge Json :=
  { e with source := .str e.source, target := .str e.target }

/-- The document of a graph. -/
def Graph.values (g : Graph) : Graph Json := ⟨g.nodes.map Node.values, g.edges.map Edge.values⟩

/-- A node as an object. -/
def Node.toJson (n : Node) : Except Fault Json := n.values.write

/-- An edge as an object. -/
def Edge.toJson (e : Edge) : Json := e.values.write

/-- A graph as an object, stamped with the current tables. -/
def Graph.toJson (g : Graph) : Except Fault Json := g.values.write

/-- Whether two graphs have the same nodes and edges in the same order. -/
def Graph.same (g h : Graph) : Except Fault Bool := do return (← g.toJson).same (← h.toJson)

/-! ### Reading -/

namespace Document

/-- A text. -/
def text : Json → Except Fault String
  | .str s => .ok s
  | _ => .error .wrongKind

/-- A value, or a default for a missing or empty one. -/
def valueOr (v : Json) (default : String) : Json := if v.truthy then v else .str default

/-- An entry of an edge, which is an object; a fault if it is missing. -/
def entry (v : Json) (key : String) : Except Fault Json :=
  match v with
  | .obj fields => Json.required fields key
  | _ => .error .wrongKind

/-- A component of a position; zero if it is missing. -/
def coordinate (position : Fields) (key : String) : Except Fault Float :=
  match Entries.find? position key with
  | some v => v.toFloat
  | none => .ok 0.0

/-- Whether a component of a position is a text that stands for no number. -/
def spelledOut (position : Fields) (key : String) (x : Float) : Bool :=
  x.isNaN && (Json.field position key).text?.isSome

/-- The fields with one more pair of a key and a value. -/
def addPair (fields : Fields) (v : Json) : Except Fault Fields := do
  let (key, value) ← v.pair
  return Entries.insert fields (← key.key) value

/-- The plain fields of a node: an object, or a list of pairs. -/
def plainFields (v : Json) : Except Fault Fields :=
  if v.truthy then
    match v with
    | .obj fields => .ok fields
    | v => do (← v.items).foldlM addPair []
  else
    .ok []

/-- The record of array fields: a list of names, the keys of an object or the characters of
a text. -/
def record (v : Json) : Except Fault Json :=
  if v.isNull then .ok .null else do return .arr (← v.items)

end Document

open Document

/-- The node in an object. -/
def Node.read (v : Json) : Except Fault (Node Json) := do
  let fields ← v.members
  let position := Json.field fields "position"
  let id ← Json.required fields "id"
  let label ← Json.required fields "type"
  let place ← if position.truthy then position.members else pure []
  let x ← coordinate place "x"
  let y ← coordinate place "y"
  let plain ← plainFields (Json.field fields "fields")
  let arrayFields ← record (Json.field fields "array_fields")
  return {
    id
    label
    assetType := Json.field fields "asset_type"
    position := (x, y)
    fields := .obj plain
    output := .bool (Json.field fields "output").truthy
    sectionTag := Json.field fields "section"
    arrayFields
    restored := !spelledOut place "x" x && !spelledOut place "y" y }

/-- The node of the canvas for a node of a document. -/
def Node.named (n : Node Json) : Except Fault Node := do return { n with id := ← text n.id }

/-- The node of the canvas in an object. -/
def Node.ofJson (v : Json) : Except Fault Node := do named (← read v)

/-- The edge in an object. -/
def Edge.read (v : Json) : Except Fault (Edge Json) := do
  let source ← entry v "source"
  let target ← entry v "target"
  let fields ← v.members
  let targetPort := valueOr (Json.field fields "target_port") Port.default
  let sourcePort := valueOr (Json.field fields "source_port") Port.output
  let given := Json.field fields "id"
  let id ← if given.truthy then pure given
    else .str <$> Edge.standardId source target targetPort
  return { id, source, sourcePort, target, targetPort }

/-- The edge of the canvas for an edge of a document. -/
def Edge.named (e : Edge Json) : Except Fault Edge := do
  return { e with source := ← text e.source, target := ← text e.target }

/-- The edge of the canvas in an object. -/
def Edge.ofJson (v : Json) : Except Fault Edge := do named (← read v)

namespace Graph

/-- The fault of a graph for a fault of one of its entries. -/
def entryFault : Fault → Fault
  | .missingKey key => .missingEntry key
  | .wrongKind => .malformedEntry
  | .noSuchMember => .malformedEntry
  | fault => fault

/-- The stamp of an object, if it has one. -/
def stamp? (fields : Fields) : Option TableStamp :=
  match Json.field fields "table" with
  | .obj table => some (.ofFields table)
  | _ => none

/-- The reasons against the stamp of an object. -/
def stampProblems (fields : Fields) : List String :=
  match stamp? fields with
  | some s => TableVersion.check s.version
  | none => []

/-- The nodes and the edges of two arrays. -/
def readEntries (nodes edges : List Json) : Except Fault (Graph Json) := do
  return ⟨← nodes.mapM Node.read, ← edges.mapM Edge.read⟩

/-- The document in an object. -/
def readFields (fields : Fields) : Except Fault (Graph Json) :=
  let reasons := stampProblems fields
  if reasons.isEmpty then
    let nodes := (Entries.find? fields "nodes").getD (.arr [])
    let edges := (Entries.find? fields "edges").getD (.arr [])
    match nodes, edges with
    | .arr nodes, .arr edges => (readEntries nodes edges).mapError entryFault
    | _, _ => .error .entriesNotArrays
  else
    .error (.unreadableTable reasons)

/-- The document in a value. -/
def read : Json → Except Fault (Graph Json)
  | .obj fields => readFields fields
  | v => .error (.notAGraph v.kindName)

/-- The graph of the canvas for a document, whose ids have to be texts. -/
def named (g : Graph Json) : Except Fault Graph := do
  return ⟨← g.nodes.mapM Node.named, ← g.edges.mapM Edge.named⟩

/-- The graph of the canvas in a value. -/
def ofJson (v : Json) : Except Fault Graph := do (← read v).named

/-- The warnings that reading a graph gives. -/
def readWarnings : Json → List String
  | .obj fields =>
    match stamp? fields with
    | some s => TableVersion.checkWarnings s.version
    | none => []
  | _ => []

end Graph

end AssetCanvas
