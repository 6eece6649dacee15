import AssetCanvas.Slot
import AssetCanvas.Graph
import AssetCanvas.Graph.Reach
import AssetCanvas.Graph.Walk

/-!
# Assembly

`Assembly.assemble` puts the part of a graph above a node together as an asset.  The plain
fields of the node are copied, and every edge into the node puts the asset of its source
into the field or the item of its port; items are ordered by their indices, so a missing one
closes up.  The walk carries the ids that are not being assembled further down, `fresh`: an
edge from an id that is not fresh closes a cycle or comes from no node, and gives nothing.
-/

namespace AssetCanvas

/-- The discriminant of a node: the stored one, or else its label without the category;
null if there is neither. -/
def Node.discriminant (n : Node) : Except Fault Json :=
  if !n.assetType.isNull then .ok n.assetType
  else if n.label.truthy then Label.stripValue n.label
  else .ok .null

namespace Assembly

/-! ### Placing children -/

/-- The slot of a port on a node with a discriminant. -/
def slotOf (n : Node) (discriminant port : Json) : Except Fault (String × Option Nat) :=
  Slot.ofPort discriminant port n.label n.arrayFields

/-- The children of an asset found so far: fields with the plain fields, and array items by
field and index. -/
structure Parts where
  fields : Fields
  items : List (String × List (Nat × Json)) := []

/-- The parts with a child in a slot; a child that was there before is replaced. -/
def Parts.put (parts : Parts) (slot : String × Option Nat) (child : Json) : Parts :=
  match slot with
  | (field, none) => { parts with fields := Entries.insert parts.fields field child }
  | (field, some index) =>
    let items := (Entries.find? parts.items field).getD []
    { parts with items := Entries.insert parts.items field (Entries.insert items index child) }

/-- The items of an array by their indices. -/
def inOrder (items : List (Nat × Json)) : List Json :=
  (items.mergeSort fun a b => a.1 ≤ b.1).map Prod.snd

/-- The fields of the asset of some parts. -/
def Parts.toFields (parts : Parts) : Fields :=
  parts.items.foldl (fun fields entry => Entries.insert fields entry.1 (.arr (inOrder entry.2)))
    parts.fields

/-- The discriminant and the plain fields of a node. -/
def ownFields (n : Node) (discriminant : Json) : Except Fault Fields := do
  let plain := (← n.fields.members).filter fun field => field.1 != .text Asset.typeKey
  return if discriminant.isNull then plain else (.text Asset.typeKey, discriminant) :: plain

/-- The parts with the child of an edge, given the assets of the sources. -/
def addChild (n : Node) (discriminant : Json) (assetOf : String → Except Fault (Option Json))
    (parts : Parts) (e : Edge) : Except Fault Parts := do
  match ← assetOf e.source with
  | some child => return parts.put (← slotOf n discriminant e.targetPort) child
  | none => return parts

/-- The asset of a node with the edges into it, given the assets of the sources. -/
def ofNode (n : Node) (edges : List Edge) (assetOf : String → Except Fault (Option Json)) :
    Except Fault Json := do
  let discriminant ← n.discriminant
  let own ← ownFields n discriminant
  return .obj (← edges.foldlM (addChild n discriminant assetOf) ⟨own, []⟩).toFields

/-! ### The walk -/

/-- The asset of an id, if it is fresh. -/
def assemble (g : Graph) (nodes : List (String × Node)) (fresh : List String) (id : String) :
    Except Fault (Option Json) :=
  if _entered : id ∈ fresh then
    match Entries.find? nodes id with
    | none => .ok none
    | some n => do
      let sources := fun source => assemble g nodes (Walk.without fresh id) source
      return some (← ofNode n (g.inboundEdges id) sources)
  else
    .ok none
termination_by fresh.length
decreasing_by
  apply Walk.length_without_lt
  assumption

end Assembly

namespace Graph

/-- The asset of a node; none if the graph has no such node. -/
def assetOf (g : Graph) (id : String) : Except Fault (Option Json) :=
  let nodes := g.nodeMap
  Assembly.assemble g nodes (Entries.keys nodes) id

/-- The asset of the node with an id of any kind; none if the graph has no such node. -/
def assetOfValue (g : Graph) (id : Json) : Except Fault (Option Json) := do
  match (← id.key).text? with
  | some id => g.assetOf id
  | none => return none

/-- The nodes from which the assets of a graph are assembled: the tagged ones, else the ones
that feed no edge, else the first one. -/
def roots (g : Graph) : List Node :=
  let tagged := g.nodes.filter Node.isOutput
  if tagged.isEmpty then
    let terminals := g.terminalNodes
    if terminals.isEmpty then g.nodes.take 1 else terminals
  else
    tagged

/-- The assets of some nodes; unknown ids give none. -/
def assetsOf (g : Graph) (ids : List String) : Except Fault (List Json) := do
  return (← ids.mapM g.assetOf).filterMap id

/-- The assets of some nodes, given by a list of ids of any kind. -/
def assetsOfValues (g : Graph) (ids : Json) : Except Fault (List Json) := do
  return (← (← ids.items).mapM g.assetOfValue).filterMap id

/-- The assets of the roots. -/
def rootAssets (g : Graph) : Except Fault (List Json) := g.assetsOf (g.roots.map Node.id)

/-- The assets of the nodes that feed no edge, without those of an id. -/
def disconnectedAssets (g : Graph) (id : String) : Except Fault (List Json) :=
  g.assetsOf ((g.terminalNodes.filter fun n => n.id ≠ id).map Node.id)

/-- Whether a value has a length, as the value under the key of disconnected trees must. -/
def countable : Json → Bool
  | .str _ => true
  | .arr _ => true
  | .obj _ => true
  | _ => false

/-- The asset with the disconnected trees under the reserved key. -/
def withDisconnected (asset : Json) (trees : List Json) : Json :=
  match asset with
  | .obj fields =>
    if trees.isEmpty then asset
    else .obj (Entries.insert fields Asset.disconnectedKey (.arr trees))
  | v => v

/-- The asset itself, if what it has under the reserved key can be counted. -/
def counted (asset : Json) : Except Fault Json :=
  match asset with
  | .obj fields =>
    match Entries.find? fields Asset.disconnectedKey with
    | some v => if countable v then .ok asset else .error .wrongKind
    | none => .ok asset
  | v => .ok v

/-- The asset of the tree from a primary root.  If the root feeds no edge, the other nodes
that feed none are its disconnected trees. -/
def assetFrom (g : Graph) (primary : Node) : Except Fault (Option Json) := do
  match ← g.assetOf primary.id with
  | none => return none
  | some asset =>
    let trees ← if g.feedsEdge primary.id then pure [] else g.disconnectedAssets primary.id
    return some (← counted (withDisconnected asset trees))

/-- The root of the asset of a whole graph: the given one, or the first of the roots. -/
def primaryRoot (g : Graph) (rootId : Json) : Option Node :=
  if rootId.isNull then g.roots.head? else rootId.text?.bind g.node?

/-- The asset of a whole graph; none for a graph without nodes and for an unknown root. -/
def toAsset (g : Graph) (rootId : Json) : Except Fault (Option Json) :=
  match g.primaryRoot rootId with
  | some primary => g.assetFrom primary
  | none => .ok none

/-- The warnings of the asset of a whole graph. -/
def assetWarnings (g : Graph) (rootId : Json) : List String :=
  let id := rootId.spelling
  if g.nodes.isEmpty || rootId.isNull || (g.primaryRoot rootId).isSome then []
  else [s!"Root '{id}' not in graph"]

end Graph

end AssetCanvas
