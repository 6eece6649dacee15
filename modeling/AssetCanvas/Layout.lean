import AssetCanvas.Slot
import AssetCanvas.Graph
import AssetCanvas.Policy
import AssetCanvas.Asset.Validation

/-!
# Layouts

`Layout.ofAsset` lays an asset tree out as the nodes and edges of a graph.  Every asset
becomes a node; its plain fields stay on the node, and every nested asset is a node of its
own with an edge into the port of the field or item that held it.  Nodes are numbered in
pre-order, so an asset that is laid out after `n` others gets the number `n + 1`, and the
nodes of a fragment of the tree are the next ones in a row.  Positions are symbolic places
first, `Layout.Place`, and are computed from the policy at the end; what may fail on the way
is listed as `Layout.Check`s, which are made in order.
-/

namespace AssetCanvas

/-- An asset tree laid out on the canvas. -/
structure Layout where
  rootId : String
  nodes : List Node
  edges : List Edge
  warnings : List String

namespace Layout

/-- The graph of a layout. -/
def toGraph (l : Layout) : Graph := ⟨l.nodes, l.edges⟩

/-! ### Places -/

/-- The place of a node on the canvas: the start, the place of a child of a node, or the
place of a disconnected tree of a node. -/
inductive Place where
  | start
  | child (parent : Place) (index : Nat)
  | tree (parent : Place) (index : Nat)

/-- The position of a place. -/
def Place.position (policy : LayoutPolicy) (start : Float × Float) :
    Place → Except Fault (Float × Float)
  | .start => .ok start
  | .child parent index => do
    let (x, y) ← parent.position policy start
    let x ← Number.subFrom x (← policy.columnSpacing.number)
    let y ← Number.addTo y (← Number.mul (.int index) (← policy.rowSpacing.number))
    return (x, y)
  | .tree parent index => do
    let (x, y) ← parent.position policy start
    let x ← Number.addTo x (← policy.disconnectedOffset.number)
    let y ← Number.addTo y (← Number.mul (.int index) (← policy.disconnectedSpacing.number))
    return (x, y)

/-! ### Fragments -/

/-- The node to which the fields at hand belong. -/
structure Owner where
  id : String
  label : String
  assetType : Json
  place : Place

/-- A node whose position is still symbolic. -/
structure PlacedNode where
  owner : Owner
  fields : Fields
  arrayFields : List Key

/-- What has to be possible: to tell the column of the children of a place, to look up the
named ports of a discriminant, or to spell the name of a field in an id or a port. -/
inductive Check where
  | room (place : Place)
  | ports (assetType : Json) (label : String)
  | name (key : Key)

/-- The fault of a check that fails. -/
def Check.run (policy : LayoutPolicy) (start : Float × Float) : Check → Except Fault Unit
  | .room place => do
    let position ← place.position policy start
    let _ ← Number.subFrom position.1 (← policy.columnSpacing.number)
  | .ports assetType label =>
    if Slot.nameable assetType label then .ok () else .error .wrongKind
  | .name key => do
    let _ ← key.toJson.spelled

/-- What some fields of an asset give: the plain fields and the names of the array
fields of the asset, the number of its children, and the nodes and edges below it. -/
structure Fragment where
  plain : Fields := []
  arrays : List Key := []
  children : Nat := 0
  nodes : List PlacedNode := []
  edges : List Edge := []
  warnings : List String := []
  checks : List Check := []

/-- Two fragments of one asset, one after the other. -/
def Fragment.append (a b : Fragment) : Fragment :=
  { plain := a.plain ++ b.plain
    arrays := a.arrays ++ b.arrays
    children := a.children + b.children
    nodes := a.nodes ++ b.nodes
    edges := a.edges ++ b.edges
    warnings := a.warnings ++ b.warnings
    checks := a.checks ++ b.checks }

instance : Append Fragment := ⟨Fragment.append⟩

/-- The id of the node with a number. -/
def nodeId (stem : String) (number : Nat) : String := s!"{stem}_{number}"

/-- The node of an asset that is laid out after `n` others. -/
def Owner.ofAsset (stem : String) (n : Nat) (place : Place) (parent : Option String)
    (fields : Fields) : Owner :=
  let c := Asset.classify fields parent
  ⟨nodeId stem (n + 1), c.label, c.assetType, place⟩

/-- The node of an owner with the fragment of its fields, followed by the nodes below it. -/
def Fragment.close (owner : Owner) (body : Fragment) : List PlacedNode :=
  ⟨owner, body.plain, body.arrays⟩ :: body.nodes

/-- The fragment of a child that feeds a port of its parent. -/
def Fragment.ofChild (parent child : Owner) (port : Json) (warnings : List String)
    (checks : List Check) (body : Fragment) : Fragment :=
  { children := 1
    nodes := body.close child
    edges := body.edges ++ [.link child.id parent.id port]
    warnings := body.warnings ++ warnings
    checks := .room child.place :: body.checks ++ checks }

/-- The fragment of a disconnected tree. -/
def Fragment.ofTree (root : Owner) (body : Fragment) : Fragment :=
  { nodes := body.close root
    edges := body.edges
    warnings := body.warnings
    checks := .room root.place :: body.checks }

/-- The fragment of a plain field. -/
def Fragment.ofPlain (key : Key) (v : Json) : Fragment :=
  { plain := if key == Asset.typeKey then [] else [(key, v)] }

/-- The warning for a field under a legacy name. -/
def movedWarnings (owner : Owner) (key : Key) : List String :=
  let id := owner.id
  let label := owner.label
  let name := key.spelling
  match Migration.replacement? label key with
  | some port => [s!"Port migrated on {id} ({label}): '{name}' -> '{port}'"]
  | none => []

/-- The fragment of an item of a list of disconnected trees that is no asset. -/
def skipped (index : Nat) : Fragment :=
  let key := Asset.disconnectedKey
  { warnings := [s!"Skipped {key}[{index}]: not an asset"] }

/-! ### The descent -/

mutual

/-- The fragment of fields of an asset, after `n` assets and `index` children. -/
def placeFields (stem : String) (owner : Owner) (n index : Nat) :
    List (Key × Json) → Fragment
  | [] => {}
  | (key, v) :: rest =>
    let first := placeValue stem owner n index key v
    first ++ placeFields stem owner (n + first.nodes.length) (index + first.children) rest

/-- The fragment of one field of an asset. -/
def placeValue (stem : String) (owner : Owner) (n index : Nat) (key : Key) :
    Json → Fragment
  | .obj fields =>
    if key != Asset.typeKey && Entries.contains fields Asset.typeKey then
      let child := Owner.ofAsset stem n (.child owner.place index) key.text? fields
      .ofChild owner child (Migration.currentOf owner.label key) (movedWarnings owner key)
        [.name key] (placeFields stem child (n + 1) 0 fields)
    else
      .ofPlain key (.obj fields)
  | .arr items =>
    if key == Asset.disconnectedKey then
      placeTrees stem owner n 0 items
    else if key != Asset.typeKey && (Json.arr items).kind = .assetArray then
      { placeItems stem owner n index key 0 items with arrays := [key] }
    else
      .ofPlain key (.arr items)
  | v => .ofPlain key v

/-- The fragment of the items of an array of assets, from the item at `position` on. -/
def placeItems (stem : String) (owner : Owner) (n index : Nat) (key : Key)
    (position : Nat) : List Json → Fragment
  | [] => {}
  | v :: rest =>
    let first := placeItem stem owner n index key position v
    first ++ placeItems stem owner (n + first.nodes.length) (index + 1) key (position + 1) rest

/-- The fragment of an item of an array of assets. -/
def placeItem (stem : String) (owner : Owner) (n index : Nat) (key : Key)
    (position : Nat) : Json → Fragment
  | .obj fields =>
    let child := Owner.ofAsset stem n (.child owner.place index) key.text? fields
    let port := Slot.itemPort owner.assetType key position owner.label
    .ofChild owner child (.str (Migration.current owner.label port)) []
      [.ports owner.assetType owner.label, .name key] (placeFields stem child (n + 1) 0 fields)
  | _ => {}

/-- The fragment of a list of disconnected trees, from the tree at `position` on. -/
def placeTrees (stem : String) (owner : Owner) (n position : Nat) : List Json → Fragment
  | [] => {}
  | v :: rest =>
    let first := placeTree stem owner n position v
    first ++ placeTrees stem owner (n + first.nodes.length) (position + 1) rest

/-- The fragment of an item of a list of disconnected trees. -/
def placeTree (stem : String) (owner : Owner) (n position : Nat) : Json → Fragment
  | .obj fields =>
    if Entries.contains fields Asset.typeKey then
      let root := Owner.ofAsset stem n (.tree owner.place position) none fields
      .ofTree root (placeFields stem root (n + 1) 0 fields)
    else
      skipped position
  | _ => skipped position

end

/-- The fragment of a whole tree. -/
def placeRoot (stem : String) (rootField : Option String) (fields : Fields) :
    Fragment :=
  let root := Owner.ofAsset stem 0 .start rootField fields
  .ofTree root (placeFields stem root 1 0 fields)

/-! ### The result -/

/-- A node with its position. -/
def PlacedNode.toNode (policy : LayoutPolicy) (start : Float × Float) (n : PlacedNode) :
    Except Fault Node := do
  return {
    id := n.owner.id
    label := .str n.owner.label
    assetType := n.owner.assetType
    position := ← n.owner.place.position policy start
    fields := .obj n.fields
    arrayFields := .arr (n.arrayFields.map Key.toJson) }

/-- The layout of a tree with the given fields. -/
def ofFields (stem : String) (policy : LayoutPolicy) (start : Float × Float)
    (rootField : Option String) (fields : Fields) : Except Fault Layout := do
  let fragment := placeRoot stem rootField fields
  fragment.checks.forM (Check.run policy start)
  let nodes ← fragment.nodes.mapM (PlacedNode.toNode policy start)
  -- a layout is reported with the discriminant of its root
  let _ ← (Json.field fields Asset.typeKey).spelled
  return ⟨nodeId stem 1, nodes, fragment.edges, fragment.warnings⟩

/-- The value whose spelling is the stem of node ids: the given one, or the one of the policy. -/
def stemValue (policy : LayoutPolicy) (stem : Json) : Json :=
  if stem.isNull then policy.idPrefix else stem

/-- The stem of node ids. -/
def stemOf (policy : LayoutPolicy) (stem : Json) : String := (stemValue policy stem).spelling

/-- The layout of a tree.  Any object is laid out as an asset; other values have no layout. -/
def ofAsset (tree stem : Json) (start : Float × Float) (rootField : Json)
    (policy : LayoutPolicy) : Except Fault Layout :=
  match tree with
  | .obj fields => do
    let stem ← (stemValue policy stem).spelled
    ofFields stem policy start (← Asset.parentOf fields rootField) fields
  | v => .error (.notAnAsset v.kindName)

/-- The warnings of a layout with debugging on: the problems of the tree. -/
def debugWarnings (tree : Json) : List String :=
  match Asset.problems tree with
  | .ok problems => problems.map fun problem => s!"Asset validation: {problem}"
  | .error _ => []

end Layout

/-- The graph of a tree with the default policy. -/
def Graph.ofAsset (tree stem rootField : Json) : Except Fault Graph := do
  return (← Layout.ofAsset tree stem (0.0, 0.0) rootField {}).toGraph

end AssetCanvas
