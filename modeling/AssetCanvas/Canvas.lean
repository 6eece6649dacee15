import AssetCanvas.Layout
import AssetCanvas.Assembly

/-!
# Canvases

A canvas may hold several assets, the sections, under different names.
`Canvas.ofSections` lays the assets of an object out on one graph and tags the root of each
with its name; `Graph.toSections` takes the graph apart again by these tags.
-/

namespace AssetCanvas

namespace Canvas

/-- The nodes of a section, with its root tagged. -/
def tagRoot (name : Json) (rootId : String) (nodes : List Node) : List Node :=
  nodes.map fun n => if n.id = rootId then { n with sectionTag := name } else n

/-- The start of the section at `index`. -/
def start (policy : LayoutPolicy) (origin : Float × Float) (index : Nat) :
    Except Fault (Float × Float) := do
  let y ← Number.addTo origin.2 (← Number.mul (.int index) (← policy.sectionSpacing.number))
  return (origin.1, y)

/-- The graph of one section. -/
def ofSection (policy : LayoutPolicy) (origin : Float × Float) (index : Nat) (name asset : Json) :
    Except Fault Graph := do
  let layout ← Layout.ofAsset asset name (← start policy origin index) name policy
  return ⟨tagRoot name layout.rootId layout.nodes, layout.edges⟩

/-- The graph of some sections, from the one at `index` on; values that are no assets are
left out. -/
def ofSectionsFrom (policy : LayoutPolicy) (origin : Float × Float) (index : Nat) :
    Fields → Except Fault Graph
  | [] => .ok .empty
  | (name, asset) :: rest => do
    let first ← if asset.isAsset then ofSection policy origin index name.toJson asset
      else pure .empty
    let others ← ofSectionsFrom policy origin (index + 1) rest
    return ⟨first.nodes ++ others.nodes, first.edges ++ others.edges⟩

/-- The graph of the sections of an object. -/
def ofSections (sections : Json) (origin : Float × Float) (policy : LayoutPolicy) :
    Except Fault Graph := do
  ofSectionsFrom policy origin 0 (← sections.members)

/-- The sections up to the first one without a layout. -/
def reached (policy : LayoutPolicy) (origin : Float × Float) (index : Nat) :
    Fields → Fields
  | [] => []
  | (name, asset) :: rest =>
    let ok := !asset.isAsset || (ofSection policy origin index name.toJson asset).toBool
    (name, asset) :: (if ok then reached policy origin (index + 1) rest else [])

/-- The warnings of a canvas: one for every value that is no asset. -/
def warnings (sections : Json) (origin : Float × Float) (policy : LayoutPolicy) :
    List String :=
  match sections with
  | .obj fields =>
    ((reached policy origin 0 fields).filter fun s => !s.2.isAsset).map fun s =>
      let name := s.1.spelling
      s!"Section '{name}' skipped: not an asset"
  | _ => []

end Canvas

namespace Graph

/-- The map from section tags to nodes with one more node, if the names have its tag. -/
def addTagged (names : Json) (tagged : List (Key × Node)) (n : Node) :
    Except Fault (List (Key × Node)) := do
  if ← names.contains n.sectionTag then return Entries.insert tagged (← n.sectionTag.key) n
  else return tagged

/-- The last node of every section tag that the names have. -/
def taggedRoots (g : Graph) (names : Json) : Except Fault (List (Key × Node)) :=
  g.nodes.foldlM (addTagged names) []

/-- The asset of a tagged section: the tree above its root within the part of the graph that
leads to the root. -/
def sectionAsset (g : Graph) (root : Node) : Except Fault (Option Json) :=
  (g.subgraph (g.ancestorIds root.id)).assetOf root.id

/-- The assets of the sections with one more name. -/
def addSection (g : Graph) (tagged : List (Key × Node)) (found : Fields) (name : Json) :
    Except Fault Fields := do
  let name ← name.key
  match Entries.find? tagged name with
  | some root =>
    match ← g.sectionAsset root with
    | some asset => return Entries.insert found name asset
    | none => return found
  | none => return found

/-- The entries with a name sent to an asset. -/
def nameAsset (found : Fields) (entry : Json × Json) : Except Fault Fields := do
  return Entries.insert found (← entry.1.key) entry.2

/-- The assets of sections, and the number of roots that got no name. -/
structure SectionAssets where
  assets : Fields
  unassigned : Nat := 0

/-- The assets of the roots under the names in order. -/
def untaggedSections (g : Graph) (names : Json) : Except Fault SectionAssets := do
  let assets ← g.rootAssets
  let names ← names.items
  return ⟨← (names.zip assets).foldlM nameAsset [], assets.length - names.length⟩

/-- The assets of the sections with the given names.  If no node is tagged with one of the
names, the roots are given the names in order. -/
def toSections (g : Graph) (names : Json) : Except Fault SectionAssets := do
  let tagged ← g.taggedRoots names
  if tagged.isEmpty then g.untaggedSections names
  else return ⟨← (← names.items).foldlM (g.addSection tagged) [], 0⟩

/-- The warnings of the assets of sections: there may be more roots than names. -/
def SectionAssets.warnings (s : SectionAssets) : List String :=
  let extra := s.unassigned
  if extra = 0 then [] else [s!"{extra} untagged roots not assigned to any section"]

end Graph

end AssetCanvas
