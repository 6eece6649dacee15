import AssetCanvas.Label
import AssetCanvas.Graph.Reach

/-!
# Roots of previews

`Graph.evaluationRoot` finds the node from which a preview starts: an explicit one, a tagged
one, a node that feeds no edge, or the node of the family nearest to such a node.  A
`Family` is the set of types that an interpreter understands, with the category that its
labels carry.
-/

namespace AssetCanvas

/-- The types that an interpreter understands, and the category of its labels. -/
structure Family where
  types : List Key
  category : String

/-- The family of some type names. -/
def Family.ofNames (names : List String) (category : String) : Family :=
  ⟨names.map Key.text, category⟩

namespace Node

/-- The value by which a node is dispatched: its label, or else its discriminant. -/
def dispatchValue (n : Node) : Json :=
  if n.label.truthy then n.label else if n.assetType.truthy then n.assetType else .str ""

/-- A label without the given category, or without its category if it has another one. -/
def bareName (category label : String) : String :=
  let start := category.toList ++ [Label.separator]
  if category ≠ "" && start.isPrefixOf label.toList then
    String.ofList (label.toList.drop start.length)
  else
    Label.strip label

/-- The type by which a node is dispatched: a text, unless there is no category and the label is
a list. -/
def typeValue (n : Node) (category : String) : Except Fault Json :=
  match n.dispatchValue with
  | .str label => .ok (.str (bareName category label))
  | v => if category = "" then Label.stripValue v else .error .noSuchMember

/-- The type name by which a node is dispatched. -/
def typeName (n : Node) (category : String) : Except Fault String := do
  match ← n.typeValue category with
  | .str name => return name
  | _ => throw .wrongKind

/-- The label of a node, an empty text if there is none. -/
def labelOrEmpty (n : Node) : Json := if n.label.truthy then n.label else .str ""

/-- Whether a value is one of the types of a family. -/
def isType (family : Family) (v : Json) : Except Fault Bool := do
  return family.types.contains (← v.key)

/-- Whether a node belongs to a family: its label carries the category of the family, or it
has no category and its bare type or its discriminant is one of the types. -/
def belongs (n : Node) (family : Family) : Except Fault Bool := do
  let category ← Label.categoryValue n.labelOrEmpty
  if family.category ≠ "" && category = family.category then
    return true
  else if category = "" then
    if ← isType family (← Label.stripValue n.labelOrEmpty) then return true
    else isType family n.assetType
  else
    return false

end Node

namespace Graph

/-- The first node with a property that may be faulty. -/
def firstNode (holds : Node → Except Fault Bool) : List Node → Except Fault (Option Node)
  | [] => .ok none
  | n :: rest => do if ← holds n then return some n else firstNode holds rest

/-- The nodes of a family. -/
def members (family : Family) : List Node → Except Fault (List Node)
  | [] => .ok []
  | n :: rest => do
    if ← n.belongs family then return n :: (← members family rest) else members family rest

/-- The first of the nodes with the least rank. -/
def leastBy (rank : Node → Nat) : List Node → Option Node
  | [] => none
  | n :: rest =>
    match leastBy rank rest with
    | none => some n
    | some other => if rank other < rank n then some other else some n

/-- The distance of a node to a node that feeds no edge; more than any distance if there is
no way. -/
def terminalRank (g : Graph) (distances : List (String × Nat)) (n : Node) : Nat :=
  (Entries.find? distances n.id).getD (g.nodes.length + 1)

/-- The node of a family nearest to a node that feeds no edge, the first of several. -/
def nearestMember (g : Graph) (family : Family) : Except Fault (Option Node) := do
  let candidates ← members family g.nodes
  let distances := g.terminalDistances
  return leastBy (g.terminalRank distances) candidates

/-- The first node with a section tag. -/
def sectionRoot (g : Graph) (tag : Json) : Option Node :=
  if tag.isNull then none else g.nodes.find? fun n => n.sectionTag.same tag

/-- The root of a preview that is not given: the first output of the family, the root of the
section, the first node of the family that feeds no edge, or the nearest to one. -/
def implicitRoot (g : Graph) (family : Family) (tag : Json) : Except Fault (Option Node) := do
  match ← firstNode (fun n => if n.isOutput then n.belongs family else .ok false) g.nodes with
  | some n => return some n
  | none =>
    match g.sectionRoot tag with
    | some n => return some n
    | none =>
      match ← firstNode (fun n => n.belongs family) g.terminalNodes with
      | some n => return some n
      | none => g.nearestMember family

/-- The root of a preview: the given node if the graph has it, else the implicit root. -/
def evaluationRoot (g : Graph) (family : Family) (tag rootId : Json) :
    Except Fault (Option Node) :=
  match rootId.text?.bind g.node? with
  | some n => .ok (some n)
  | none => g.implicitRoot family tag

end Graph

end AssetCanvas
