import AssetCanvas.Assembly

/-!
# Section summaries

What an overview lists for a section: its display label, the size of its graph, and
`Graph.typeChain`, the labels on the path from the root along the first input of every node.
-/

namespace AssetCanvas

namespace Summary

/-- The text between two labels of a chain. -/
def separator : String := " -> "

/-- The labels of sections with a name of their own. -/
def sectionLabels : List (String × String) := [("MaterialProvider", "Materials")]

/-- The digits of a key that begins with an indexed prop. -/
def propIndex? (key : String) : Option (List Char) :=
  match key.toList with
  | 'P' :: 'r' :: 'o' :: 'p' :: 's' :: '[' :: rest =>
    let digits := rest.takeWhile Digit.isDigit
    if !digits.isEmpty && (rest.dropWhile Digit.isDigit).head? = some ']' then some digits
    else none
  | _ => none

/-- The display label of a section. -/
def sectionLabel (key : String) : String :=
  match Entries.find? sectionLabels key with
  | some label => label
  | none =>
    match propIndex? key with
    | some digits => "Prop " ++ String.ofList digits
    | none => key

end Summary

namespace Graph

/-- The source of the first edge into a node. -/
def firstInput? (g : Graph) (id : String) : Option String :=
  (g.edges.find? fun e => e.target = id).map Edge.source

/-- At most `depth` labels of nodes from one on, along their first inputs.  A node without a
label counts but gives no text. -/
def labelsFrom (g : Graph) (nodes : List (String × Node)) : Nat → Node → List Json
  | 0, _ => []
  | depth + 1, n =>
    let rest := match (g.firstInput? n.id).bind (Entries.find? nodes) with
      | some next => labelsFrom g nodes depth next
      | none => []
    if n.label.truthy then n.label :: rest else rest

/-- The labels from the first root on, in one text. -/
def typeChain (g : Graph) (depth : Json) : Except Fault String :=
  match g.roots.head? with
  | none => .ok ""
  | some root => do
    let depth ← depth.index
    match (g.labelsFrom g.nodeMap depth.toNat root).mapM Json.text? with
    | some texts => return Summary.separator.intercalate texts
    | none => throw .wrongKind

end Graph

/-- The overview of a section. -/
structure Summary where
  key : String
  label : String
  nodeCount : Nat
  edgeCount : Nat
  typeChain : String

/-- The overview of a section with the given key. -/
def Graph.summarize (g : Graph) (key : String) : Except Fault Summary := do
  return ⟨key, Summary.sectionLabel key, g.nodes.length, g.edges.length, ← g.typeChain (.int 4)⟩

end AssetCanvas
