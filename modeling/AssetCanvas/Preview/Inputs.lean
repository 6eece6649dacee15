import AssetCanvas.Graph
import AssetCanvas.Port.Migration

/-!
# The inputs of a preview

`Graph.currentInputs` is the table from which the interpreters read the sources of a node.
-/

namespace AssetCanvas.Graph

/-- The inputs of one target with current port names; none if the target is no node. -/
def targetInputs (nodes : List (String × Node)) (entry : String × Inputs) :
    Except Fault (List (String × Inputs)) := do
  match Entries.find? nodes entry.1 with
  | some n => return [(entry.1, (← Migration.migrateUnder n.label entry.2 entry.1).1)]
  | none => return []

/-- The input map of the nodes of a graph, with current port names. -/
def currentInputs (g : Graph) (nodes : List (String × Node)) :
    Except Fault (List (String × Inputs)) := do
  return (← (← g.inputMap).mapM (targetInputs nodes)).flatten

end AssetCanvas.Graph
