import AssetCanvas.Graph

/-!
# Validation of graphs

`Graph.problems` lists the violations of the rules of a graph: node ids are distinct, the
ends of every edge are nodes, and a port is fed by one edge.
-/

namespace AssetCanvas.Graph

/-- The ids of nodes that occurred before, one for each repetition. -/
def repeatedIds (seen : List String) : List Node → List String
  | [] => []
  | n :: rest =>
    (if seen.contains n.id then [n.id] else []) ++ repeatedIds (n.id :: seen) rest

/-- The message for a repeated id. -/
def repeatedMessage (id : String) : String := s!"duplicate node id '{id}'"

/-- The problems of the ends of an edge. -/
def endProblems (ids : List String) (e : Edge) : List String :=
  let edge := e.id.spelling
  let source := e.source
  let target := e.target
  (if ids.contains source then [] else [s!"edge '{edge}': unknown source '{source}'"])
    ++ (if ids.contains target then [] else [s!"edge '{edge}': unknown target '{target}'"])

/-- The problem of an edge into a port that `first` feeds already. -/
def clashMessage (e : Edge) (first : String) : String :=
  let port := e.targetPort.spelling
  let target := e.target
  let source := e.source
  s!"port '{port}' on '{target}' fed by both '{first}' and '{source}'"

/-- The problems of edges, given the sources of the ports that are fed already. -/
def edgeProblems (ids : List String) (fed : List ((String × Key) × String)) :
    List Edge → Except Fault (List String)
  | [] => .ok []
  | e :: rest => do
    let port := (e.target, ← e.targetPort.key)
    match Entries.find? fed port with
    | some first =>
      return endProblems ids e ++ [clashMessage e first] ++ (← edgeProblems ids fed rest)
    | none =>
      return endProblems ids e ++ (← edgeProblems ids (Entries.insert fed port e.source) rest)

/-- The problems of a graph. -/
def problems (g : Graph) : Except Fault (List String) := do
  return (repeatedIds [] g.nodes).map repeatedMessage
    ++ (← edgeProblems (g.nodes.map Node.id) [] g.edges)

end AssetCanvas.Graph
