import AssetCanvas.Graph

/-!
# Reachability

`Graph.ancestorIds` is the set of the ids from which edges lead to a node, and
`Graph.terminalDistances` the least number of edges from every id to a node that feeds none.
Both follow the edges backwards in rounds: a round adds the sources of the edges into the
ids found so far.  The ids that can be added are sources of edges, so as many rounds as
there are edges find all of them.
-/

namespace AssetCanvas.Graph

/-- The sources of the edges into the ids of a list that are not in the list, each once. -/
def newSources (g : Graph) (found : List String) : List String :=
  ((g.edges.filter fun e => found.contains e.target && !found.contains e.source).map
    Edge.source).eraseDups

/-- The ids found after some rounds. -/
def ancestorRounds (g : Graph) : Nat → List String → List String
  | 0, found => found
  | n + 1, found =>
    let added := g.newSources found
    if added.isEmpty then found else ancestorRounds g n (found ++ added)

/-- The id itself and the ids from which edges lead to it. -/
def ancestorIds (g : Graph) (id : String) : List String :=
  g.ancestorRounds g.edges.length [id]

/-- The ids found after some rounds, with the number of the round that found them. -/
def distanceRounds (g : Graph) : Nat → Nat → List (String × Nat) → List (String × Nat)
  | 0, _, found => found
  | n + 1, distance, found =>
    let added := g.newSources (Entries.keys found)
    if added.isEmpty then found
    else distanceRounds g n (distance + 1) (found ++ added.map fun id => (id, distance + 1))

/-- The distance from every id that can reach a terminal node to the nearest one. -/
def terminalDistances (g : Graph) : List (String × Nat) :=
  g.distanceRounds g.edges.length 0
    ((g.terminalNodes.map Node.id).eraseDups.map fun id => (id, 0))

end AssetCanvas.Graph
