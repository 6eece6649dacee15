import AssetCanvas.Port
import AssetCanvas.Preview.Density.Curve
import AssetCanvas.Preview.Root

/-!
# What a density node reads

A density node is evaluated at a whole list of points at once.  Its `Density.Scope` holds its
fields and the sources of its ports, and gives the densities of the sources at any points,
which need not be the points of the node.
-/

namespace AssetCanvas

/-- A point of the world. -/
structure Point where
  x : Float
  y : Float
  z : Float

namespace Density

/-- The fields and the sources of a node. -/
structure Scope where
  fields : Json
  /-- The sources of the ports. -/
  inputs : Inputs
  /-- The nodes of the graph by their ids. -/
  nodes : List (String × Node)
  /-- The seed of the evaluation. -/
  seed : Int
  /-- The densities of a node at some points. -/
  evaluate : String → List Point → Except Fault (List Float)

/-- How a type of node computes its densities at some points. -/
abbrev Handler := Scope → List Point → Except Fault (List Float)

/-- The same density at every point. -/
def constant (density : Float) (points : List Point) : List Float := points.map fun _ => density

namespace Scope

/-- The value of a field; null for a missing one. -/
def field (s : Scope) (key : String) : Except Fault Json := do
  return Json.field (← s.fields.members) key

/-- The number of a field, or a default. -/
def number (s : Scope) (key : String) (default : Float) : Except Fault Float := do
  (← s.field key).coerce default

/-- The number of a field, or of an older one if it is missing, or a default. -/
def numberOf (s : Scope) (key older : String) (default : Float) : Except Fault Float := do
  s.number (if Entries.contains (← s.fields.members) key then key else older) default

/-- Whether a port has a source. -/
def has (s : Scope) (port : String) : Bool := Entries.contains s.inputs port

/-- The densities of the source of a port; zeros without one. -/
def input (s : Scope) (port : String) (points : List Point) : Except Fault (List Float) :=
  match Entries.find? s.inputs port with
  | some source => s.evaluate source points
  | none => .ok (constant 0.0 points)

/-- The indexed ports with a source, up to the first one without. -/
def indexedPorts (s : Scope) : List String :=
  ((List.range s.inputs.length).map (Port.slot "Inputs")).takeWhile s.has

/-- The densities of the sources of the indexed ports. -/
def indexedInputs (s : Scope) (points : List Point) : Except Fault (List (List Float)) :=
  s.indexedPorts.mapM fun port => s.input port points

/-- The node that is the source of a port. -/
def source? (s : Scope) (port : String) : Option Node :=
  match Entries.find? s.inputs port with
  | some id => if id = "" then none else Entries.find? s.nodes id
  | none => none

/-- The curve that is the source of a port. -/
def curve? (s : Scope) (port : String) : Except Fault (Option Curve) :=
  match s.source? port with
  | some n => do
    if (← n.typeName "Curve") = "Manual" then
      Curve.ofJson? (Json.field (← n.fields.members) "Points")
    else
      return none
  | none => .ok none

/-- Values mapped along the curve of a port; without one they stay as they are. -/
def alongCurve (s : Scope) (port : String) (values : List Float) : Except Fault (List Float) := do
  match ← s.curve? port with
  | some c => return c.values values
  | none => return values

end Scope

end Density

end AssetCanvas
