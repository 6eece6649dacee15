import AssetCanvas.Preview.Inputs
import AssetCanvas.Preview.Lattice
import AssetCanvas.Preview.Root
import AssetCanvas.Graph.Walk
import AssetCanvas.Random.Source

/-!
# Position previews

`Positions.evaluate` computes the scatter positions that a node gives over a world range.
Every node hands on at most as many positions as the policy allows.  The walk carries the
ids it has not entered yet, so an input that closes a cycle gives no positions, while a
node reached on two paths is evaluated twice.  The random source is threaded through the
walk in the order of the visits.
-/

namespace AssetCanvas.Positions

/-- The types of position providers. -/
def types : List String :=
  ["Mesh2D", "Mesh3D", "SimpleHorizontal", "List", "Occurrence", "Offset", "Union", "Cache",
    "SurfaceProjection", "FieldFunction", "Conditional", "DensityBased", "Exported", "Imported"]

/-- The family of position providers. -/
def family : Family := .ofNames types "Position"

/-- The section whose root is a position provider. -/
def sectionName : String := "Positions"

/-- The ports that a node of an unknown type forwards, the preferred one first. -/
def forwardedPorts : List String := ["PositionProvider", "Input", "Inputs[0]"]

/-- What an evaluation reads: the nodes, the migrated input map, the range and the policy. -/
structure Context where
  nodes : List (String × Node)
  inputs : List (String × Inputs)
  range : WorldRange
  policy : EvaluationPolicy

/-- The context of a graph. -/
def Context.ofGraph (g : Graph) (range : WorldRange) (policy : EvaluationPolicy) :
    Except Fault Context := do
  let nodes := g.nodeMap
  return ⟨nodes, ← g.currentInputs nodes, range, policy⟩

/-- Positions that may draw from a random source. -/
abbrev Draw (α : Type) := StateT RandomSource (Except Fault) α

/-- The value of a field of a node; null for a missing one. -/
def fieldOf (n : Node) (key : String) : Except Fault Json := do
  return Json.field (← n.fields.members) key

/-- The number of a field, or a default from the policy. -/
def numberOr (n : Node) (key : String) (default : Json) : Except Fault Json := do
  match ← (← fieldOf n key).coerce? with
  | some x => return .float x
  | none => return default

/-- The lattice of a node. -/
def lattice (ctx : Context) (n : Node) (spacing jitter : Json) : Draw (List Position) := fun s => do
  let (ps, g) ← Lattice.positions ctx.range spacing jitter ctx.policy.maxSamples
    (s.generator (some n.id))
  return (ps, s.store (some n.id) g)

/-- The lattice of a node with a spacing field. -/
def spacedLattice (ctx : Context) (n : Node) (field : String) (default : Json) :
    Draw (List Position) := do
  let spacing ← numberOr n field default
  let jitter ← numberOr n "Jitter" (.float 0.0)
  lattice ctx n spacing jitter

/-- The positions of a list of points, without those out of range. -/
def listed (range : WorldRange) : List Json → Except Fault (List Position)
  | [] => .ok []
  | .obj point :: rest => do
    if Entries.contains point "x" && Entries.contains point "z" then
      let x ← (Json.field point "x").coerce 0.0
      let z ← (Json.field point "z").coerce 0.0
      let others ← listed range rest
      return if range.contains x z then ⟨x, z, 1.0⟩ :: others else others
    else
      listed range rest
  | _ :: rest => listed range rest

/-- The positions whose draw is below the chance.  There is one draw for each position. -/
def occurring (n : Node) (chance : Number) : List Position → RandomSource →
    List Position × RandomSource
  | [], s => ([], s)
  | p :: rest, s =>
    let (u, s) := s.draw (some n.id)
    let (others, s) := occurring n chance rest s
    (if Number.lt (.float u) chance then p :: others else others, s)

/-- The positions of an occurrence: the chance is looked at only where there are positions. -/
def occurrence (n : Node) (chance : Json) (ps : List Position) : Draw (List Position) := fun s =>
  match ps with
  | [] => .ok ([], s)
  | ps => do return occurring n (← chance.number) ps s

/-- The positions moved by a vector. -/
def moved (dx dz : Float) (ps : List Position) : List Position :=
  ps.map fun p => ⟨p.x + dx, p.z + dz, p.weight⟩

/-- The positions with half of the full weight. -/
def halved (ps : List Position) : List Position := ps.map fun p => ⟨p.x, p.z, 0.5⟩

/-- The positions of a node, given the evaluation of its sources. -/
def produce (ctx : Context) (n : Node) (inputs : Inputs)
    (evaluate : String → Draw (List Position)) (type : String) : Draw (List Position) :=
  let input (port : String) : Draw (List Position) :=
    match Entries.find? inputs port with
    | some source => evaluate source
    | none => pure []
  match type with
  | "Mesh2D" => spacedLattice ctx n "Resolution" ctx.policy.defaultResolution
  | "Mesh3D" => spacedLattice ctx n "Resolution" ctx.policy.defaultResolution
  | "SimpleHorizontal" => spacedLattice ctx n "Spacing" ctx.policy.defaultSpacing
  | "List" => do
    match ← fieldOf n "Positions" with
    | .arr points => listed ctx.range points
    | _ => pure []
  | "Occurrence" => do
    let chance ← numberOr n "Chance" ctx.policy.defaultChance
    occurrence n chance (← input "PositionProvider")
  | "Offset" => do
    let (dx, _, dz) ← (← fieldOf n "Offset").coerceXYZ
    return moved dx dz (← input "PositionProvider")
  | "Union" => do
    let a ← input "Providers[0]"
    let b ← input "Providers[1]"
    return a ++ b
  | "Cache" => input "PositionProvider"
  | "SurfaceProjection" => input "PositionProvider"
  | "FieldFunction" => do return halved (← input "PositionProvider")
  | "Conditional" => input "TrueInput"
  | "DensityBased" => do return halved (← lattice ctx n (.float 16.0) (.float 0.0))
  | "Exported" => input "Input"
  | "Imported" => pure []
  | _ =>
    match forwardedPorts.find? fun (port : String) => Entries.contains inputs port with
    | some port => input port
    | none => pure []

/-- The first positions of a list, as many as the limit allows; a negative limit drops
positions from the end. -/
def truncate (limit : Json) (ps : List Position) : Except Fault (List Position) := do
  let m ← limit.number
  if Number.lt m (.int ps.length) then
    match m with
    | .int m => return if 0 ≤ m then ps.take m.toNat else ps.take (ps.length - m.natAbs)
    | .float _ => .error .wrongKind
  else
    return ps

/-- The positions of an id, given the ids that the walk has not entered yet. -/
def evaluate (ctx : Context) (fresh : List String) (id : String) : Draw (List Position) :=
  if _entered : id ∈ fresh then
    match Entries.find? ctx.nodes id with
    | none => pure []
    | some n => do
      let type ← n.typeName family.category
      let inputs := (Entries.find? ctx.inputs id).getD []
      let ps ← produce ctx n inputs (fun source => evaluate ctx (Walk.without fresh id) source) type
      truncate ctx.policy.maxSamples ps
  else
    pure []
termination_by fresh.length
decreasing_by
  apply Walk.length_without_lt
  assumption

/-- The root of a position preview. -/
def root (g : Graph) (rootId : Json) : Except Fault (Option Node) :=
  g.evaluationRoot family (.str sectionName) rootId

/-- The positions of a graph over a range. -/
def ofGraph (g : Graph) (range : WorldRange) (seed rootId : Json) (policy : EvaluationPolicy) :
    Except Fault (List Position) := do
  match ← root g rootId with
  | none => return []
  | some n =>
    let source ← RandomSource.ofJson seed policy.randomMode
    let ctx ← Context.ofGraph g range policy
    return (← (evaluate ctx (Entries.keys ctx.nodes) n.id).run source).1

end AssetCanvas.Positions
