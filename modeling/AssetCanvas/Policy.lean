import AssetCanvas.Json.Container

/-!
# Policies

A policy is a record of settings as it was written: its values are kept as they are and
read where they are used.  `LayoutPolicy` holds the prefix of node ids and the spacing of
nodes on the canvas, `EvaluationPolicy` the limits and defaults of previews.  A policy is
read from an object whose fields may carry older names, which `aliasFields` renames.
-/

namespace AssetCanvas

/-- The fields with one older name replaced by its current one: a renamed field moves to the
end, and an older name is left alone if the current one is there. -/
def renameField (fields : Fields) (older : Key) (current : Json) : Except Fault Fields :=
  match Entries.find? fields older with
  | some v => do
    let current ← current.key
    return if Entries.contains fields current then fields
      else Entries.insert (Entries.erase fields older) current v
  | none => .ok fields

/-- Whether an array has an older name but not its current one. -/
def isOutdated (items : List Json) (names : Key × Json) : Bool :=
  items.any (Json.agrees true names.1.toJson) && !items.any (Json.agrees true names.2)

/-- The fields of an object with older names replaced by the current ones. -/
def aliasFields (v : Json) (aliases : Fields) : Except Fault Fields :=
  match v with
  | .obj fields => aliases.foldlM (fun fields names => renameField fields names.1 names.2) fields
  | .arr items => .error (if aliases.any (isOutdated items) then .wrongKind else .noSuchMember)
  | _ => .error .noSuchMember

/-- Whether the text of a switch turns it on. -/
def switchedOn (text : String) : Bool :=
  ["1", "true", "yes"].contains (String.ofList (text.toList.map Char.toLower))

/-- The settings of a layout. -/
structure LayoutPolicy where
  /-- The prefix of generated node ids. -/
  idPrefix : Json := .str "graph"
  /-- The distance of a node from its parent. -/
  columnSpacing : Json := .float 300.0
  /-- The distance of two children of a node. -/
  rowSpacing : Json := .float 150.0
  /-- The distance of a disconnected tree to the right. -/
  disconnectedOffset : Json := .float 400.0
  /-- The distance of two disconnected trees. -/
  disconnectedSpacing : Json := .float 300.0
  /-- The distance of two sections. -/
  sectionSpacing : Json := .float 600.0

namespace LayoutPolicy

/-- The older names of the fields. -/
def aliases : Fields :=
  [("idPrefix", .str "id_prefix"), ("x_step", .str "column_spacing"),
    ("y_step", .str "row_spacing")]

/-- The policy of fields with current names; missing ones keep their defaults. -/
def ofFields (fields : Fields) : LayoutPolicy :=
  let standard : LayoutPolicy := {}
  let get (key : String) (d : Json) := (Entries.find? fields key).getD d
  { idPrefix := get "id_prefix" standard.idPrefix
    columnSpacing := get "column_spacing" standard.columnSpacing
    rowSpacing := get "row_spacing" standard.rowSpacing
    disconnectedOffset := get "disconnected_offset_x" standard.disconnectedOffset
    disconnectedSpacing := get "disconnected_spacing_y" standard.disconnectedSpacing
    sectionSpacing := get "section_spacing_y" standard.sectionSpacing }

/-- The policy of a value. -/
def ofJson (v : Json) : Except Fault LayoutPolicy := do return ofFields (← aliasFields v aliases)

/-- The policy as an object. -/
def toJson (p : LayoutPolicy) : Json :=
  .obj [("id_prefix", p.idPrefix), ("column_spacing", p.columnSpacing),
    ("row_spacing", p.rowSpacing), ("disconnected_offset_x", p.disconnectedOffset),
    ("disconnected_spacing_y", p.disconnectedSpacing), ("section_spacing_y", p.sectionSpacing)]

end LayoutPolicy

/-- The settings of previews. -/
structure EvaluationPolicy where
  /-- The most positions that a node hands on. -/
  maxSamples : Json := .int 10000
  /-- The spacing of a lattice without one. -/
  defaultSpacing : Json := .float 16.0
  /-- The resolution of a mesh without one. -/
  defaultResolution : Json := .float 16.0
  /-- The chance of an occurrence without one. -/
  defaultChance : Json := .float 0.5
  /-- The mode of the random source. -/
  randomMode : Json := .str "shared"
  /-- The most samples along a side of a grid. -/
  maxGridResolution : Json := .int 512

namespace EvaluationPolicy

/-- The older names of the fields. -/
def aliases : Fields :=
  [("max_positions", .str "max_samples"), ("maxSamples", .str "max_samples")]

/-- The policy of fields with current names; missing ones keep their defaults. -/
def ofFields (fields : Fields) : EvaluationPolicy :=
  let standard : EvaluationPolicy := {}
  let get (key : String) (d : Json) := (Entries.find? fields key).getD d
  { maxSamples := get "max_samples" standard.maxSamples
    defaultSpacing := get "default_spacing" standard.defaultSpacing
    defaultResolution := get "default_resolution" standard.defaultResolution
    defaultChance := get "default_chance" standard.defaultChance
    randomMode := get "rng_mode" standard.randomMode
    maxGridResolution := get "max_grid_resolution" standard.maxGridResolution }

/-- The policy of a value. -/
def ofJson (v : Json) : Except Fault EvaluationPolicy := do
  return ofFields (← aliasFields v aliases)

/-- The policy as an object. -/
def toJson (p : EvaluationPolicy) : Json :=
  .obj [("max_samples", p.maxSamples), ("default_spacing", p.defaultSpacing),
    ("default_resolution", p.defaultResolution), ("default_chance", p.defaultChance),
    ("rng_mode", p.randomMode), ("max_grid_resolution", p.maxGridResolution)]

end EvaluationPolicy

end AssetCanvas
