/-!
# Faults

`Fault` lists the causes for which an operation has no answer.  A cause carries what its
wording needs; `Fault.message` is that wording.
-/

namespace AssetCanvas

/-- The cause of a failed operation. -/
inductive Fault where
  /-- An asset was expected, but the value is of another kind. -/
  | notAnAsset (kind : String)
  /-- The table stamp of a graph cannot be read. -/
  | unreadableTable (reasons : List String)
  /-- A graph was expected, but the value is of another kind. -/
  | notAGraph (kind : String)
  /-- The nodes or the edges of a graph are not arrays. -/
  | entriesNotArrays
  /-- A node or an edge of a graph lacks the required entry `key`. -/
  | missingEntry (key : String)
  /-- A node or an edge of a graph, or a part of one, has the wrong shape. -/
  | malformedEntry
  /-- A text is not a version. -/
  | notAVersion (text : String)
  /-- A text names no mode of the random source. -/
  | unknownRandomMode (text : String)
  /-- A value of the right kind stands for no number, size or integer. -/
  | unusableValue
  /-- A number lies outside the range of its target. -/
  | outOfRange
  /-- A division by zero. -/
  | divisionByZero
  /-- A value of the wrong kind. -/
  | wrongKind
  /-- A value of a kind without the requested member. -/
  | noSuchMember
  /-- A position beyond the ends of a list. -/
  | noSuchItem
  /-- The required entry `key` is missing. -/
  | missingKey (key : String)
  /-- A text is not a JSON document. -/
  | notJson
  deriving DecidableEq, Repr

/-- The wording of a fault, for the faults that have one. -/
def Fault.message : Fault → Option String
  | .notAnAsset kind => some s!"Asset must be a mapping, got {kind}"
  | .unreadableTable reasons => some ("; ".intercalate reasons)
  | .notAGraph kind => some s!"Graph payload must be a dict, got {kind}"
  | .entriesNotArrays => some "Graph payload 'nodes' and 'edges' must be lists"
  | .missingEntry key => some s!"Malformed graph entry: '{key}'"
  | .malformedEntry => some "Malformed graph entry"
  | .notAVersion text => some s!"Invalid version format: {text}"
  | .unknownRandomMode text =>
    some s!"Unknown rng_mode '{text}', expected 'shared' or 'per_node'"
  | _ => none

end AssetCanvas
