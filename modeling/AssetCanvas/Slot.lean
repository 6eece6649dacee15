import AssetCanvas.Label
import AssetCanvas.Port
import AssetCanvas.Port.Migration

/-!
# Slots

A slot is the place of a child in an asset: a field, or an item of an array field.  The
items of the array `Inputs` of some types have ports of their own, `Slot.namedInputs`;
other items have indexed ports.  `Slot.itemPort` is the port of an item, and `Slot.ofPort`
the slot of a port on a node.  `Slot.namesOf` and `Slot.portOf` are the named ports and the
port of an item for types, fields, indices and labels of any kind.
-/

namespace AssetCanvas.Slot

/-- The array field whose items may have named ports. -/
def arrayField : String := "Inputs"

/-- The types with one input. -/
def singleInputTypes : List String :=
  ["Negate", "CurveFunction", "CacheOnce", "Abs", "SquareRoot", "CubeMath", "CubeRoot",
    "Inverse", "Modulo", "Clamp", "SmoothClamp", "Normalizer", "LinearTransform", "FlatCache",
    "DomainWarp2D", "DomainWarp3D", "ScaledPosition", "TranslatedPosition", "RotatedPosition",
    "MirroredPosition", "QuantizedPosition", "SurfaceDensity", "TerrainMask", "BeardDensity",
    "ColumnDensity", "CaveDensity", "Debug", "Passthrough", "Wrap", "SplineFunction", "Square",
    "SumSelf", "Exported", "ImportedValue", "YOverride", "XOverride", "ZOverride", "Floor",
    "Ceiling", "AmplitudeConstant", "Pow", "SmoothCeiling", "SmoothFloor", "Anchor",
    "PositionsPinch", "PositionsTwist", "GradientDensity", "Gradient", "YGradient",
    "ClampToIndex", "DoubleNormalizer", "OffsetConstant", "Cache2D"]

/-- The types with two or three inputs, and the ports of these. -/
def severalInputTypes : List (String × List String) :=
  [("GradientWarp", ["Input", "WarpSource"]),
    ("VectorWarp", ["Input", "WarpVector"]),
    ("Amplitude", ["Input", "Amplitude"]),
    ("YSampled", ["Input", "YProvider"]),
    ("Blend", ["InputA", "InputB", "Factor"]),
    ("BlendCurve", ["InputA", "InputB", "Factor"]),
    ("Interpolate", ["InputA", "InputB", "Factor"]),
    ("Conditional", ["Condition", "TrueInput", "FalseInput"]),
    ("RangeChoice", ["Condition", "TrueInput", "FalseInput"])]

/-- The ports of the items of `Inputs`, for the types that name them. -/
def namedInputs : List (String × List String) :=
  (singleInputTypes.map fun name => (name, ["Input"])) ++ severalInputTypes

/-- The named ports of the items of an array field of a type; empty if they are indexed. -/
def portNames (assetType field : String) : List String :=
  if field = arrayField then (Entries.find? namedInputs assetType).getD [] else []

/-- Whether a label allows named ports: nodes with a category have indexed ports only. -/
def allowsNames (label : String) : Bool := Label.category label = ""

/-- The named ports of the items of an array field of a node; empty if they are indexed. -/
def names (assetType : Json) (field : Key) (label : String) : List String :=
  match assetType, field with
  | .str name, .text field => if allowsNames label then portNames name field else []
  | _, _ => []

/-- Whether the named ports of a discriminant can be looked up: it is no array and no
object, or named ports are out of the question. -/
def nameable (assetType : Json) (label : String) : Bool :=
  assetType.key?.isSome || !allowsNames label

/-- The port of the item at `index` of an array field.  Items beyond the named ports have
indexed ports. -/
def itemPort (assetType : Json) (field : Key) (index : Nat) (label : String) : String :=
  (names assetType field label)[index]?.getD (Port.slot field.spelling index)

/-! ### Values of any kind -/

/-- Whether a discriminant and a label, which may be missing, allow named ports. -/
def mayName (assetType label : Json) : Except Fault Bool :=
  if assetType.isNull then .ok false
  else if label.isNull then .ok true
  else do return (← Label.categoryValue label) = ""

/-- The named ports of the items of a field; empty if they are indexed. -/
def namesOf (assetType field label : Json) : Except Fault (List String) := do
  if ← mayName assetType label then
    match (← assetType.key).text?, (← field.key).text? with
    | some name, some field => return portNames name field
    | _, _ => return []
  else
    return []

/-- The name at an index, which counts from the end if it is negative. -/
def nameAt (names : List String) : Number → Except Fault String
  | .float _ => .error .wrongKind
  | .int n =>
    match if n < 0 then n + names.length else n with
    | .ofNat i =>
      match names[i]? with
      | some name => .ok name
      | none => .error .noSuchItem
    | .negSucc _ => .error .noSuchItem

/-- The port of the item at an index of a field.  Items beyond the named ports have indexed
ports. -/
def portOf (assetType field index label : Json) : Except Fault String := do
  let names ← namesOf assetType field label
  if names.isEmpty then
    return Port.slotOf field index
  else
    let i ← index.number
    if i.lt (.int names.length) then nameAt names i else return Port.slotOf field index

/-! ### From ports to slots -/

/-- Whether the record of array fields admits the array `Inputs`; no record admits it. -/
def recordAdmits (record : Json) : Except Fault Bool :=
  if record.isNull then .ok true else record.contains (.str arrayField)

/-- The slot of a named port on a node of a type; the field of the same name for other
ports. -/
def ofName (assetType port : String) (record : Json) : Except Fault (String × Option Nat) :=
  match (portNames assetType arrayField).idxOf? port with
  | some index => do return if ← recordAdmits record then (arrayField, some index) else (port, none)
  | none => .ok (port, none)

/-- The slot of a port with its current name. -/
def ofCurrent (assetType : Json) (port : String) (label record : Json) :
    Except Fault (String × Option Nat) := do
  match ← Port.parse port with
  | (field, some index) => return (field, some index)
  | (_, none) =>
    if ← mayName assetType label then
      match assetType with
      | .str name => ofName name port record
      | _ => return (port, none)
    else
      return (port, none)

/-- The slot of a port on a node, with the discriminant, the label and the record of array
fields of the node. -/
def ofPort (assetType port label record : Json) : Except Fault (String × Option Nat) := do
  let port ← if label.isNull then pure port else Migration.currentValue label port
  match port with
  | .str port => ofCurrent assetType port label record
  | _ => throw .wrongKind

end AssetCanvas.Slot
