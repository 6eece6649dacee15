import AssetCanvas.Asset
import AssetCanvas.Json.Container
import AssetCanvas.Json.Spelling

/-!
# Type labels

The label of a node is the discriminant of its asset, with a category in front where the
field that holds the asset calls for one: a curve under `Curve` is labelled `Curve:Manual`.
`Label.resolve` builds a label, `Label.strip` and `Label.category` take it apart, and
`Asset.classify` decides the label of an asset.  `Label.resolveValue`, `Label.stripValue` and
`Label.categoryValue` do the same for values that need not be texts.
-/

namespace AssetCanvas

namespace Label

/-- The character between a category and a discriminant. -/
def separator : Char := ':'

/-- The categories that fields give to the assets they hold.  An empty category stands for
a known field without one. -/
def fieldCategories : List (String × String) :=
  [("Curve", "Curve"),
    ("Pattern", "Pattern"),
    ("SubPattern", "Pattern"),
    ("PositionProvider", "Position"),
    ("Positions", "Position"),
    ("Providers", "Position"),
    ("VectorProvider", "Vector"),
    ("NewYAxis", "Vector"),
    ("MaterialProvider", "Material"),
    ("Solid", "Material"),
    ("Empty", "Material"),
    ("Low", "Material"),
    ("High", "Material"),
    ("Layers", "Material"),
    ("Material", "Material"),
    ("Scanner", "Scanner"),
    ("ChildScanner", "Scanner"),
    ("Prop", "Prop"),
    ("Floor", "Pattern"),
    ("Ceiling", "Pattern"),
    ("Surface", "Pattern"),
    ("Top", "Assignment"),
    ("Bottom", "Assignment"),
    ("Assignments", "Assignment"),
    ("ThicknessFunctionXZ", "")]

/-- The label with a category in front. -/
def withCategory (category discriminant : String) : String :=
  category ++ separator.toString ++ discriminant

/-- The category of the assets under a field; none at the top, under an unknown field, and
under a field without a category. -/
def fieldCategory? (parent : Option String) : Option String :=
  (parent.bind (Entries.find? fieldCategories)).filter (· ≠ "")

/-- The label of an asset under a field; none at the top. -/
def resolve (discriminant : String) (parent : Option String) : String :=
  match fieldCategory? parent with
  | some category => withCategory category discriminant
  | none => discriminant

/-- Whether a label has a category. -/
def hasCategory (label : String) : Bool := label.toList.contains separator

/-- The label without its category. -/
def strip (label : String) : String :=
  if hasCategory label then
    String.ofList ((label.toList.dropWhile (· ≠ separator)).drop 1)
  else
    label

/-- The category of a label; empty for a label without one. -/
def category (label : String) : String :=
  if hasCategory label then String.ofList (label.toList.takeWhile (· ≠ separator)) else ""

/-! ### Values as labels -/

/-- The name of the field that holds an asset; none for a missing or empty value, and for a key
that is no text. -/
def parentName (parent : Json) : Except Fault (Option String) :=
  if parent.truthy then do return (← parent.key).text? else .ok none

/-- The label of a value as a discriminant under a field. -/
def resolveValue (discriminant parent : Json) : Except Fault Json := do
  match fieldCategory? (← parentName parent) with
  | some category => return .str (withCategory category (← discriminant.spelled))
  | none => return discriminant

/-- The value itself, if it is no container with a separator. -/
def unseparated (v : Json) : Except Fault Json := do
  if ← v.contains (.str separator.toString) then throw .noSuchMember else return v

/-- A value as a label without its category. -/
def stripValue : Json → Except Fault Json
  | .str label => .ok (.str (strip label))
  | v => unseparated v

/-- The category of a value as a label. -/
def categoryValue : Json → Except Fault String
  | .str label => .ok (category label)
  | v => do
    let _ ← unseparated v
    return ""

/-- The label of a constant vector. -/
def vectorConstant : String := "Vector:Constant"

end Label

namespace Asset

/-- What is known of the node of an asset: its label, its discriminant as stored, and
whether it is a constant vector. -/
structure Classification where
  label : String
  assetType : Json
  isVector : Bool

/-- Whether the fields are those of a constant whose value is a vector with component `x`. -/
def isVectorConstant (fields : Fields) : Bool :=
  match Json.field fields typeKey, Json.field fields "Value" with
  | .str "Constant", .obj value =>
    !Entries.contains value typeKey && Entries.contains value "x"
  | _, _ => false

/-- The discriminant as a text; `unknown` if it is none. -/
def typeText (discriminant : Json) : String := discriminant.text?.getD "unknown"

/-- The classification of an asset found under a field. -/
def classify (fields : Fields) (parent : Option String) : Classification :=
  let assetType := Json.field fields typeKey
  if isVectorConstant fields then
    ⟨Label.vectorConstant, assetType, true⟩
  else
    ⟨Label.resolve (typeText assetType) parent, assetType, false⟩

/-- The name of the field that holds an asset, where the label depends on it. -/
def parentOf (fields : Fields) (parent : Json) : Except Fault (Option String) :=
  if isVectorConstant fields then .ok none else Label.parentName parent

end Asset

end AssetCanvas
