import AssetCanvas.Json

/-!
# Assets

An asset is an object with the discriminant key `Type`.  The value of any other key is a
field of one of the kinds of `FieldKind`: a nested asset, an array of assets, a vector, an
array of plain values, or a scalar.  The reserved key `disconnectedKey` holds a list of
assets that no other asset refers to.
-/

namespace AssetCanvas

namespace Asset

/-- The key of the discriminant. -/
def typeKey : String := "Type"

/-- The key of the list of assets that no other asset refers to. -/
def disconnectedKey : String := "$DisconnectedTrees"

end Asset

/-- The shape of a field value. -/
inductive FieldKind where
  | scalar
  | vector
  | asset
  | assetArray
  | scalarArray
  deriving DecidableEq, Repr

/-- The name of a kind. -/
def FieldKind.name : FieldKind → String
  | .scalar => "scalar"
  | .vector => "vector"
  | .asset => "asset"
  | .assetArray => "asset_array"
  | .scalarArray => "scalar_array"

namespace Json

/-- Whether a value is an asset. -/
def isAsset : Json → Bool
  | .obj fields => Entries.contains fields Asset.typeKey
  | _ => false

/-- The kind of a field value.  An array counts as an array of assets only if it has items
and all of them are assets. -/
def kind : Json → FieldKind
  | .obj fields => if Entries.contains fields Asset.typeKey then .asset else .vector
  | .arr items => if !items.isEmpty && items.all isAsset then .assetArray else .scalarArray
  | _ => .scalar

theorem kind_eq_asset_iff (v : Json) :
  v.kind = .asset ↔ v.isAsset = true
  := by
  cases v with
  | obj fields => by_cases h : Entries.contains fields Asset.typeKey <;> simp [kind, isAsset, h]
  | arr items =>
    by_cases h : (!items.isEmpty && items.all isAsset) = true <;> simp [kind, isAsset, h]
  | _ => simp [kind, isAsset]

end Json

end AssetCanvas
