import AssetCanvas.Asset
import AssetCanvas.Json.Spelling
import AssetCanvas.Fault

/-!
# Validation of assets

`Asset.problems` lists what is wrong with an asset tree: discriminants that are missing or
not texts, arrays that mix assets and plain values, and misuse of the reserved key.  Every
message starts with the path of the place it speaks of, so the names on the paths that are visited
must have a spelling.
-/

namespace AssetCanvas.Asset

/-- The problems of a discriminant; a null counts as missing. -/
def typeProblems (path : String) (discriminant : Json) : List String :=
  match discriminant with
  | .null => [s!"{path}: asset missing '{typeKey}' field"]
  | .str _ => []
  | v =>
    let kind := v.kindName
    [s!"{path}: '{typeKey}' must be a string, got {kind}"]

/-- The path of the item at `index`. -/
def itemPath (path : String) (index : Nat) : String := s!"{path}[{index}]"

/-- The path of the field under `key`. -/
def fieldPath (path : String) (key : Key) : String :=
  let key := key.spelling
  s!"{path}.{key}"

mutual

/-- The problems of an asset at `path`. -/
def problemsAt (path : String) : Json → List String
  | .obj fields => typeProblems path (Json.field fields typeKey) ++ fieldProblems path fields
  | v =>
    let kind := v.kindName
    [s!"{path}: asset must be a mapping, got {kind}"]

/-- The problems of the fields of the asset at `path`. -/
def fieldProblems (path : String) : List (Key × Json) → List String
  | [] => []
  | (key, v) :: rest => valueProblems key (fieldPath path key) v ++ fieldProblems path rest

/-- The problems of the value of a field. -/
def valueProblems (key : Key) (path : String) : Json → List String
  | .obj fields =>
    if key == typeKey then []
    else if key == disconnectedKey then [s!"{path}: must be a list of assets"]
    else if Entries.contains fields typeKey then
      typeProblems path (Json.field fields typeKey) ++ fieldProblems path fields
    else []
  | .arr items =>
    if key == typeKey then []
    else if key == disconnectedKey then treeProblems path 0 items
    else if !items.isEmpty && items.all Json.isAsset then itemProblems path 0 items
    else if items.any Json.isAsset then
      [s!"{path}: array mixes assets and plain values; kept verbatim"]
    else []
  | _ => if key == disconnectedKey then [s!"{path}: must be a list of assets"] else []

/-- The problems of the assets of an array. -/
def itemProblems (path : String) (index : Nat) : List Json → List String
  | [] => []
  | v :: rest => problemsAt (itemPath path index) v ++ itemProblems path (index + 1) rest

/-- The problems of a list of disconnected trees. -/
def treeProblems (path : String) (index : Nat) : List Json → List String
  | [] => []
  | v :: rest =>
    let here := itemPath path index
    (if v.isAsset then problemsAt here v else [s!"{here}: disconnected tree is not an asset"])
      ++ treeProblems path (index + 1) rest

end

mutual

/-- Whether the paths that are visited below some fields of an asset have a spelling. -/
def fieldsTellable : List (Key × Json) → Bool
  | [] => true
  | (key, v) :: rest => valueTellable key v && fieldsTellable rest

/-- Whether the paths that are visited below a field have a spelling. -/
def valueTellable (key : Key) : Json → Bool
  | .obj fields =>
    if key == typeKey || key == disconnectedKey then true
    else if Entries.contains fields typeKey then key.isSpellable && fieldsTellable fields
    else true
  | .arr items =>
    if key == typeKey then true
    else if key == disconnectedKey then itemsTellable items
    else if !items.isEmpty && items.all Json.isAsset then key.isSpellable && itemsTellable items
    else if items.any Json.isAsset then key.isSpellable
    else true
  | _ => true

/-- Whether the paths that are visited below the assets of a list have a spelling. -/
def itemsTellable : List Json → Bool
  | [] => true
  | .obj fields :: rest =>
    (if Entries.contains fields typeKey then fieldsTellable fields else true)
      && itemsTellable rest
  | _ :: rest => itemsTellable rest

end

/-- The problems of an asset tree.  Malformed data is reported, not refused; only a value
that is no object, or names that cannot be told, have no answer. -/
def problems : Json → Except Fault (List String)
  | .obj fields =>
    if fieldsTellable fields then .ok (problemsAt "root" (.obj fields))
    else .error .unusableValue
  | v => .error (.notAnAsset v.kindName)

end AssetCanvas.Asset
