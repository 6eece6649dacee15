import AssetCanvas.Json
import AssetCanvas.Fault
import AssetCanvas.Text.Digit
import AssetCanvas.Number.Numeral
import AssetCanvas.Json.Spelling

/-!
# Versions of the port tables

Serialised graphs are stamped with the version of the tables by which their ports are named.
`TableVersion.parse` reads a version, `TableVersion.compatible` says whether a graph with one
version can be read under another, and `TableVersion.check` lists the reasons against a
stamp.  A stamp of a deprecated release line is accepted with a warning.
-/

namespace AssetCanvas

/-- A version; no patch stands for any patch. -/
structure TableVersion where
  major : Nat
  minor : Nat
  patch : Option Nat
  deriving DecidableEq, Repr

namespace TableVersion

/-- The name of the tables. -/
def tableName : String := "assetgraph_handles"

/-- The current version of the tables. -/
def current : String := "1.1.0"

/-- A released version: its text, the versions whose graphs it reads, and whether it is
deprecated. -/
structure Release where
  version : String
  reads : List String
  deprecated : Bool

/-- The released versions. -/
def releases : List Release :=
  [⟨"1.0.0", ["1.0.x"], true⟩, ⟨"1.1.0", ["1.1.x", "1.0.x"], false⟩]

/-- The text without one line feed at its end. -/
def dropLineEnd (cs : List Char) : List Char :=
  if cs.getLast? = some '\n' then cs.dropLast else cs

/-- The three parts of a version text: two numbers, and a part of digits and letters `x`. -/
def parts? (text : String) : Option (List Char × List Char × List Char) :=
  let cs := dropLineEnd text.toList
  let major := cs.takeWhile Digit.isDigit
  match cs.dropWhile Digit.isDigit with
  | '.' :: rest =>
    let minor := rest.takeWhile Digit.isDigit
    match rest.dropWhile Digit.isDigit with
    | '.' :: patch =>
      if !major.isEmpty && !minor.isEmpty && !patch.isEmpty
          && patch.all (fun c => Digit.isDigit c || c = 'x') then
        some (major, minor, patch)
      else
        none
    | _ => none
  | _ => none

/-- A number of a version. -/
def number (cs : List Char) : Except Fault Nat :=
  match Numeral.natural? cs with
  | some n => .ok n
  | none => .error .unusableValue

/-- The version of a text. -/
def parse (text : String) : Except Fault TableVersion :=
  match parts? text with
  | none => .error (.notAVersion text)
  | some (major, minor, patch) => do
    let major ← number major
    let minor ← number minor
    let patch ← if patch = ['x'] then pure none else some <$> number patch
    return ⟨major, minor, patch⟩

/-- The version of a value. -/
def ofJson : Json → Except Fault TableVersion
  | .str text => parse text
  | _ => .error .wrongKind

/-- Whether `v` matches the pattern `p`: equal, or equal up to the patch if `p` has none. -/
def matchesPattern (v p : TableVersion) : Bool :=
  v.major = p.major && v.minor = p.minor && (p.patch.isNone || p.patch = v.patch)

/-- Whether the text `pattern` is a pattern that `v` matches. -/
def matchesText (v : TableVersion) (pattern : String) : Bool :=
  match parse pattern with
  | .ok p => v.matchesPattern p
  | .error _ => false

/-- Whether graphs stamped with `version` can be read under the version `target`. -/
def compatible (version target : Json) : Except Fault Bool :=
  match version with
  | .str text =>
    match parse text with
    | .error _ => .ok false
    | .ok v =>
      match target with
      | .str target =>
        .ok (text = target
          || (releases.filter fun r => r.version = target).any fun r => r.reads.any v.matchesText)
      | other => if other.key?.isSome then .ok false else .error .wrongKind
  | _ => .error .wrongKind

/-- Whether a version text belongs to a deprecated release line. -/
def deprecatedText (text : String) : Bool :=
  match parse text with
  | .error _ => false
  | .ok v =>
    match releases.find? fun r =>
        match parse r.version with
        | .ok l => v.major = l.major && v.minor = l.minor
        | .error _ => false with
    | some r => r.deprecated
    | none => false

/-- Whether `version` belongs to a deprecated release line. -/
def deprecated : Json → Except Fault Bool
  | .str text => .ok (deprecatedText text)
  | _ => .error .wrongKind

/-- The reasons against a stamp; none against a missing one. -/
def check : Json → List String
  | .null => []
  | .str text =>
    match compatible (.str text) (.str current) with
    | .ok true => []
    | _ => [s!"table version '{text}' is not compatible with supported version '{current}'"]
  | v =>
    let kind := v.kindName
    [s!"table version must be a string, got {kind}"]

/-- The warnings that checking a stamp gives. -/
def checkWarnings : Json → List String
  | .str text =>
    if (check (.str text)).isEmpty && deprecatedText text then
      [s!"Table version '{text}' is deprecated; legacy ports will be migrated to '{current}'"]
    else
      []
  | _ => []

end TableVersion

/-- The table stamp of a serialised graph. -/
structure TableStamp where
  name : Json := .str TableVersion.tableName
  version : Json := .str TableVersion.current
  compatibleWith : Json := .arr []

namespace TableStamp

/-- The stamp of an object; missing entries get the values of the current tables. -/
def ofFields (fields : Fields) : TableStamp :=
  { name := (Entries.find? fields "name").getD (.str TableVersion.tableName)
    version := (Entries.find? fields "version").getD (.str TableVersion.current)
    compatibleWith := (Entries.find? fields "compatible_with").getD (.arr []) }

/-- The stamp as an object. -/
def toJson (s : TableStamp) : Json :=
  .obj [("name", s.name), ("version", s.version), ("compatible_with", s.compatibleWith)]

end TableStamp

end AssetCanvas
