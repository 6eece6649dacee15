import AssetCanvas.Json.Equality

/-!
# Values as containers

A loosely typed value may be used as a key, as an object with members, as a list of items or
as something that contains others.  `Json.key`, `Json.members`, `Json.items` and
`Json.contains` do so, with a fault where the kind of the value does not allow it.
-/

namespace AssetCanvas.Json

/-- The key that a value stands for; a value with parts is none. -/
def key (v : Json) : Except Fault Key :=
  match v.key? with
  | some k => .ok k
  | none => .error .wrongKind

/-- The fields of an object. -/
def members : Json → Except Fault Fields
  | .obj fields => .ok fields
  | _ => .error .noSuchMember

/-- The value of a required entry. -/
def required (fields : Fields) (key : String) : Except Fault Json :=
  match Entries.find? fields key with
  | some v => .ok v
  | none => .error (.missingKey key)

/-- The items of an array, the keys of an object, or the characters of a text. -/
def items : Json → Except Fault (List Json)
  | .arr items => .ok items
  | .obj fields => .ok (fields.map fun f => f.1.toJson)
  | .str s => .ok (s.toList.map fun c => .str c.toString)
  | _ => .error .wrongKind

/-- The two items of a pair. -/
def pair (v : Json) : Except Fault (Json × Json) := do
  match ← v.items with
  | [a, b] => return (a, b)
  | _ => throw .unusableValue

/-- Whether a text occurs in another one. -/
def occursIn (part : List Char) : List Char → Bool
  | [] => part.isEmpty
  | c :: rest => part.isPrefixOf (c :: rest) || occursIn part rest

/-- Whether an array has an item, an object a key, or a text a part. -/
def contains (v part : Json) : Except Fault Bool :=
  match v with
  | .arr items => .ok (items.any fun item => agrees true item part)
  | .obj fields => do return Entries.contains fields (← part.key)
  | .str s =>
    match part with
    | .str t => .ok (occursIn t.toList s.toList)
    | _ => .error .wrongKind
  | _ => .error .wrongKind

end AssetCanvas.Json
