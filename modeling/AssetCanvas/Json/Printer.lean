import AssetCanvas.Json.Spelling

/-!
# The text of a JSON value

`Json.render` writes a value as JSON text in ASCII: on one line with a space after every
comma, or, for a text of indentation, with every item on a line of its own.  Empty arrays
and objects stay on one line in both forms.  A key that is no text is written as the text
of its value.  `Json.document` ends the text with a line feed, `Json.file` is the document of a
value whose integers can be written, and `Json.indentOf?` is the indentation that a value asks for.
-/

namespace AssetCanvas.Json

/-- A code unit of sixteen bits as an escape. -/
def unitEscape (n : Nat) : String := "\\u" ++ hex 4 n

/-- A character inside a string of JSON text. -/
def escapeChar (c : Char) : String :=
  if c = '"' then "\\\""
  else if c = '\\' then "\\\\"
  else if c = '\n' then "\\n"
  else if c = '\r' then "\\r"
  else if c = '\t' then "\\t"
  else if c.toNat = 0x0C then "\\f"
  else if c.toNat = 0x08 then "\\b"
  else if 0x20 ≤ c.toNat && c.toNat ≤ 0x7E then c.toString
  else if c.toNat < 0x10000 then unitEscape c.toNat
  else
    let n := c.toNat - 0x10000
    unitEscape (0xD800 + n / 0x400) ++ unitEscape (0xDC00 + n % 0x400)

/-- A string of JSON text. -/
def renderString (s : String) : String :=
  "\"" ++ String.join (s.toList.map escapeChar) ++ "\""

/-- A float in JSON text. -/
def renderFloat (x : Float) : String :=
  match Shortest.text? x with
  | some s => s
  | none => if x.isNaN then "NaN" else if x < 0 then "-Infinity" else "Infinity"

/-- A truth value in JSON text. -/
def renderBool (b : Bool) : String := if b then "true" else "false"

/-- A key in JSON text. -/
def renderKey : Key → String
  | .text s => renderString s
  | .null => renderString "null"
  | .bool b => renderString (renderBool b)
  | .int n => renderString (toString n)
  | .float x => renderString (renderFloat x)

/-- The break before an item at a depth of nesting, for a text of indentation. -/
def lineBreak (indent : Option String) (depth : Nat) : String :=
  match indent with
  | none => ""
  | some s => "\n" ++ String.join (List.replicate depth s)

/-- The separator of two items. -/
def comma (indent : Option String) (depth : Nat) : String :=
  match indent with
  | none => ", "
  | some _ => "," ++ lineBreak indent depth

mutual

/-- The text of a value at a depth of nesting. -/
def renderAt (indent : Option String) (depth : Nat) : Json → String
  | .null => "null"
  | .bool b => renderBool b
  | .int n => toString n
  | .float x => renderFloat x
  | .str s => renderString s
  | .arr [] => "[]"
  | .arr (v :: rest) =>
    "[" ++ lineBreak indent (depth + 1)
      ++ (comma indent (depth + 1)).intercalate
        (renderAt indent (depth + 1) v :: renderItems indent (depth + 1) rest)
      ++ lineBreak indent depth ++ "]"
  | .obj [] => "\x7b\x7d"
  | .obj ((k, v) :: rest) =>
    "\x7b" ++ lineBreak indent (depth + 1)
      ++ (comma indent (depth + 1)).intercalate
        ((renderKey k ++ ": " ++ renderAt indent (depth + 1) v)
          :: renderFields indent (depth + 1) rest)
      ++ lineBreak indent depth ++ "\x7d"

/-- The texts of the items of an array. -/
def renderItems (indent : Option String) (depth : Nat) : List Json → List String
  | [] => []
  | v :: rest => renderAt indent depth v :: renderItems indent depth rest

/-- The texts of the fields of an object. -/
def renderFields (indent : Option String) (depth : Nat) : List (Key × Json) → List String
  | [] => []
  | (k, v) :: rest =>
    (renderKey k ++ ": " ++ renderAt indent depth v) :: renderFields indent depth rest

end

/-- The text of a value. -/
def render (indent : Option String) (v : Json) : String := renderAt indent 0 v

/-- The text of a value as the content of a file. -/
def document (indent : Option String) (v : Json) : String := render indent v ++ "\n"

/-- The file of a value, which has to have a spelling. -/
def file (indent : Option String) (v : Json) : Except Fault String := do
  let _ ← v.spelled
  return document indent v

/-- The indentation of a width: no text for one line, a number of spaces, or the text itself.
A negative number stands for no spaces. -/
def indentOf? : Json → Option (Option String)
  | .null => some none
  | .bool b => some (some (if b then " " else ""))
  | .int n => some (some (String.ofList (List.replicate n.toNat ' ')))
  | .str s => some (some s)
  | _ => none

end AssetCanvas.Json
