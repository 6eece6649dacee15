import AssetCanvas.Json.Token

/-!
# Reading JSON text

`Json.parse` reads a text that holds one JSON value.  The tokens are read from left to right
with a stack of the arrays and objects that are still open; the mode says what may come
next.  The first token that may not come decides the fault.  A key that occurs twice in an
object keeps its first place and its last value.
-/

namespace AssetCanvas.Json

/-- An open array with its items in reverse, or an open object with its fields and the key
whose value is being read. -/
inductive Frame where
  | arr (items : List Json)
  | obj (fields : Fields) (key : String)

/-- What may come next: a value, a value or the end of an empty array, a key or the end of
an empty object, a key, a colon, or what follows a finished value. -/
inductive Mode where
  | value
  | item
  | firstKey
  | nextKey (fields : Fields)
  | colon (fields : Fields) (key : String)
  | after (v : Json)

/-- The state of the reader. -/
structure ReadState where
  stack : List Frame
  mode : Mode

/-- The state after a finished value. -/
def ReadState.finish (stack : List Frame) (v : Json) : ReadState := ⟨stack, .after v⟩

/-- The state after the start of a value. -/
def ReadState.begin (stack : List Frame) : Token → Except Fault ReadState
  | .openArr => .ok ⟨stack, .item⟩
  | .openObj => .ok ⟨stack, .firstKey⟩
  | .str s => .ok (finish stack (.str s))
  | .word v => .ok (finish stack v)
  | .fault f => .error f
  | _ => .error .notJson

/-- The state after a token that follows a finished value. -/
def ReadState.follow (v : Json) : List Frame → Token → Except Fault ReadState
  | .arr items :: stack, .comma => .ok ⟨.arr (v :: items) :: stack, .value⟩
  | .arr items :: stack, .closeArr => .ok (finish stack (.arr (v :: items).reverse))
  | .obj fields key :: stack, .comma => .ok ⟨stack, .nextKey (Entries.insert fields key v)⟩
  | .obj fields key :: stack, .closeObj =>
    .ok (finish stack (.obj (Entries.insert fields key v)))
  | _, _ => .error .notJson

/-- The state after one more token. -/
def ReadState.step (s : ReadState) (token : Token) : Except Fault ReadState :=
  match s.mode, token with
  | .value, t => begin s.stack t
  | .item, .closeArr => .ok (finish s.stack (.arr []))
  | .item, t => begin (.arr [] :: s.stack) t
  | .firstKey, .closeObj => .ok (finish s.stack (.obj []))
  | .firstKey, .str key => .ok ⟨s.stack, .colon [] key⟩
  | .nextKey fields, .str key => .ok ⟨s.stack, .colon fields key⟩
  | .colon fields key, .colon => .ok ⟨.obj fields key :: s.stack, .value⟩
  | .after v, t => follow v s.stack t
  | _, _ => .error .notJson

/-- The value at the end of the tokens. -/
def ReadState.result (s : ReadState) : Except Fault Json :=
  match s.stack, s.mode with
  | [], .after v => .ok v
  | _, _ => .error .notJson

/-- The value after the rest of the tokens. -/
def ReadState.run (s : ReadState) : List Token → Except Fault Json
  | [] => s.result
  | token :: rest => do (← s.step token).run rest

/-- The value of a sequence of tokens. -/
def ofTokens (tokens : List Token) : Except Fault Json := ReadState.run ⟨[], .value⟩ tokens

/-- The value of a text. -/
def parse (text : String) : Except Fault Json := ofTokens (Token.lex text)

end AssetCanvas.Json
