import AssetCanvas.Json
import AssetCanvas.Fault
import AssetCanvas.Number.Numeral

/-!
# Tokens of JSON text

`Token.lex` cuts a text into its tokens: brackets, separators, strings, and words, which are
the longest runs of the other characters.  A word begins with a number or with one of the
words for the truth values, null, infinity and no number; where it does not, or where
something is left over, there is a token for the fault.  The text is read character by
character with the state `LexState` of the token being read.
-/

namespace AssetCanvas

/-- A token of JSON text. -/
inductive Token where
  | openArr
  | closeArr
  | openObj
  | closeObj
  | colon
  | comma
  | str (s : String)
  | word (v : Json)
  /-- What cannot be read. -/
  | fault (f : Fault)

namespace Token

/-! ### Words -/

/-- The words of letters. -/
def constants : List (String × Json) :=
  [("null", .null), ("true", .bool true), ("false", .bool false),
    ("NaN", .float Binary64.notANumber), ("Infinity", .float Binary64.infinity),
    ("-Infinity", .float (-Binary64.infinity))]

/-- The word of letters at the beginning of a text, and the rest. -/
def splitConstant? (cs : List Char) : Option (Json × List Char) :=
  constants.findSome? fun (name, v) =>
    if name.toList.isPrefixOf cs then some (v, cs.drop name.length) else none

/-- The whole part of a number and the rest of a text: a zero stands alone. -/
def splitWhole : List Char → List Char × List Char
  | '0' :: rest => (['0'], rest)
  | cs => (cs.takeWhile Char.isDigit, cs.dropWhile Char.isDigit)

/-- The fraction of a number with its point, empty if there is none, and the rest. -/
def splitFraction (cs : List Char) : List Char × List Char :=
  match cs with
  | '.' :: rest =>
    let digits := rest.takeWhile Char.isDigit
    if digits.isEmpty then ([], cs) else ('.' :: digits, rest.dropWhile Char.isDigit)
  | _ => ([], cs)

/-- The sign of an exponent and the rest. -/
def splitExponentSign : List Char → List Char × List Char
  | '+' :: rest => (['+'], rest)
  | '-' :: rest => (['-'], rest)
  | cs => ([], cs)

/-- The exponent of a number with its mark, empty if there is none, and the rest. -/
def splitExponent (cs : List Char) : List Char × List Char :=
  match cs with
  | c :: rest =>
    let (sign, rest) := splitExponentSign rest
    let digits := rest.takeWhile Char.isDigit
    if (c = 'e' || c = 'E') && !digits.isEmpty then
      (c :: sign ++ digits, rest.dropWhile Char.isDigit)
    else
      ([], cs)
  | [] => ([], [])

/-- The token of an integer. -/
def ofWhole (negative : Bool) (digits : List Char) : Token :=
  match Numeral.natural? digits with
  | some n => .word (.int (if negative then -(n : Int) else n))
  | none => .fault .unusableValue

/-- The token of a number with a point or an exponent. -/
def ofDecimal (negative : Bool) (cs : List Char) : Token :=
  match Numeral.unsigned? cs with
  | some x => .word (.float (if negative then -x else x))
  | none => .fault .notJson

/-- The token of the number at the beginning of a text without sign, and the rest. -/
def splitUnsigned (negative : Bool) (cs : List Char) : Token × List Char :=
  let (whole, rest) := splitWhole cs
  let (fraction, rest) := splitFraction rest
  let (exponent, rest) := splitExponent rest
  if whole.isEmpty then (.fault .notJson, [])
  else if fraction.isEmpty && exponent.isEmpty then (ofWhole negative whole, rest)
  else (ofDecimal negative (whole ++ fraction ++ exponent), rest)

/-- The token at the beginning of a word, and the rest. -/
def splitWord (cs : List Char) : Token × List Char :=
  match splitConstant? cs with
  | some (v, rest) => (.word v, rest)
  | none =>
    match cs with
    | '-' :: rest => splitUnsigned true rest
    | _ => splitUnsigned false cs

/-- The tokens of a word: a fault follows where something is left over. -/
def ofWord (cs : List Char) : List Token :=
  let (token, rest) := splitWord cs
  if rest.isEmpty then [token] else [token, .fault .notJson]

/-! ### Strings -/

/-- The value of a hexadecimal digit. -/
def hexDigit? (c : Char) : Option Nat :=
  if c.isDigit then some (c.toNat - 0x30)
  else if 'a' ≤ c && c ≤ 'f' then some (c.toNat - 0x57)
  else if 'A' ≤ c && c ≤ 'F' then some (c.toNat - 0x37)
  else none

/-- The number of four hexadecimal digits. -/
def unit? (a b c d : Char) : Option Nat := do
  return 4096 * (← hexDigit? a) + 256 * (← hexDigit? b) + 16 * (← hexDigit? c) + (← hexDigit? d)

/-- The character of an escape of one letter. -/
def escaped? (c : Char) : Option Char :=
  if c = '"' || c = '\\' || c = '/' then some c
  else if c = 'b' then some (Char.ofNat 0x08)
  else if c = 'f' then some (Char.ofNat 0x0C)
  else if c = 'n' then some '\n'
  else if c = 'r' then some '\r'
  else if c = 't' then some '\t'
  else none

/-- The code units of the characters between two quotes, without their escapes. -/
def units? : List Char → Option (List Nat)
  | [] => some []
  | '\\' :: 'u' :: a :: b :: c :: d :: rest => do
    let n ← unit? a b c d
    return n :: (← units? rest)
  | '\\' :: c :: rest => do
    let e ← escaped? c
    return e.toNat :: (← units? rest)
  | c :: rest =>
    if c.toNat < 0x20 || c = '\\' then none else (units? rest).map (c.toNat :: ·)

/-- Whether a code unit is the first half of a pair. -/
def isHigh (n : Nat) : Bool := 0xD800 ≤ n && n < 0xDC00

/-- Whether a code unit is the second half of a pair. -/
def isLow (n : Nat) : Bool := 0xDC00 ≤ n && n < 0xE000

/-- The character of a code unit; half of a pair stands for no character. -/
def unitChar (n : Nat) : Char :=
  if isHigh n || isLow n then Char.ofNat 0xFFFD else Char.ofNat n

/-- The characters of code units, a pair for one character. -/
def ofUnits : List Nat → List Char
  | [] => []
  | [n] => [unitChar n]
  | high :: low :: rest =>
    if isHigh high && isLow low then
      Char.ofNat (0x10000 + (high - 0xD800) * 0x400 + (low - 0xDC00)) :: ofUnits rest
    else
      unitChar high :: ofUnits (low :: rest)

/-- The text of the characters between two quotes. -/
def unescape (cs : List Char) : Option (List Char) := (units? cs).map ofUnits

/-! ### Cutting a text -/

/-- The token being read, with its characters so far in reverse. -/
inductive LexState where
  | between
  | word (read : List Char)
  | quoted (read : List Char)
  | escape (read : List Char)

/-- The token of a single character. -/
def ofChar? (c : Char) : Option Token :=
  if c = '[' then some .openArr
  else if c = ']' then some .closeArr
  else if c = '\x7b' then some .openObj
  else if c = '\x7d' then some .closeObj
  else if c = ':' then some .colon
  else if c = ',' then some .comma
  else none

/-- Whether a character separates tokens. -/
def isSpace (c : Char) : Bool := c = ' ' || c = '\t' || c = '\n' || c = '\r'

/-- The state after a character outside of tokens, and the tokens with it in front. -/
def start (c : Char) (tokens : List Token) : LexState × List Token :=
  if isSpace c then (.between, tokens)
  else if c = '"' then (.quoted [], tokens)
  else
    match ofChar? c with
    | some token => (.between, token :: tokens)
    | none => (.word [c], tokens)

/-- The token of the characters between two quotes. -/
def ofQuoted (cs : List Char) : Token :=
  match unescape cs with
  | some cs => .str (String.ofList cs)
  | none => .fault .notJson

/-- The state and the tokens, in reverse, after one more character. -/
def step (c : Char) (tokens : List Token) : LexState → LexState × List Token
  | .between => start c tokens
  | .word read =>
    if isSpace c || c = '"' || (ofChar? c).isSome then
      start c ((ofWord read.reverse).reverse ++ tokens)
    else
      (.word (c :: read), tokens)
  | .quoted read =>
    if c = '"' then (.between, ofQuoted read.reverse :: tokens)
    else if c = '\\' then (.escape (c :: read), tokens)
    else (.quoted (c :: read), tokens)
  | .escape read => (.quoted (c :: read), tokens)

/-- The tokens, in reverse, at the end of a text. -/
def finish (tokens : List Token) : LexState → List Token
  | .between => tokens
  | .word read => (ofWord read.reverse).reverse ++ tokens
  | _ => .fault .notJson :: tokens

/-- The tokens of the rest of a text. -/
def lexFrom (state : LexState) (tokens : List Token) : List Char → List Token
  | [] => (finish tokens state).reverse
  | c :: rest =>
    let (state, tokens) := step c tokens state
    lexFrom state tokens rest

/-- The tokens of a text. -/
def lex (text : String) : List Token := lexFrom .between [] text.toList

end Token

end AssetCanvas
