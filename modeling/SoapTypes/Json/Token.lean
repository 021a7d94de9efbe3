import SoapTypes.Json.NumberScanner
import SoapTypes.Json.StringScanner

/-!
# Tokens of a JSON document

`Token.scan` cuts a document into its tokens, each with the position of its first character, and
stops at the first place where there is none. A faulty string is a token too: what is wrong with it
counts only where a string could stand.
-/

namespace SoapTypes.Json

/-- White space between tokens. -/
def isSpace (c : Char) : Bool := c == ' ' || c == '\t' || c == '\n' || c == '\r'

/-- The words that stand for values. -/
def words : List (String × Json) :=
  [("null", .null), ("true", .bool true), ("false", .bool false), ("NaN", .real .nan),
    ("Infinity", .real (.infinite false)), ("-Infinity", .real (.infinite true))]

/-- The word at the head of a list of characters: its value and its length. -/
def scanWord? (cs : List Char) : Option (Json × Nat) :=
  (words.find? fun word => word.1.toList.isPrefixOf cs).map fun word => (word.2, word.1.length)

/-- What a document is made of. `faulty` is a string that does not end well, `unknown` stands where
no token begins. -/
inductive Token where
  | beginArray
  | endArray
  | beginObject
  | endObject
  | colon
  | comma
  | string (value : String)
  | scalar (value : Json)
  | faulty (fault : ReadFault)
  | unknown

namespace Token

/-- The token that begins with `c` at position `pos` before `cs`, and its length. -/
def first (pos : Nat) (c : Char) (cs : List Char) : Token × Nat :=
  if c = '[' then (beginArray, 1)
  else if c = ']' then (endArray, 1)
  else if c = '\x7b' then (beginObject, 1)
  else if c = '\x7d' then (endObject, 1)
  else if c = ':' then (colon, 1)
  else if c = ',' then (comma, 1)
  else if c = '"' then
    match scanString pos 0 (pos + 1) cs with
    | .ok (value, stop) => (string (String.ofList value), stop - pos)
    | .error fault => (faulty fault, 0)
  else
    match (scanWord? (c :: cs)).or (scanNumber? (c :: cs)) with
    | some (value, length) => (scalar value, length)
    | none => (unknown, 0)

/-- The tokens of a text with their positions, up to the first place where none begins; the first
`skip` characters belong to the token before. -/
def scanFrom : (skip : Nat) → (pos : Nat) → List Char → List (Nat × Token)
  | _, _, [] => []
  | skip + 1, pos, _ :: cs => scanFrom skip (pos + 1) cs
  | 0, pos, c :: cs =>
    if isSpace c then scanFrom 0 (pos + 1) cs
    else
      match first pos c cs with
      | (token, 0) => [(pos, token)]
      | (token, length + 1) => (pos, token) :: scanFrom length (pos + 1) cs

/-- The tokens of a text with their positions. -/
def scan (cs : List Char) : List (Nat × Token) := scanFrom 0 0 cs

end Token

end SoapTypes.Json
