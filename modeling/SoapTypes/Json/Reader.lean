import SoapTypes.Json.Token

/-!
# Reading JSON documents

`Json.read?` reads a text as one JSON value. The reader takes the tokens one by one and keeps the
containers that are open; a fault names the first token that cannot follow what was read. A member
name that repeats keeps its first place and its last value.
-/

namespace SoapTypes.Json

/-- A container that is open while one of its values is read. -/
inductive Frame where
  /-- An array with the items before the value, the last one first. -/
  | array (items : List Json)
  /-- An object with the members before the value, and the name of the value. -/
  | object (members : Entries Json) (name : String)

/-- What may come next, and which containers are open around it, the innermost first. -/
inductive Reading where
  | awaitValue (stack : List Frame)
  | awaitName (members : Entries Json) (stack : List Frame)
  | awaitColon (members : Entries Json) (name : String) (stack : List Frame)
  | complete (value : Json) (stack : List Frame)

namespace Reading

/-- Read a token where a value has to stand. Right behind its bracket an array may end. -/
def stepValue (stack : List Frame) (pos : Nat) : Token → Except ReadFault Reading
  | .string value => .ok (.complete (.text value) stack)
  | .scalar value => .ok (.complete value stack)
  | .beginArray => .ok (.awaitValue (.array [] :: stack))
  | .beginObject => .ok (.awaitName [] stack)
  | .faulty fault => .error fault
  | .endArray =>
    match stack with
    | .array [] :: outer => .ok (.complete (.array []) outer)
    | _ => .error ⟨.expectingValue, pos⟩
  | _ => .error ⟨.expectingValue, pos⟩

/-- Read a token where a member name has to stand. Right behind its brace an object may end. -/
def stepName (members : Entries Json) (stack : List Frame) (pos : Nat) :
    Token → Except ReadFault Reading
  | .string name => .ok (.awaitColon members name stack)
  | .faulty fault => .error fault
  | .endObject =>
    if members.isEmpty then .ok (.complete (.object []) stack) else .error ⟨.expectingName, pos⟩
  | _ => .error ⟨.expectingName, pos⟩

/-- Read a token behind a value. -/
def stepComplete (value : Json) (stack : List Frame) (pos : Nat) (token : Token) :
    Except ReadFault Reading :=
  match stack, token with
  | [], _ => .error ⟨.extraData, pos⟩
  | .array items :: outer, .comma => .ok (.awaitValue (.array (value :: items) :: outer))
  | .array items :: outer, .endArray => .ok (.complete (.array (value :: items).reverse) outer)
  | .object members name :: outer, .comma => .ok (.awaitName (members.put name value) outer)
  | .object members name :: outer, .endObject =>
    .ok (.complete (.object (members.put name value)) outer)
  | _, _ => .error ⟨.expectingComma, pos⟩

/-- Read the token at position `pos`. -/
def step (reading : Reading) (pos : Nat) (token : Token) : Except ReadFault Reading :=
  match reading with
  | .awaitValue stack => stepValue stack pos token
  | .awaitName members stack => stepName members stack pos token
  | .awaitColon members name stack =>
    match token with
    | .colon => .ok (.awaitValue (.object members name :: stack))
    | _ => .error ⟨.expectingColon, pos⟩
  | .complete value stack => stepComplete value stack pos token

/-- The value of a document that ends at position `pos`. -/
def finish (pos : Nat) : Reading → Except ReadFault Json
  | .awaitValue _ => .error ⟨.expectingValue, pos⟩
  | .awaitName _ _ => .error ⟨.expectingName, pos⟩
  | .awaitColon _ _ _ => .error ⟨.expectingColon, pos⟩
  | .complete value [] => .ok value
  | .complete _ (_ :: _) => .error ⟨.expectingComma, pos⟩

/-- Read the tokens of a document of the given length. -/
def run (length : Nat) : List (Nat × Token) → Reading → Except ReadFault Json
  | [], reading => reading.finish length
  | (pos, token) :: tokens, reading =>
    match reading.step pos token with
    | .ok next => run length tokens next
    | .error fault => .error fault

end Reading

/-- The JSON value that a text writes. A byte order mark is no white space. -/
def read? (text : String) : Except ReadFault Json :=
  let cs := text.toList
  if cs.head? = some '\ufeff' then .error ⟨.byteOrderMark, 0⟩
  else Reading.run cs.length (Token.scan cs) (.awaitValue [])

/-- The line of a position, counted from one. -/
def lineOf (cs : List Char) (position : Nat) : Nat := (cs.take position).count '\n' + 1

/-- The column of a position in its line, counted from one. -/
def columnOf (cs : List Char) (position : Nat) : Nat :=
  ((cs.take position).reverse.takeWhile fun c => c != '\n').length + 1

/-- The wording of a fault in a text: the complaint and its place by line, column and position. -/
def ReadFault.message (fault : ReadFault) (text : String) : String :=
  let cs := text.toList
  fault.complaint.message ++ ": line " ++ toString (lineOf cs fault.position) ++ " column " ++
    toString (columnOf cs fault.position) ++ " (char " ++ toString fault.position ++ ")"

end SoapTypes.Json
