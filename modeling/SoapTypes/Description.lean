import SoapTypes.FieldTree

/-!
# Service descriptions

A description gives, for every service and every endpoint of it, the operations with the field trees
of their input and output.

* `Description.decode` reads a JSON value as a description. It fails at the first value in document
  order that has the wrong form, and says where that is by the path of member names.
* `Operations.ofJson?` reads a value that nobody has checked, and is content with less.
-/

namespace SoapTypes

/-- The field trees of an operation. -/
structure Operation where
  input : Fields
  output : Fields
  deriving Inhabited

/-- The operations of an endpoint in order. -/
abbrev Operations := Entries Operation

/-- Services, their endpoints and the operations of each endpoint. -/
abbrev Description := Entries (Entries Operations)

/-- The two forms that a checked document can ask of a value. -/
inductive Container where
  | object
  | array
  deriving DecidableEq, Repr

/-- A value of the wrong form: the path to it, the form that it should have, and its type. -/
structure Misplaced where
  path : String
  expected : Container
  found : String
  deriving DecidableEq, Repr

/-- The path to a member. -/
def memberPath (path key : String) : String := path ++ "." ++ key

/-- The members of a value that has to be an object. -/
def expectObject (path : String) : Json → Except Misplaced (List (String × Json))
  | .object members => .ok members
  | value => .error ⟨path, .object, value.typeName⟩

namespace FieldTree

mutual

/-- Read the tree at a path: a text is a leaf, an object a branch. -/
def decode (path : String) : Json → Except Misplaced FieldTree
  | .text label => .ok (leaf label)
  | .object members => (decodeMembers path members).map branch
  | value => .error ⟨path, .object, value.typeName⟩

/-- Read the members of the object at a path in order. -/
def decodeMembers (path : String) :
    List (String × Json) → Except Misplaced (List (String × FieldTree))
  | [] => .ok []
  | (key, value) :: members =>
    match decode (memberPath path key) value with
    | .error misplaced => .error misplaced
    | .ok tree => (decodeMembers path members).map ((key, tree) :: ·)

end

end FieldTree

namespace Operation

/-- The names of the two directions. -/
def inputKey : String := "input"

/-- The name of the direction of results. -/
def outputKey : String := "output"

/-- Read the field tree of a direction: missing or null, it has no fields. -/
def decodeDirection (path : String) (members : List (String × Json)) (direction : String) :
    Except Misplaced Fields :=
  match Entries.value? members direction with
  | none => .ok []
  | some .null => .ok []
  | some value => do
    let path := memberPath path direction
    FieldTree.decodeMembers path (← expectObject path value)

/-- Read the operation at a path. Other members than the two directions are ignored. -/
def decode (path : String) (value : Json) : Except Misplaced Operation := do
  let members ← expectObject path value
  let input ← decodeDirection path members inputKey
  let output ← decodeDirection path members outputKey
  return ⟨input, output⟩

/-- The field tree of a direction of a value that nobody has checked: whatever is blank has no
fields. -/
def direction? (members : List (String × Json)) (direction : String) : Option Fields :=
  match Entries.value? members direction with
  | none => some []
  | some value =>
    if value.isBlank then some []
    else value.members?.bind FieldTree.membersOfJson?

/-- Read an operation that nobody has checked. -/
def ofJson? (value : Json) : Option Operation := do
  let members ← value.members?
  let input ← direction? members inputKey
  let output ← direction? members outputKey
  return ⟨input, output⟩

end Operation

/-- Read each member of an object. -/
def decodeEach {α : Type} (path : String → String) (read : String → Json → Except Misplaced α) :
    List (String × Json) → Except Misplaced (Entries α)
  | [] => .ok []
  | (key, value) :: members => do
    let first ← read (path key) value
    let others ← decodeEach path read members
    return (key, first) :: others

/-- Read each member of an object that nobody has checked. -/
def readEach {α : Type} (read : Json → Option α) : List (String × Json) → Option (Entries α)
  | [] => some []
  | (key, value) :: members => do
    let first ← read value
    let others ← readEach read members
    return (key, first) :: others

/-- Read the operations of the endpoint at a path. -/
def Operations.decode (path : String) (value : Json) : Except Misplaced Operations := do
  decodeEach (memberPath path) Operation.decode (← expectObject path value)

/-- Read the operations of an endpoint that nobody has checked. -/
def Operations.ofJson? (value : Json) : Option Operations :=
  value.members?.bind (readEach Operation.ofJson?)

namespace Description

/-- Read the endpoints of the service at a path. -/
def decodeService (path : String) (value : Json) : Except Misplaced (Entries Operations) := do
  decodeEach (memberPath path) Operations.decode (← expectObject path value)

/-- Read a document. The path of a service is its name. -/
def decode (document : List (String × Json)) : Except Misplaced Description :=
  decodeEach id decodeService document

end Description

end SoapTypes
