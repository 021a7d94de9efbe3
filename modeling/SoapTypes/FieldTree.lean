import SoapTypes.Json.Value

/-!
# Field trees

The input or output of an operation as a service description gives it: an object whose members are
leaves, which carry a label, or objects again. Two member names are metadata and name no
field; a name that ends in `[]` marks an array.

* `FieldTree.toJson` writes a tree as the JSON value that it came from.
* `FieldTree.ofJson?` reads a JSON value whose branches and leaves have the right form.
-/

namespace SoapTypes

/-- A field of an operation, or the object of all of them. -/
inductive FieldTree where
  | leaf (label : String)
  | branch (members : List (String × FieldTree))
  deriving Inhabited

/-- The members of one object in order. -/
abbrev Fields := Entries FieldTree

namespace FieldTree

/-- The name of the member that gives the namespace of an object's types. -/
def targetNamespaceKey : String := "targetNamespace"

/-- The names of the members that describe an object and are no fields of it. -/
def metadataKeys : List String := ["targetNSAlias", targetNamespaceKey]

/-- Whether a member is a description of its object and no field. -/
def isMetadata (key : String) : Bool := metadataKeys.contains key

/-- The mark of an array behind a field name. -/
def arrayMark : List Char := ['[', ']']

/-- Whether a member name marks an array. -/
def isArrayKey (key : String) : Bool := arrayMark.isSuffixOf key.toList

/-- The field that a member name stands for: the name without one array mark. -/
def fieldName (key : String) : String :=
  if isArrayKey key then String.ofList (key.toList.take (key.toList.length - 2)) else key

mutual

/-- The JSON value of a tree. -/
def toJson : FieldTree → Json
  | leaf label => .text label
  | branch members => .object (membersToJson members)

/-- The JSON values of the members of a tree. -/
def membersToJson : List (String × FieldTree) → List (String × Json)
  | [] => []
  | (key, tree) :: members => (key, toJson tree) :: membersToJson members

end

/-- The namespace of the types of an object, if it gives one: the text of its metadata member. -/
def targetNamespace? (fields : Fields) : Option String :=
  match fields.value? targetNamespaceKey with
  | none => none
  | some tree => if tree.toJson.isBlank then none else some tree.toJson.asText

/-- A metadata member of any form, as the text that it would be shown as. -/
def metadataLeaf (value : Json) : FieldTree :=
  leaf (if value.isBlank then "" else value.asText)

mutual

/-- The tree that a JSON value gives, if all its fields are texts or objects again. -/
def ofJson? : Json → Option FieldTree
  | .text label => some (leaf label)
  | .object members => (membersOfJson? members).map branch
  | _ => none

/-- The members of a tree that JSON members give. -/
def membersOfJson? : List (String × Json) → Option (List (String × FieldTree))
  | [] => some []
  | (key, value) :: members =>
    if isMetadata key then (membersOfJson? members).map ((key, metadataLeaf value) :: ·)
    else
      match ofJson? value, membersOfJson? members with
      | some tree, some trees => some ((key, tree) :: trees)
      | _, _ => none

end

end FieldTree

end SoapTypes
