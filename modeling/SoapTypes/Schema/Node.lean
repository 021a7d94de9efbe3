import SoapTypes.Fault
import SoapTypes.Schema.Attributes

/-!
# Schema nodes

A schema document is a tree of tagged nodes with attributes. A node is written in one of two ways:
its tag under `kind` and its attributes in an object, or its tag under `name` and each attribute as
a member whose name begins with `$`. The two may be mixed.
-/

namespace SoapTypes.Schema

/-- The kinds of nodes that have a meaning in a declaration file, and the kind of all others. -/
inductive NodeKind where
  | simpleType
  | complexType
  | sequence
  | element
  | restriction
  | enumeration
  | complexContent
  | extension
  | pattern
  | unknown
  deriving DecidableEq, Repr, Inhabited

namespace NodeKind

/-- The local name of the tags of a kind. -/
def tagName : NodeKind → String
  | simpleType => "simpleType"
  | complexType => "complexType"
  | sequence => "sequence"
  | element => "element"
  | restriction => "restriction"
  | enumeration => "enumeration"
  | complexContent => "complexContent"
  | extension => "extension"
  | pattern => "pattern"
  | unknown => "unknown"

/-- The name of a kind in a diagnostic. -/
def label : NodeKind → String
  | simpleType => "SIMPLE_TYPE"
  | complexType => "COMPLEX_TYPE"
  | sequence => "SEQUENCE"
  | element => "ELEMENT"
  | restriction => "RESTRICTION"
  | enumeration => "ENUMERATION"
  | complexContent => "COMPLEX_CONTENT"
  | extension => "EXTENSION"
  | pattern => "PATTERN"
  | unknown => "UNKNOWN"

/-- All kinds. -/
def all : List NodeKind :=
  [simpleType, complexType, sequence, element, restriction, enumeration, complexContent, extension,
    pattern, unknown]

/-- The part of a tag behind its last colon. -/
def localTag (tag : String) : String := (Text.allPieces ':' tag).getLastD ""

/-- The kind of the nodes with a tag; a namespace prefix does not count. -/
def ofTag (tag : String) : NodeKind :=
  (all.find? fun kind => kind.tagName == localTag tag).getD unknown

end NodeKind

/-- A node of a schema document. The values of its attributes are as the document has them. -/
structure Node where
  kind : NodeKind
  tag : String
  attributes : Attributes
  children : List Node
  deriving Inhabited

namespace Node

/-- The value of an attribute. -/
def attr? (node : Node) (name : String) : Option Json := node.attributes.value? name

/-- The value of an attribute, blank if the attribute is missing. -/
def attr (node : Node) (name : String) : Json := (node.attr? name).getD .null

/-- Whether an attribute has a certain text. -/
def attrIs (node : Node) (name text : String) : Bool :=
  match node.attr? name with
  | some (.text value) => value == text
  | _ => false

/-- A node as a diagnostic shows it. -/
def display (node : Node) : String :=
  "SchemaNode(kind=" ++ node.kind.label ++ ", tag=" ++ Text.display node.tag ++
    ", attributes=" ++ node.attributes.display ++
    ", children=" ++ toString node.children.length ++ ")"

/-! ### Reading nodes -/

/-- The value of a member, if it is there and not blank. -/
def present? (members : List (String × Json)) (key : String) : Option Json :=
  (Entries.value? members key).filter fun value => !value.isBlank

/-- The tag that the members of a node give; a blank one is empty. -/
def tagOf (members : List (String × Json)) : Except Fault String :=
  match (present? members "kind").or (present? members "name") with
  | none => .ok ""
  | some (.text tag) => .ok tag
  | some _ => .error .wrongKind

/-- The parts of an entry that is written as a sequence: the items of an array, the characters of a
text, the names of an object. -/
def entryParts? : Json → Option (List Json)
  | .array items => some items
  | .text value => some (value.toList.map fun c => .text (String.ofList [c]))
  | .object members => some (members.map fun member => .text member.1)
  | _ => none

/-- Read a sequence of entries, each of a name and a value, from the given index on. -/
def readEntries (index : Nat) : List Json → Except Fault (List (AttributeName × Json))
  | [] => .ok []
  | item :: items =>
    match entryParts? item with
    | none => .error .notASequence
    | some [name, value] =>
      match AttributeName.ofJson? name with
      | none => .error .nameWithParts
      | some name => (readEntries (index + 1) items).map ((name, value) :: ·)
    | some parts => .error (.entryLength index parts.length)

/-- The attributes that stand in a container of their own: an object, or a sequence of entries. -/
def attributesOf (value : Json) : Except Fault Attributes :=
  if value.isBlank then .ok []
  else
    match value with
    | .object members => .ok (Attributes.putAll [] (Attributes.ofMembers members))
    | .array items => (readEntries 0 items).map (Attributes.putAll [])
    | .text text => (readEntries 0 (text.toList.map fun c => .text (String.ofList [c]))).map
        (Attributes.putAll [])
    | _ => .error .notASequence

/-- The attribute that a member with a leading `$` names. -/
def dollarAttribute? (member : String × Json) : Option (AttributeName × Json) :=
  match member.1.toList with
  | '$' :: name => some (.text (String.ofList name), member.2)
  | _ => none

/-- A node with a tag; an empty tag makes it an unknown node with the tag of that kind. -/
def ofTag (tag : String) (attributes : Attributes) (children : List Node) : Node :=
  let kind := NodeKind.ofTag tag
  ⟨kind, if tag.isEmpty then kind.tagName else tag, attributes, children⟩

mutual

/-- Read a node. -/
def ofJson : Json → Except Fault Node
  | .object members => do
    let attributes ← attributesOf ((Entries.value? members "attributes").getD .null)
    let children ← childrenOf members
    let tag ← tagOf members
    return ofTag tag (attributes.putAll (members.filterMap dollarAttribute?)) children
  | _ => .error .wrongKind

/-- Read the children of a node: the items of its first member of that name. -/
def childrenOf : List (String × Json) → Except Fault (List Node)
  | [] => .ok []
  | (key, value) :: members => if key = "children" then nodesOf value else childrenOf members

/-- Read nodes that stand in a container. A blank one holds none. -/
def nodesOf : Json → Except Fault (List Node)
  | .array items => ofItems items
  | .object members => if members.isEmpty then .ok [] else .error .wrongKind
  | .text value => if value.isEmpty then .ok [] else .error .wrongKind
  | value => if value.isBlank then .ok [] else .error .notASequence

/-- Read the nodes of an array. -/
def ofItems : List Json → Except Fault (List Node)
  | [] => .ok []
  | item :: items =>
    match ofJson item with
    | .error fault => .error fault
    | .ok node => (ofItems items).map (node :: ·)

end

end Node

end SoapTypes.Schema
