import SoapTypes.Schema.Node
import SoapTypes.Text.Identifier
import SoapTypes.Text.Indent
import SoapTypes.Traced

/-!
# Declarations from schema nodes

`Node.declare` writes a schema node as text of a declaration file: simple types with string
enumerations become enums, complex types become object types, extensions intersections. A node
hands the base type of the nearest restriction around them down to its children. Nodes without a
counterpart leave no text; an unknown one leaves a warning.
-/

namespace SoapTypes.Schema

/-! ### Names of types -/

/-- The namespace prefix of the types that the schema itself declares. -/
def localPrefix : String := "tns"

/-- The name of a type in a declaration file: a local type keeps its name, dates and numbers turn
into primitives, and every other name loses its prefix. -/
def typeName (name : String) : String :=
  let (ns, base) : String × String :=
    match Text.pieces ':' name with
    | (first, []) => ("", first)
    | (first, second :: _) => (first, second)
  if ns = localPrefix then base
  else if base = "dateTime" then "Date"
  else if base = "int" ∨ base = "double" ∨ base = "decimal" then "number"
  else base

/-- The types of XML schema whose elements can be written. -/
def writableTypes : List String :=
  ["xs:int", "xs:double", "xs:decimal", "xs:boolean", "xs:dateTime", "xs:string"]

/-- Whether an element of a type can be written: its type is local or one of a few others. -/
def isWritable (name : String) : Bool :=
  localPrefix.toList.isPrefixOf name.toList || writableTypes.contains name

/-- The declared form of a name that an attribute gives. -/
def declaredNameOf (value : Json) : Except Fault String :=
  if value.isBlank then .ok ""
  else
    match value with
    | .text name => .ok (Text.declaredName name)
    | _ => .error .nameNotText

/-- The type that an attribute names. -/
def typeNameOf (value : Json) : Except Fault String :=
  if value.isBlank then .ok (typeName "")
  else
    match value with
    | .text name => .ok (typeName name)
    | _ => .error .wrongKind

/-- Whether the type that an attribute names can be written. -/
def isWritableOf (value : Json) : Except Fault Bool :=
  if value.isBlank then .ok false
  else
    match value with
    | .text name => .ok (isWritable name)
    | _ => .error .wrongKind

namespace Node

/-- An element that may be missing. -/
def isOptional (node : Node) : Bool :=
  node.attrIs "nillable" "true" || node.attrIs "minOccurs" "0"

/-- An element that may repeat. -/
def isList (node : Node) : Bool :=
  node.attrIs "minOccurs" "0" && !(node.attr "maxOccurs").isBlank

/-! ### Texts of nodes -/

/-- One line below another, empty ones left out. -/
def joinLines (texts : List String) : String :=
  Text.joinWith "\n" (texts.filter fun text => !text.isEmpty)

/-- Lines between braces. -/
def braced (body : String) : String := "\x7b\n" ++ body ++ "\n\x7d"

/-- The line of an element. -/
def elementLine (node : Node) : Except Fault String := do
  let name ← declaredNameOf (node.attr "name")
  let type ← typeNameOf (node.attr "type")
  return Text.indentStep ++ name ++ (if node.isOptional then "?" else "") ++ ": " ++
    Text.declaredName type ++ (if node.isList then "[]" else "") ++ ";"

/-- The text of an element; one whose type cannot be written is skipped with a notice. -/
def elementText (node : Node) : Traced Fault String := do
  if ← Traced.ofExcept (isWritableOf (node.attr "type")) then
    Traced.ofExcept node.elementLine
  else
    Traced.notice (.debug ("Skipping element '" ++ (node.attr "name").asText ++ "' of type '" ++
      (node.attr "type").asText ++ "'"))
    return ""

/-- The line of an enumeration value. -/
def enumerationLine (node : Node) : String :=
  let value := (node.attr "value").asText
  Text.indentStep ++ value ++ " = \"" ++ value ++ "\","

mutual

/-- The text of a node, given the base type of the nearest restriction around it. -/
def declare (base : Option String) : Node → Traced Fault String
  | ⟨kind, tag, attributes, children⟩ =>
    let node : Node := ⟨kind, tag, attributes, children⟩
    match kind with
    | .simpleType => do
      let members := joinLines (← declareAll base children)
      if members.isEmpty then return ""
      let name ← Traced.ofExcept (declaredNameOf (node.attr "name"))
      return "export enum " ++ name ++ " " ++ braced members
    | .complexType => do
      let body := joinLines (← declareAll base children)
      let name ← Traced.ofExcept (declaredNameOf (node.attr "name"))
      return "export type " ++ name ++ " = " ++ (if body.isEmpty then "\x7b\x7d" else body)
    | .sequence => do
      let fields := joinLines (← declareAll base children)
      return if fields.isEmpty then "\x7b\x7d" else braced fields
    | .element => node.elementText
    | .restriction => do
      let type ← Traced.ofExcept (typeNameOf (node.attr "base"))
      return joinLines (← declareAll (some type) children)
    | .enumeration => return if base = some "string" then node.enumerationLine else ""
    | .complexContent => do
      return joinLines (← declareAll base children)
    | .extension => do
      let type ← Traced.ofExcept (typeNameOf (node.attr "base"))
      return type ++ " & " ++ joinLines (← declareAll base children)
    | .pattern => return ""
    | .unknown => do
      Traced.notice (.warning ("Unhandled schema node '" ++ tag ++ "' (" ++
        attributes.display ++ ")"))
      return ""

/-- The texts of nodes in order. -/
def declareAll (base : Option String) : List Node → Traced Fault (List String)
  | [] => return []
  | node :: nodes => do
    let text ← declare base node
    let texts ← declareAll base nodes
    return text :: texts

end

/-- The text of some nodes one below the other. -/
def declareList (base : Option String) (nodes : List Node) : Traced Fault String := do
  return joinLines (← declareAll base nodes)

/-- Whether some node has a certain kind. -/
def anyOfKind (kind : NodeKind) (nodes : List Node) : Bool :=
  nodes.any fun node => node.kind == kind

/-- Whether one of some nodes is a restriction of strings with an enumeration value below it. -/
def anyStringEnumeration : List Node → Except Fault Bool
  | [] => .ok false
  | node :: nodes =>
    if node.kind = .restriction then do
      if (← typeNameOf (node.attr "base")) = "string" && anyOfKind .enumeration node.children then
        return true
      anyStringEnumeration nodes
    else anyStringEnumeration nodes

/-- Whether a simple type enumerates strings. -/
def hasStringEnumeration (node : Node) : Except Fault Bool := anyStringEnumeration node.children

end Node

end SoapTypes.Schema
