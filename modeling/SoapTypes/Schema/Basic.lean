import SoapTypes.Schema.Declaration

/-!
# Schema documents

A schema document gives nodes by namespace, group and name. The nodes of two groups are declared.

* `Schemas.check` finds the first value in document order that has the wrong form.
* `Schemas.ofJson` reads the nodes; it needs less than the check asks for.
* `Schemas.declare` writes all declarations, `Schemas.enumNames` names the enumerations.
-/

namespace SoapTypes

/-- The nodes of a schema document by namespace, group and name. -/
abbrev Schemas := Entries (Entries (Entries Schema.Node))

namespace Schemas

open Schema

/-! ### Checking -/

/-- Check the attributes of the node at a path: missing, null or an object. -/
def checkAttributes (path : String) (members : List (String × Json)) : Except Misplaced Unit :=
  match Entries.value? members "attributes" with
  | none | some .null => .ok ()
  | some value => (expectObject (memberPath path "attributes") value).map fun _ => ()

mutual

/-- Check the node at a path. -/
def checkNode (path : String) : Json → Except Misplaced Unit
  | .object members =>
    match checkAttributes path members with
    | .error misplaced => .error misplaced
    | .ok _ => checkChildren path members
  | value => .error ⟨path, .object, value.typeName⟩

/-- Check the children of a node: its first member of that name is null or an array of nodes. -/
def checkChildren (path : String) : List (String × Json) → Except Misplaced Unit
  | [] => .ok ()
  | (key, value) :: members =>
    if key = "children" then checkContainer (memberPath path "children") value
    else checkChildren path members

/-- Check a value that has to be null or an array of nodes. -/
def checkContainer (path : String) : Json → Except Misplaced Unit
  | .null => .ok ()
  | .array items => checkItems path 0 items
  | value => .error ⟨path, .array, value.typeName⟩

/-- Check nodes of an array from the given index on. -/
def checkItems (path : String) (index : Nat) : List Json → Except Misplaced Unit
  | [] => .ok ()
  | item :: items =>
    match checkNode (path ++ "[" ++ toString index ++ "]") item with
    | .error misplaced => .error misplaced
    | .ok _ => checkItems path (index + 1) items

end

/-- Check each member of an object; a blank value counts as an object without members. -/
def checkEach (path : String → String) (check : String → Json → Except Misplaced Unit) :
    List (String × Json) → Except Misplaced Unit
  | [] => .ok ()
  | (key, value) :: members => do
    check (path key) value
    checkEach path check members

/-- The members of a value that has to be blank or an object. -/
def expectMembers (path : String) (value : Json) : Except Misplaced (List (String × Json)) :=
  if value.isBlank then .ok [] else expectObject path value

/-- Check the nodes of the group at a path. -/
def checkGroup (path : String) (value : Json) : Except Misplaced Unit := do
  checkEach (memberPath path) checkNode (← expectMembers path value)

/-- Check the groups of the namespace at a path. -/
def checkNamespace (path : String) (value : Json) : Except Misplaced Unit := do
  checkEach (memberPath path) checkGroup (← expectMembers path value)

/-- Check a document. The path of a namespace is its name. -/
def check (document : List (String × Json)) : Except Misplaced Unit :=
  checkEach id checkNamespace document

/-! ### Reading -/

/-- Read each member of an object; a blank value counts as an object without members. -/
def readEach {α : Type} (read : Json → Except Fault α) (value : Json) : Except Fault (Entries α) :=
  if value.isBlank then .ok []
  else
    match value with
    | .object members => members.mapM fun (key, member) => do return (key, ← read member)
    | _ => .error .wrongKind

/-- Read the nodes of a document. -/
def ofMembers (document : List (String × Json)) : Except Fault Schemas :=
  document.mapM fun (key, groups) => do return (key, ← readEach (readEach Node.ofJson) groups)

/-- Read the nodes of a value that nobody has checked. -/
def ofJson : Json → Except Fault Schemas
  | .object members => ofMembers members
  | _ => .error .wrongKind

/-! ### Declaring -/

/-- The group of simple types. -/
def simpleGroup : String := "types"

/-- The groups that are declared, in this order. -/
def groups : List String := [simpleGroup, "complexTypes"]

/-- The nodes of a group of a namespace. -/
def group (ofNamespace : Entries (Entries Node)) (name : String) : Entries Node :=
  (ofNamespace.value? name).getD []

/-- The nodes that are declared, in the order of their declarations. -/
def declaredNodes (schemas : Schemas) : List Node :=
  schemas.flatMap fun entry => groups.flatMap fun name => (group entry.2 name).values

/-- All declarations, with an empty line between neighbours. -/
def declare (schemas : Schemas) : Traced Fault String := do
  let texts ← Node.declareAll none schemas.declaredNodes
  return Text.joinWith "\n\n" (texts.filter fun text => !text.isEmpty)

/-- The simple types of a document with their namespaces and names. -/
def simpleTypes (schemas : Schemas) : List (String × String × Node) :=
  schemas.flatMap fun entry => (group entry.2 simpleGroup).map fun node => (entry.1, node)

/-- The qualified name of a node: its own name, or the one under which the document has it. -/
def qualifiedName (targetNamespace key : String) (node : Node) : String :=
  let name := node.attr "name"
  targetNamespace ++ "#" ++ (if name.isBlank then key else name.asText)

/-- The qualified names of the enumerations among some simple types. -/
def enumNamesAmong : List (String × String × Node) → Except Fault (List String)
  | [] => .ok []
  | (targetNamespace, key, node) :: others => do
    let isEnum ← if node.kind = .simpleType then node.hasStringEnumeration else .ok false
    let names ← enumNamesAmong others
    return if isEnum then qualifiedName targetNamespace key node :: names else names

/-- The qualified names of the simple types that become enums. -/
def enumNames (schemas : Schemas) : Except Fault (List String) := enumNamesAmong schemas.simpleTypes

end Schemas

end SoapTypes
