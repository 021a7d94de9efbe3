import SoapTypes.Catalog.Build
import SoapTypes.Primitive
import SoapTypes.Text.Identifier

/-!
# Output files

The blocks of text of every file that a catalog asks for: imports first, then the declarations of
types, the interface of the endpoint, and its namespaces.

* `typeReferences` lists the names that a text uses as types of fields.
-/

namespace SoapTypes

/-- A file with the blocks of its text. -/
structure OutputFile where
  file : String
  blocks : List String
  deriving DecidableEq, Repr

/-! ### References to types -/

/-- A character behind the first one of a name of a type, which may be qualified. -/
def isTypeNamePart (c : Char) : Bool := Text.isIdentifierPart c || c == '.'

/-- Whether what stands behind a name ends a field type: any number of array suffixes, and then a
semicolon or a closing bracket. -/
def endsFieldType : List Char → Bool
  | '[' :: ']' :: cs => endsFieldType cs
  | c :: _ => c == ';' || c == '>'
  | [] => false

/-- The name at the head of a list of characters, if it is used as the type of a field. -/
def fieldTypeName? : List Char → Option (List Char)
  | [] => none
  | c :: cs =>
    if Text.isIdentifierStart c && endsFieldType (cs.dropWhile isTypeNamePart) then
      some (c :: cs.takeWhile isTypeNamePart)
    else none

/-- What stands in front of the type of a field. -/
def typeIntroductions : List (List Char) := [": ".toList, "Array<".toList]

/-- The introduction at the head of a list of characters and the field type behind it. -/
def introducedType? (cs : List Char) : Option (List Char × List Char) :=
  typeIntroductions.findSome? fun introduction =>
    if introduction.isPrefixOf cs then
      (fieldTypeName? (cs.drop introduction.length)).map fun name => (introduction, name)
    else none

/-- All names that stand as types of fields in a text, in order; the first `skip` characters belong
to the name before. -/
def fieldTypesFrom : (skip : Nat) → List Char → List String
  | _, [] => []
  | skip + 1, _ :: cs => fieldTypesFrom skip cs
  | 0, c :: cs =>
    match introducedType? (c :: cs) with
    | some (introduction, name) =>
      String.ofList name :: fieldTypesFrom (introduction.length + name.length - 1) cs
    | none => fieldTypesFrom 0 cs

/-- Add what is new of some names behind others. -/
def addNew (names more : List String) : List String :=
  more.foldl (fun acc name => if acc.contains name then acc else acc ++ [name]) names

/-- The names that a text uses as types of fields and that are no primitives, in the order of their
first use. -/
def typeReferences (text : String) : List String :=
  addNew [] ((fieldTypesFrom 0 text.toList).filter fun name => !Primitive.names.contains name)

namespace Catalog

/-! ### Blocks -/

/-- The module that holds the types that all endpoints have in common. -/
def typesModule : String := "../Types"

/-- The import of names from the module of common types. -/
def importBlock (names : List String) : String :=
  "import \x7b " ++ Text.joinWith ", " names ++ " \x7d from '" ++ typesModule ++ "';"

/-- The import of the client that the interface of an endpoint extends. -/
def clientImport : String := "import \x7b Client \x7d from 'soap';"

/-- Lines between the braces behind a heading. -/
def bracedBlock (heading : String) (members : List String) : String :=
  heading ++ " \x7b\n" ++ Text.indentStep ++
    Text.joinWith ("\n" ++ Text.indentStep) members ++ "\n\x7d"

/-- The interface of the methods of an endpoint. -/
def interfaceBlock (endpoint : String) (methods : Entries String) : String :=
  bracedBlock ("export interface I" ++ endpoint ++ "Soap extends Client")
    (methods.map fun entry => entry.1 ++ ": " ++ entry.2 ++ ";")

/-- A namespace with its declarations; none is written for a namespace without declarations. -/
def namespaceBlock? (entry : String × Entries String) : Option String :=
  if entry.2.isEmpty then none
  else some (bracedBlock ("export namespace " ++ entry.1) (entry.2.values.map Text.indent))

/-- The block of a type: its declaration, or its body if that is finished text. -/
def typeBlock (entry : String × String) : String :=
  if entry.1 = finishedText then entry.2 else declaration entry.1 entry.2

/-- The part of a qualified name in front of its first dot. -/
def qualifier (name : String) : String := (Text.pieces '.' name).1

/-- The names to import for some texts: those that they refer to, except into the namespaces of the
file itself. -/
def importsOf (namespaces : Namespaces) (texts : List String) : List String :=
  addNew [] (texts.flatMap fun text =>
    (typeReferences text).filter fun name => !namespaces.has (qualifier name))

/-- The texts of an endpoint in which references to types are looked for. -/
def referringTexts (types : Entries String) (namespaces : Namespaces) : List String :=
  Entries.values (types.filter fun entry => entry.1 ≠ finishedText) ++
    namespaces.values.flatMap Entries.values

/-- The blocks of an endpoint. -/
def endpointBlocks (endpoint : String) (methods types : Entries String) (namespaces : Namespaces) :
    List String :=
  let imports := importsOf namespaces (referringTexts types namespaces)
  (if methods.isEmpty then [] else [clientImport]) ++
    (if imports.isEmpty then [] else [importBlock imports]) ++
    types.map typeBlock ++
    (if methods.isEmpty then [] else [interfaceBlock endpoint methods]) ++
    namespaces.filterMap namespaceBlock?

/-- The file of an endpoint. -/
def endpointOutput (catalog : Catalog) (service endpoint file : String) : OutputFile where
  file := file
  blocks := endpointBlocks endpoint ((catalog.methods.at? service endpoint).getD [])
    ((catalog.types.at? service endpoint).getD [])
    ((catalog.namespaces.at? service endpoint).getD [])

/-- All files of a catalog in order. -/
def outputs (catalog : Catalog) : List OutputFile :=
  catalog.files.flatMap fun endpoints =>
    endpoints.2.map fun entry => catalog.endpointOutput endpoints.1 entry.1 entry.2

end Catalog

/-- The text of a file: its blocks with an empty line between neighbours. -/
def OutputFile.text (output : OutputFile) : String := Text.joinWith "\n\n" output.blocks ++ "\n"

end SoapTypes
