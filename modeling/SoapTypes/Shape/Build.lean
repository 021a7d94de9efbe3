import SoapTypes.FieldTree
import SoapTypes.LeafLabel
import SoapTypes.Primitive
import SoapTypes.Shape.Basic

/-!
# From field trees to shapes

`Shape.build` resolves the leaves of a field tree and turns its branches into shapes. A branch whose
text is shared under a name becomes a reference to it; which ones are is a parameter, and
`Shape.inline` is the case in which none is. Beside the shape, `Shape.ofFields`, the branches come
out with the texts under which they could be shared, `Shape.branchTexts`.
-/

namespace SoapTypes

/-- The qualified names of the types that are known to be enumerations. -/
abbrev KnownEnums := List String

/-- The reference that stands for a branch, given its field name and its text, if it is shared. -/
abbrev References := String → String → Option String

namespace Shape

/-- The array type of an element type. -/
def arrayOf (type : String) : String :=
  if Text.isPlainElement type then type ++ "[]" else "Array<" ++ type ++ ">"

/-- Facets that restrict a type and are no values of it. -/
def facetKeywords : List String := ["length", "pattern", "minLength", "maxLength"]

/-- The union of the literals of some values. -/
def literalUnion (values : List String) : String := "\"" ++ Text.joinWith "\" | \"" values ++ "\""

/-- The name of a type in its namespace. -/
def qualifiedName (targetNamespace : Option String) (name : String) : String :=
  match targetNamespace with
  | none => name
  | some uri => uri ++ "#" ++ name

/-- The literals that a leaf can be: its facet values if it is a known enumeration, and otherwise
those that are no keyword. -/
def literals (known : KnownEnums) (qualified : String) (label : LeafLabel) : List String :=
  if known.contains qualified then label.facetValues
  else label.facetValues.filter fun value => !facetKeywords.contains value

/-- The type of a leaf that is no array: a primitive, a union of literals, or its base type. -/
def leafType (known : KnownEnums) (qualified : String) (label : LeafLabel) : String :=
  match Primitive.ofSchemaType? label.localBaseType with
  | some primitive => primitive
  | none =>
    match literals known qualified label with
    | [] => label.baseType
    | values => literalUnion values

/-- Resolve a leaf. Facet data is repeated in the comment. -/
def resolveLeaf (known : KnownEnums) (targetNamespace : Option String) (array : Bool)
    (text : String) : Member :=
  let label := LeafLabel.parse text
  let qualified := qualifiedName targetNamespace label.displayName
  let type := leafType known qualified label
  .leaf (label.facetData.map fun data => "/** " ++ qualified ++ "(" ++ data ++ ") */")
    ((if array then arrayOf type else type) ++ ";")

/-- The member of a branch with the shape `nested` and its text: a reference if the branch is
shared. An array is always written out, with the reference or the text as its element. -/
def branchMember (references : References) (array : Bool) (name : String) (nested : Shape)
    (text : String) : Member :=
  match array, references name text with
  | false, none => .nested nested
  | false, some reference => .text (reference ++ ";")
  | true, shared => .text (arrayOf (Text.indent (shared.getD text)) ++ ";")

/-- What is built, and the branches on the way with their field names and texts, inner ones
first. -/
structure Built (α : Type) where
  result : α
  branches : List (String × String)

mutual

/-- Build the member of a field. -/
def buildTree (known : KnownEnums) (references : References) (targetNamespace : Option String)
    (array : Bool) (name : String) : FieldTree → Built Member
  | .leaf text => ⟨resolveLeaf known targetNamespace array text, []⟩
  | .branch members =>
    let built := buildTrees known references (FieldTree.targetNamespace? members) members
    let nested := Entries.ofPairs built.result
    let text := render .asNeeded nested
    ⟨branchMember references array name nested text, built.branches ++ [(name, text)]⟩

/-- Build the members of an object one by one, metadata left out. -/
def buildTrees (known : KnownEnums) (references : References) (targetNamespace : Option String) :
    List (String × FieldTree) → Built (List (String × Member))
  | [] => ⟨[], []⟩
  | (key, tree) :: members =>
    let others := buildTrees known references targetNamespace members
    if FieldTree.isMetadata key then others
    else
      let name := FieldTree.fieldName key
      let first := buildTree known references targetNamespace (FieldTree.isArrayKey key) name tree
      ⟨(name, first.result) :: others.result, first.branches ++ others.branches⟩

end

/-- Build the shape of an object of fields. -/
def build (known : KnownEnums) (references : References) (fields : Fields) : Built Shape :=
  let built := buildTrees known references (FieldTree.targetNamespace? fields) fields
  ⟨Entries.ofPairs built.result, built.branches⟩

/-- The shape of an object of fields. -/
def ofFields (known : KnownEnums) (references : References) (fields : Fields) : Shape :=
  (build known references fields).result

/-- The branches below an object of fields, each with its field name and the text of its shape, in
the order in which they are finished. -/
def branchTexts (known : KnownEnums) (references : References) (fields : Fields) :
    List (String × String) :=
  (build known references fields).branches

/-- The shape of an object of fields in which every branch is written out. -/
def inline (known : KnownEnums) (fields : Fields) : Shape := ofFields known (fun _ _ => none) fields

section Equations

variable (known : KnownEnums) (references : References) (targetNamespace : Option String)

@[simp] theorem buildTree_leaf (array : Bool) (name text : String) :
    buildTree known references targetNamespace array name (.leaf text) =
      ⟨resolveLeaf known targetNamespace array text, []⟩ := rfl

/-- A branch is built like an object of its own, and is the last of the branches met in it. -/
@[simp] theorem buildTree_branch (array : Bool) (name : String)
    (members : List (String × FieldTree)) :
    buildTree known references targetNamespace array name (.branch members) =
      ⟨branchMember references array name (ofFields known references members)
          (render .asNeeded (ofFields known references members)),
        branchTexts known references members ++
          [(name, render .asNeeded (ofFields known references members))]⟩ := rfl

@[simp] theorem buildTrees_nil :
    buildTrees known references targetNamespace [] = ⟨[], []⟩ := rfl

theorem buildTrees_cons_metadata {key : String} (h : FieldTree.isMetadata key = true)
    (tree : FieldTree) (members : List (String × FieldTree)) :
    buildTrees known references targetNamespace ((key, tree) :: members) =
      buildTrees known references targetNamespace members := by
  simp [buildTrees, h]

theorem buildTrees_cons_field {key : String} (h : FieldTree.isMetadata key = false)
    (tree : FieldTree) (members : List (String × FieldTree)) :
    buildTrees known references targetNamespace ((key, tree) :: members) =
      ⟨(FieldTree.fieldName key, (buildTree known references targetNamespace
            (FieldTree.isArrayKey key) (FieldTree.fieldName key) tree).result) ::
          (buildTrees known references targetNamespace members).result,
        (buildTree known references targetNamespace (FieldTree.isArrayKey key)
            (FieldTree.fieldName key) tree).branches ++
          (buildTrees known references targetNamespace members).branches⟩ := by
  simp [buildTrees, h]

end Equations

end Shape

end SoapTypes
