import SoapTypes.Proofs.LeafTexts
import SoapTypes.Proofs.WrittenLeaves

/-!
# Leaves of qualified types

A label with a display name, a base type with a prefix and possibly facet data is read into these
parts, and they alone decide what is written for the leaf: a primitive, the union of its values, or
the base type without the prefix, and a comment if there is facet data.

* `QualifiedLabel` is such a label, `QualifiedLabel.lines` are the lines that its leaf should have.
* `QualifiedLabel.lines_of_parts` says that it has them, in the text of every object.
-/

namespace SoapTypes

open Text

/-- A text is cut at the first separator behind a piece without one. -/
theorem Text.pieces_of_toList_eq {sep : Char} {text s t : String}
    (h : text.toList = s.toList ++ sep :: t.toList) (hs : sep ∉ s.toList) :
    pieces sep text = (s, allPieces sep t) := by
  rw [pieces, h, cut_append hs, allPieces_eq]
  simp

/-- A label whose base type has a prefix: its parts, which hold no separator that would end them,
and what is ignored behind the facet data. -/
structure QualifiedLabel where
  displayName : String
  ns : String
  name : String
  facetData : Option String := none
  ignored : Option String := none
  bar_displayName : '|' ∉ displayName.toList := by decide
  bar_ns : '|' ∉ ns.toList := by decide
  bar_name : '|' ∉ name.toList := by decide
  bar_facetData : ∀ data, facetData = some data → '|' ∉ data.toList := by simp
  colon_ns : ':' ∉ ns.toList := by decide
  colon_name : ':' ∉ name.toList := by decide
  bracket_ns : '<' ∉ ns.toList := by decide
  quote_ns : '"' ∉ ns.toList := by decide
  name_ne_empty : name ≠ "" := by decide
  facetData_ne_empty : facetData ≠ some "" := by simp
  facetData_of_ignored : facetData = none → ignored = none := by simp

namespace QualifiedLabel

/-- The base type with its prefix. -/
def baseType (label : QualifiedLabel) : String := label.ns ++ ":" ++ label.name

/-- What stands behind the base type. -/
def behind (label : QualifiedLabel) : String :=
  (label.facetData.elim "" fun data => "|" ++ data) ++
    label.ignored.elim "" fun ignored => "|" ++ ignored

/-- The label in one line. -/
def text (label : QualifiedLabel) : String :=
  label.displayName ++ "|" ++ label.baseType ++ label.behind

/-! ### What is written -/

/-- The values that a leaf can have: the facet data cut at its commas, without keywords of facets
unless the type is a known enumeration. -/
def values (label : QualifiedLabel) (known : KnownEnums) (qualified : String) : List String :=
  match label.facetData with
  | none => []
  | some data => (allPieces ',' data).filter fun value =>
      known.contains qualified || !Shape.facetKeywords.contains value

/-- The type of a leaf: the primitive of its base type, the union of its values, each between double
quotes, or the name of its base type. An array of a primitive has a suffix. -/
def type (label : QualifiedLabel) (known : KnownEnums) (qualified : String) (array : Bool) :
    String :=
  match Primitive.ofSchemaType? label.name with
  | some primitive => if array then primitive ++ "[]" else primitive
  | none =>
    let element := match label.values known qualified with
      | [] => label.name
      | values => joinWith " | " (values.map fun value => "\"" ++ value ++ "\"")
    if array then "Array<" ++ element ++ ">" else element

/-- The comment of a leaf with facet data. -/
def comment (label : QualifiedLabel) (qualified : String) : Option String :=
  label.facetData.map fun data => "/** " ++ qualified ++ "(" ++ data ++ ") */"

/-- The lines of a leaf under a property name: its comment, if it has one, and its type. -/
def lines (label : QualifiedLabel) (known : KnownEnums) (targetNamespace : Option String)
    (array : Bool) (property : String) : List String :=
  let qualified := Shape.qualifiedName targetNamespace label.displayName
  (label.comment qualified).toList ++
    [property ++ ": " ++ label.type known qualified array ++ ";"]

/-! ### Reading a label -/

theorem bar_baseType (label : QualifiedLabel) : '|' ∉ label.baseType.toList := by
  simp [baseType, String.toList_append, label.bar_ns, label.bar_name]

theorem baseType_ne_empty (label : QualifiedLabel) : ¬ label.baseType.isEmpty = true := by
  simp [baseType]

/-- The pieces of the base type and of what stands behind it. -/
theorem exists_allPieces_behind (label : QualifiedLabel) :
    ∃ more, allPieces '|' (label.baseType ++ label.behind) = label.baseType :: more ∧
      more.head? = label.facetData := by
  have hbase := label.bar_baseType
  cases hf : label.facetData with
  | none =>
    have hbehind : label.behind = "" := by
      rw [behind, hf, label.facetData_of_ignored hf]
      rfl
    refine ⟨[], ?_, rfl⟩
    rw [hbehind, String.append_empty, allPieces_of_not_mem hbase]
  | some data =>
    have hdata := label.bar_facetData data hf
    have hcut : ∀ rest, allPieces '|' (label.baseType ++ ("|" ++ rest)) =
        label.baseType :: allPieces '|' rest := by
      intro rest
      have hl : (label.baseType ++ ("|" ++ rest)).toList =
          label.baseType.toList ++ '|' :: rest.toList := by simp [String.toList_append]
      rw [allPieces, pieces_of_toList_eq hl hbase]
    cases hi : label.ignored with
    | none =>
      have hbehind : label.behind = "|" ++ data := by
        rw [behind, hf, hi]
        simp
      exact ⟨[data], by rw [hbehind, hcut, allPieces_of_not_mem hdata], rfl⟩
    | some ignored =>
      have hbehind : label.behind = "|" ++ (data ++ "|" ++ ignored) := by
        rw [behind, hf, hi]
        simp [String.append_assoc]
      have hl : (data ++ "|" ++ ignored).toList = data.toList ++ '|' :: ignored.toList := by
        simp [String.toList_append]
      refine ⟨data :: allPieces '|' ignored, ?_, rfl⟩
      rw [hbehind, hcut, allPieces, pieces_of_toList_eq hl hdata]

/-- A label is read into its parts. -/
theorem parse_text (label : QualifiedLabel) :
    LeafLabel.parse label.text = ⟨label.displayName, label.baseType, label.facetData⟩ := by
  have hl : label.text.toList =
      label.displayName.toList ++ '|' :: (label.baseType ++ label.behind).toList := by
    simp [text, String.toList_append]
  obtain ⟨more, hp, hm⟩ := label.exists_allPieces_behind
  have hfacets : label.facetData.bind nonempty? = label.facetData := by
    cases hf : label.facetData with
    | none => rfl
    | some data =>
      have hne : data ≠ "" := fun e => label.facetData_ne_empty (by rw [hf, e])
      simp [nonempty?, hne]
  rw [LeafLabel.parse, pieces_of_toList_eq hl label.bar_displayName, hp]
  simp [nonempty?, label.baseType_ne_empty, hm, hfacets]

/-! ### Resolving a label -/

theorem localBaseType_parse (label : QualifiedLabel) :
    (LeafLabel.parse label.text).localBaseType = label.name := by
  rw [parse_text]
  exact LeafLabel.localName_qualified label.colon_ns label.colon_name label.name_ne_empty

theorem leafLiterals_text (label : QualifiedLabel) (known : KnownEnums)
    (targetNamespace : Option String) :
    Shape.leafLiterals known targetNamespace label.text =
      label.values known (Shape.qualifiedName targetNamespace label.displayName) := by
  rw [Shape.leafLiterals, parse_text, Shape.literals, LeafLabel.facetValues, values]
  cases hf : label.facetData with
  | none => simp
  | some data =>
    have hne : data ≠ "" := fun e => label.facetData_ne_empty (by rw [hf, e])
    by_cases hk : Shape.qualifiedName targetNamespace label.displayName ∈ known
    · simp [hk, hne]
    · simp [hk, hne]

theorem leafComment_text (label : QualifiedLabel) (targetNamespace : Option String) :
    Shape.leafComment targetNamespace label.text =
      label.comment (Shape.qualifiedName targetNamespace label.displayName) := by
  rw [Shape.leafComment, parse_text]
  rfl

/-- The literals of some values, with bars between them. -/
theorem literalUnion_eq {values : List String} (h : values ≠ []) :
    Shape.literalUnion values =
      joinWith " | " (values.map fun value => "\"" ++ value ++ "\"") := by
  obtain ⟨value, values, rfl⟩ := List.exists_cons_of_ne_nil h
  rw [Shape.literalUnion]
  induction values generalizing value with
  | nil => rfl
  | cons next values ih =>
    have hnext := ih next (by simp)
    simp only [List.map_cons, joinWith_cons_cons] at hnext ⊢
    rw [← hnext, ← String.toList_inj]
    simp [String.toList_append]

/-- The lines of an object type stand between its braces, each behind one step of indentation. -/
theorem block_of_ne_nil {lines : List String} (h : lines ≠ []) :
    Shape.block lines = "\x7b\n    " ++ joinWith "\n    " lines ++ "\n\x7d" := by
  obtain ⟨line, lines, rfl⟩ := List.exists_cons_of_ne_nil h
  have hopen : "\x7b\n" ++ indentStep = "\x7b\n    " := by decide
  have hbreak : "\n" ++ indentStep = "\n    " := by decide
  rw [Shape.block, hopen, hbreak]

/-- What is written for a leaf is the type that its parts give. -/
theorem leafText_text (label : QualifiedLabel) (known : KnownEnums)
    (targetNamespace : Option String) (array : Bool) :
    Shape.leafText known targetNamespace array label.text =
      label.type known (Shape.qualifiedName targetNamespace label.displayName) array ++ ";" := by
  have hlocal := label.localBaseType_parse
  have hbase : (LeafLabel.parse label.text).baseType = label.ns ++ ":" ++ label.name := by
    rw [parse_text, baseType]
  rw [type]
  cases hp : Primitive.ofSchemaType? label.name with
  | some primitive => exact Shape.leafText_primitive (hlocal ▸ hp) array
  | none =>
    rw [← leafLiterals_text]
    cases hl : Shape.leafLiterals known targetNamespace label.text with
    | nil =>
      exact Shape.leafText_base hbase label.colon_ns label.quote_ns label.bracket_ns
        (hlocal ▸ hp) hl array
    | cons value values =>
      have hne : Shape.leafLiterals known targetNamespace label.text ≠ [] := by simp [hl]
      rw [Shape.leafText_union (hlocal ▸ hp) hne, hl, literalUnion_eq (by simp)]
      rfl

/-! ### Written leaves -/

/-- **A leaf of a qualified type is written as its parts say.** Under every property name, with
every namespace of its object, every set of known enumerations, and as an array or not, its lines
are a comment with its name and its facet data, if there are any, and its type; and these lines
stand one after the other in the text of every object that has the leaf, indented by one step like
all of its lines. -/
theorem lines_of_parts (label : QualifiedLabel) (known : KnownEnums) (quoting : Quoting) :
    (∀ targetNamespace array property,
      Shape.memberLines quoting property
          (Shape.resolveLeaf known targetNamespace array label.text) =
        label.lines known targetNamespace array (Shape.propertyName quoting property)) ∧
      ∀ references fields key, FieldTree.LastField fields key (.leaf label.text) →
        ∃ before after, Shape.lines quoting (Shape.ofFields known references fields) =
            before ++ label.lines known (FieldTree.targetNamespace? fields)
              (FieldTree.isArrayKey key) (Shape.propertyName quoting (FieldTree.fieldName key)) ++
            after ∧
          Shape.render quoting (Shape.ofFields known references fields) =
            "\x7b\n    " ++ joinWith "\n    " (before ++
              label.lines known (FieldTree.targetNamespace? fields) (FieldTree.isArrayKey key)
                (Shape.propertyName quoting (FieldTree.fieldName key)) ++ after) ++
            "\n\x7d" := by
  have hlines : ∀ targetNamespace array property,
      Shape.memberLines quoting property
          (Shape.resolveLeaf known targetNamespace array label.text) =
        label.lines known targetNamespace array (Shape.propertyName quoting property) := by
    intro targetNamespace array property
    rw [Shape.memberLines_resolveLeaf, leafComment_text, leafText_text, lines,
      ← String.append_assoc]
  refine ⟨hlines, fun references fields key hkey => ?_⟩
  have hmem : (FieldTree.fieldName key, Shape.resolveLeaf known (FieldTree.targetNamespace? fields)
      (FieldTree.isArrayKey key) label.text) ∈ Shape.ofFields known references fields :=
    Shape.mem_ofFields_iff.2 ⟨key, _, hkey, rfl, rfl⟩
  obtain ⟨before, after, hshape⟩ := List.append_of_mem hmem
  have hall : Shape.lines quoting (Shape.ofFields known references fields) =
      Shape.lines quoting before ++ label.lines known (FieldTree.targetNamespace? fields)
        (FieldTree.isArrayKey key) (Shape.propertyName quoting (FieldTree.fieldName key)) ++
      Shape.lines quoting after := by
    rw [hshape, Shape.lines_append, Shape.lines_cons, hlines, List.append_assoc]
  refine ⟨Shape.lines quoting before, Shape.lines quoting after, hall, ?_⟩
  rw [Shape.render, hall]
  exact block_of_ne_nil (by simp [lines])

/-- A label with a keyword of facets, a value that holds a colon, and a part that is ignored. -/
def stockUnit : QualifiedLabel where
  displayName := "Unit"
  ns := "tns"
  name := "Unit"
  facetData := some "length,box: 12"
  ignored := some "per item"

/-- An array of units in an object with a namespace. -/
theorem lines_of_parts_stockUnit :
    stockUnit.text = "Unit|tns:Unit|length,box: 12|per item" ∧
      Shape.memberLines .asNeeded "unit" (Shape.resolveLeaf [] (some "urn:shop") true
          stockUnit.text) =
        ["/** urn:shop#Unit(length,box: 12) */", "unit: Array<\"box: 12\">;"] ∧
      ∃ before after, Shape.lines .asNeeded (Shape.ofFields ["urn:shop#Unit"] (fun _ _ => none)
            [("targetNamespace", .leaf "urn:shop"), ("unit[]", .leaf stockUnit.text)]) =
          before ++ ["/** urn:shop#Unit(length,box: 12) */",
            "unit: Array<\"length\" | \"box: 12\">;"] ++ after ∧
        Shape.render .asNeeded (Shape.ofFields ["urn:shop#Unit"] (fun _ _ => none)
            [("targetNamespace", .leaf "urn:shop"), ("unit[]", .leaf stockUnit.text)]) =
          "\x7b\n    " ++ joinWith "\n    " (before ++ ["/** urn:shop#Unit(length,box: 12) */",
            "unit: Array<\"length\" | \"box: 12\">;"] ++ after) ++ "\n\x7d" := by
  refine ⟨by decide, ?_, ?_⟩
  · have h := (lines_of_parts stockUnit [] .asNeeded).1 (some "urn:shop") true "unit"
    exact h.trans (by decide)
  · exact (lines_of_parts stockUnit ["urn:shop#Unit"] .asNeeded).2 (fun _ _ => none)
      [("targetNamespace", .leaf "urn:shop"), ("unit[]", .leaf stockUnit.text)] "unit[]"
      (.tail (.head (by decide) (by simp)))

end QualifiedLabel

end SoapTypes
