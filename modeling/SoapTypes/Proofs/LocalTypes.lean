import SoapTypes.Proofs.CheckedSchemas
import SoapTypes.Proofs.LeafTexts

/-!
# The spelling of local types

Three places refer to a type that a schema itself declares: the type of an element, the base of an
extension, and the label of a leaf in a service description. The first two stand in the text of the
schema, the third one in the text of an operation.

* `Node.shown`: the nodes whose texts are parts of the text of a node.
* `Node.exists_infix_declare`: each of them does have its text there.
* `Shape.leafText_local`: how a leaf of a local type is written.
* `Schemas.local_type_spelled`: where the declared name of a type is written, and what is written
  where it is not. `Schemas.local_type_misspelled` shows types for which there are two spellings.
-/

namespace SoapTypes

open Text

/-- Each of some texts stands in the text that joins them. -/
theorem Text.infix_joinWith {sep s : String} {texts : List String} (h : s ∈ texts) :
    s.toList <:+: (joinWith sep texts).toList := by
  induction texts with
  | nil => cases h
  | cons first texts ih =>
    cases texts with
    | nil =>
      obtain rfl := List.mem_singleton.1 h
      exact List.infix_rfl
    | cons second texts =>
      simp only [joinWith_cons_cons, String.toList_append]
      rcases List.mem_cons.1 h with rfl | h
      · exact ((List.prefix_append _ _).trans (List.prefix_append _ _)).isInfix
      · exact (ih h).trans (List.suffix_append _ _).isInfix

/-- A sequence succeeds only if both parts do. -/
theorem Traced.exists_of_bind {α β : Type} {x : Traced Fault α} {f : α → Traced Fault β} {b : β}
    (h : (x >>= f).outcome = .ok b) : ∃ a, x.outcome = .ok a ∧ (f a).outcome = .ok b := by
  rw [Traced.outcome_bind] at h
  exact exists_of_bind_eq_ok h

namespace Schema

/-- The name of a local type with its prefix, as elements, extensions and leaves refer to it. -/
def localReference (name : String) : String := localPrefix ++ ":" ++ name

section Reference

variable {name : String}

theorem typeName_localReference (h : ':' ∉ name.toList) :
    typeName (localReference name) = name := by
  rw [typeName, localReference, pieces_qualified (by decide) h]
  rfl

theorem isWritable_localReference (name : String) : isWritable (localReference name) = true := by
  have h : localPrefix.toList.isPrefixOf (localReference name).toList = true := by
    rw [List.isPrefixOf_iff_prefix, localReference, String.append_assoc, String.toList_append]
    exact List.prefix_append _ _
  rw [isWritable, h, Bool.true_or]

theorem isBlank_localReference (name : String) :
    ¬ (Json.text (localReference name)).isBlank = true := by
  simp [Json.isBlank, localReference, localPrefix]

theorem typeNameOf_localReference (h : ':' ∉ name.toList) :
    typeNameOf (.text (localReference name)) = .ok name := by
  rw [typeNameOf, if_neg (isBlank_localReference name), typeName_localReference h]

theorem isWritableOf_localReference (name : String) :
    isWritableOf (.text (localReference name)) = .ok true := by
  rw [isWritableOf, if_neg (isBlank_localReference name), isWritable_localReference]

theorem declaredNameOf_text (h : name ≠ "") :
    declaredNameOf (.text name) = .ok (declaredName name) := by
  rw [declaredNameOf, if_neg]
  simpa [Json.isBlank] using h

end Reference

/-- Whether the texts of the children of a node are parts of its own text. -/
def NodeKind.showsChildren : NodeKind → Bool
  | .simpleType | .complexType | .sequence | .restriction | .complexContent | .extension => true
  | _ => false

namespace Node

/-! ### Texts inside texts -/

mutual

/-- A node and the nodes below it whose texts are parts of its own text. -/
def shown : Node → List Node
  | ⟨kind, tag, attributes, children⟩ =>
    ⟨kind, tag, attributes, children⟩ :: if kind.showsChildren then allShown children else []

/-- The nodes whose texts are parts of the texts of some nodes. -/
def allShown : List Node → List Node
  | [] => []
  | node :: nodes => shown node ++ allShown nodes

end

theorem infix_joinLines {s : String} {texts : List String} (h : s ∈ texts) :
    s.toList <:+: (joinLines texts).toList := by
  by_cases he : s = ""
  · subst he
    exact List.nil_infix
  · exact infix_joinWith (List.mem_filter.2 ⟨h, by simpa using he⟩)

theorem infix_braced (body : String) : body.toList <:+: (braced body).toList := by
  simp only [braced, String.toList_append]
  exact ⟨_, _, rfl⟩

/-- A node that shows its children has their lines in its text. -/
theorem exists_joinLines_infix {base : Option String} {node : Node} {text : String}
    (hk : node.kind.showsChildren = true) (h : (declare base node).outcome = .ok text) :
    ∃ base' texts, (declareAll base' node.children).outcome = .ok texts ∧
      (joinLines texts).toList <:+: text.toList := by
  obtain ⟨kind, tag, attributes, children⟩ := node
  cases kind with
  | simpleType =>
    rw [declare] at h
    obtain ⟨texts, ht, h⟩ := Traced.exists_of_bind h
    refine ⟨base, texts, ht, ?_⟩
    dsimp only at h
    split at h
    · rename_i he
      rw [String.isEmpty_iff.1 he]
      exact List.nil_infix
    · obtain ⟨name, -, h⟩ := Traced.exists_of_bind h
      cases h
      rw [String.toList_append]
      exact (infix_braced _).trans (List.suffix_append _ _).isInfix
  | complexType =>
    rw [declare] at h
    obtain ⟨texts, ht, h⟩ := Traced.exists_of_bind h
    obtain ⟨name, -, h⟩ := Traced.exists_of_bind h
    cases h
    refine ⟨base, texts, ht, ?_⟩
    rw [String.toList_append]
    refine List.IsInfix.trans ?_ (List.suffix_append _ _).isInfix
    split
    · rename_i he
      rw [String.isEmpty_iff.1 he]
      exact List.nil_infix
    · exact List.infix_rfl
  | sequence =>
    rw [declare] at h
    obtain ⟨texts, ht, h⟩ := Traced.exists_of_bind h
    cases h
    refine ⟨base, texts, ht, ?_⟩
    split
    · rename_i he
      rw [String.isEmpty_iff.1 he]
      exact List.nil_infix
    · exact infix_braced _
  | restriction =>
    rw [declare] at h
    obtain ⟨type, -, h⟩ := Traced.exists_of_bind h
    obtain ⟨texts, ht, h⟩ := Traced.exists_of_bind h
    cases h
    exact ⟨some type, texts, ht, List.infix_rfl⟩
  | complexContent =>
    rw [declare] at h
    obtain ⟨texts, ht, h⟩ := Traced.exists_of_bind h
    cases h
    exact ⟨base, texts, ht, List.infix_rfl⟩
  | extension =>
    rw [declare] at h
    obtain ⟨type, -, h⟩ := Traced.exists_of_bind h
    obtain ⟨texts, ht, h⟩ := Traced.exists_of_bind h
    cases h
    refine ⟨base, texts, ht, ?_⟩
    rw [String.toList_append]
    exact (List.suffix_append _ _).isInfix
  | element | enumeration | pattern | unknown => cases hk

mutual

/-- A node whose text was written shows the texts of the nodes it shows. -/
theorem exists_infix_declare (base : Option String) : (node : Node) → ∀ text,
    (declare base node).outcome = .ok text → ∀ other ∈ shown node,
    ∃ base' part, (declare base' other).outcome = .ok part ∧ part.toList <:+: text.toList
  | ⟨kind, tag, attributes, children⟩, text, h, other, ho => by
    rw [shown, List.mem_cons] at ho
    rcases ho with rfl | ho
    · exact ⟨base, text, h, List.infix_rfl⟩
    · split at ho
      · rename_i hk
        obtain ⟨base', texts, ht, hi⟩ := exists_joinLines_infix hk h
        obtain ⟨base'', part, hp, s, hs, hps⟩ :=
          exists_infix_declareAll base' children texts ht other ho
        exact ⟨base'', part, hp, hps.trans ((infix_joinLines hs).trans hi)⟩
      · cases ho

theorem exists_infix_declareAll (base : Option String) : (nodes : List Node) → ∀ texts,
    (declareAll base nodes).outcome = .ok texts → ∀ other ∈ allShown nodes,
    ∃ base' part, (declare base' other).outcome = .ok part ∧
      ∃ text ∈ texts, part.toList <:+: text.toList
  | [], _, _, _, ho => by cases ho
  | node :: nodes, texts, h, other, ho => by
    rw [declareAll] at h
    obtain ⟨first, hf, h⟩ := Traced.exists_of_bind h
    obtain ⟨others, hr, h⟩ := Traced.exists_of_bind h
    cases h
    rw [allShown, List.mem_append] at ho
    rcases ho with ho | ho
    · obtain ⟨base', part, hp, hi⟩ := exists_infix_declare base node first hf other ho
      exact ⟨base', part, hp, first, List.mem_cons_self, hi⟩
    · obtain ⟨base', part, hp, text, ht, hi⟩ :=
        exists_infix_declareAll base nodes others hr other ho
      exact ⟨base', part, hp, text, List.mem_cons_of_mem _ ht, hi⟩

end

/-- Each of some nodes whose texts were written has its text among them. -/
theorem exists_mem_of_declareAll {base : Option String} {nodes : List Node} {texts : List String}
    (h : (declareAll base nodes).outcome = .ok texts) {node : Node} (hm : node ∈ nodes) :
    ∃ text ∈ texts, (declare base node).outcome = .ok text := by
  induction nodes generalizing texts with
  | nil => cases hm
  | cons first nodes ih =>
    rw [declareAll] at h
    obtain ⟨text, ht, h⟩ := Traced.exists_of_bind h
    obtain ⟨others, hr, h⟩ := Traced.exists_of_bind h
    cases h
    rcases List.mem_cons.1 hm with rfl | hm
    · exact ⟨text, List.mem_cons_self, ht⟩
    · obtain ⟨other, ho, hd⟩ := ih hr hm
      exact ⟨other, List.mem_cons_of_mem _ ho, hd⟩

/-! ### Nodes that name a local type -/

section Naming

variable {base : Option String} {node : Node} {text name : String}

/-- The line of an element of a local type has the declared name of the type. -/
theorem declare_element_local (hk : node.kind = .element)
    (ht : node.attr "type" = .text (localReference name)) (hc : ':' ∉ name.toList)
    (h : (declare base node).outcome = .ok text) :
    ∃ property, declaredNameOf (node.attr "name") = .ok property ∧
      text = indentStep ++ property ++ (if node.isOptional then "?" else "") ++ ": " ++
        declaredName name ++ (if node.isList then "[]" else "") ++ ";" := by
  obtain ⟨kind, tag, attributes, children⟩ := node
  cases hk
  rw [declare, elementText, ht, isWritableOf_localReference, elementLine, ht,
    typeNameOf_localReference hc] at h
  obtain ⟨property, hp, h⟩ := exists_of_bind_eq_ok (x := declaredNameOf _) h
  cases h
  exact ⟨property, hp, rfl⟩

/-- The text of an extension of a local type begins with the name of the type as it is. -/
theorem declare_extension_local (hk : node.kind = .extension)
    (hb : node.attr "base" = .text (localReference name)) (hc : ':' ∉ name.toList)
    (h : (declare base node).outcome = .ok text) : ∃ rest, text = name ++ " & " ++ rest := by
  obtain ⟨kind, tag, attributes, children⟩ := node
  cases hk
  rw [declare, hb, typeNameOf_localReference hc] at h
  obtain ⟨type, ht, h⟩ := Traced.exists_of_bind h
  obtain ⟨texts, -, h⟩ := Traced.exists_of_bind h
  cases ht
  cases h
  exact ⟨joinLines texts, rfl⟩

/-- A complex type is declared under the declared form of its name. -/
theorem declare_complexType (hk : node.kind = .complexType) (hn : node.attr "name" = .text name)
    (hne : name ≠ "") (h : (declare base node).outcome = .ok text) :
    ∃ body, text = "export type " ++ declaredName name ++ " = " ++ body := by
  obtain ⟨kind, tag, attributes, children⟩ := node
  cases hk
  rw [declare, hn, declaredNameOf_text hne] at h
  obtain ⟨texts, -, h⟩ := Traced.exists_of_bind h
  obtain ⟨declared, hd, h⟩ := Traced.exists_of_bind h
  cases hd
  cases h
  exact ⟨_, rfl⟩

/-- A simple type that leaves a text is declared under the declared form of its name. -/
theorem declare_simpleType (hk : node.kind = .simpleType) (hn : node.attr "name" = .text name)
    (hne : name ≠ "") (h : (declare base node).outcome = .ok text) (ht : text ≠ "") :
    ∃ members, text = "export enum " ++ declaredName name ++ " " ++ braced members := by
  obtain ⟨kind, tag, attributes, children⟩ := node
  cases hk
  rw [declare, hn, declaredNameOf_text hne] at h
  obtain ⟨texts, -, h⟩ := Traced.exists_of_bind h
  dsimp only at h
  split at h
  · cases h
    exact absurd rfl ht
  · obtain ⟨declared, hd, h⟩ := Traced.exists_of_bind h
    cases hd
    cases h
    exact ⟨_, rfl⟩

end Naming

end Node

end Schema

/-! ### Leaves -/

/-- A name of letters, digits and `_` is its own declared form. -/
theorem Text.declaredName_eq_self {name : String}
    (h : ∀ c ∈ name.toList, isDeclaredNamePart c = true) : declaredName name = name := by
  rw [← String.toList_inj, toList_declaredName]
  conv_rhs => rw [← List.map_id name.toList]
  exact List.map_congr_left fun c hc => by simp [h c hc]

namespace Shape

/-- How a leaf of a local type is written, apart from an array: a name that the table of primitives
has is taken for a type of XML schema. -/
def localLeafType (name : String) : String := (Primitive.ofSchemaType? name).getD name

/-- How an array of a local type is written. -/
def localArrayType (name : String) : String :=
  match Primitive.ofSchemaType? name with
  | some primitive => primitive ++ "[]"
  | none => "Array<" ++ name ++ ">"

section Leaf

variable {name label : String}

theorem localBaseType_local (hb : (LeafLabel.parse label).baseType = Schema.localReference name)
    (hn : name ≠ "") (hc : ':' ∉ name.toList) : (LeafLabel.parse label).localBaseType = name := by
  rw [LeafLabel.localBaseType, hb]
  exact LeafLabel.localName_qualified (by decide) hc hn

theorem leafLiterals_of_facetData (hf : (LeafLabel.parse label).facetData = none)
    (known : KnownEnums) (targetNamespace : Option String) :
    leafLiterals known targetNamespace label = [] := by
  have hv : (LeafLabel.parse label).facetValues = [] := by rw [LeafLabel.facetValues, hf]
  rw [leafLiterals, literals, hv]
  split <;> rfl

/-- **How a leaf of a local type is written.** -/
theorem leafText_local (hb : (LeafLabel.parse label).baseType = Schema.localReference name)
    (hf : (LeafLabel.parse label).facetData = none) (hn : name ≠ "") (hc : ':' ∉ name.toList)
    (known : KnownEnums) (targetNamespace : Option String) (array : Bool) :
    leafText known targetNamespace array label =
      (if array then localArrayType name else localLeafType name) ++ ";" := by
  have hlocal := localBaseType_local hb hn hc
  rw [localArrayType, localLeafType]
  cases hp : Primitive.ofSchemaType? name with
  | some primitive =>
    rw [leafText_primitive (hlocal ▸ hp)]
    rfl
  | none =>
    rw [leafText_base hb (by decide) (by decide) (by decide) (hlocal ▸ hp)
      (leafLiterals_of_facetData hf known targetNamespace)]
    cases array <;> rfl

end Leaf

end Shape

namespace Schemas

open Schema Node

/-- A document declares a type under a name: a complex type, or a simple type that leaves a text. -/
def HasType (schemas : Schemas) (name : String) : Prop :=
  ∃ node ∈ schemas.declaredNodes, node.attr "name" = .text name ∧
    (node.kind = .complexType ∨ node.kind = .simpleType ∧
      ∃ text, (Node.declare none node).outcome = .ok text ∧ text ≠ "")

/-- **How the references to a local type are written.** In the text of a document that declares a
type under a name, and in the operations of a description:

* the declaration has the declared form of the name, in which `_` stands for all characters but
  letters and digits;
* every element of the type that the text shows has the declared form of the name as its type;
* every extension of the type that the text shows begins with the declared form of the name, if
  the name has letters, digits and `_` only;
* every leaf of the type without facet data is written, apart from an array, with the primitive
  that the table has for the name, or with the name as it is. This is the declared form if the name
  has letters, digits and `_` only and the table has no other primitive for it. -/
theorem local_type_spelled {schemas : Schemas} {text name : String}
    (h : schemas.declare.outcome = .ok text) (hd : schemas.HasType name) (hne : name ≠ "")
    (hc : ':' ∉ name.toList) :
    (("export type " ++ declaredName name ++ " = ").toList <:+: text.toList ∨
      ("export enum " ++ declaredName name ++ " \x7b").toList <:+: text.toList) ∧
    (∀ node ∈ allShown schemas.declaredNodes, node.kind = .element →
      node.attr "type" = .text (localReference name) →
      ∃ property, declaredNameOf (node.attr "name") = .ok property ∧
        (indentStep ++ property ++ (if node.isOptional then "?" else "") ++ ": " ++
          declaredName name ++ (if node.isList then "[]" else "") ++ ";").toList <:+: text.toList) ∧
    (∀ node ∈ allShown schemas.declaredNodes, node.kind = .extension →
      node.attr "base" = .text (localReference name) →
      (∀ c ∈ name.toList, isDeclaredNamePart c = true) →
      ∃ base rest, (Node.declare base node).outcome = .ok (declaredName name ++ " & " ++ rest) ∧
        (declaredName name ++ " & " ++ rest).toList <:+: text.toList) ∧
    (∀ label, (LeafLabel.parse label).baseType = localReference name →
      (LeafLabel.parse label).facetData = none →
      ∀ known targetNamespace array quoting property,
        Shape.memberLines quoting property
            (Shape.resolveLeaf known targetNamespace array label) =
          [Shape.propertyName quoting property ++ ": " ++
            ((if array then Shape.localArrayType name else Shape.localLeafType name) ++ ";")]) ∧
    ((∀ c ∈ name.toList, isDeclaredNamePart c = true) →
      (∀ primitive, Primitive.ofSchemaType? name = some primitive → primitive = name) →
      Shape.localLeafType name = declaredName name ∧
        Shape.localArrayType name ∈
          [declaredName name ++ "[]", "Array<" ++ declaredName name ++ ">"]) := by
  obtain ⟨texts, ht, h⟩ := Traced.exists_of_bind h
  cases h
  have htext : ∀ s ∈ texts,
      s.toList <:+: (joinWith "\n\n" (texts.filter fun text => !text.isEmpty)).toList := by
    intro s hs
    by_cases he : s = ""
    · subst he
      exact List.nil_infix
    · exact infix_joinWith (List.mem_filter.2 ⟨hs, by simpa using he⟩)
  have hshown : ∀ node ∈ allShown schemas.declaredNodes, ∃ base part,
      (Node.declare base node).outcome = .ok part ∧
        part.toList <:+: (joinWith "\n\n" (texts.filter fun text => !text.isEmpty)).toList := by
    intro node hm
    obtain ⟨base, part, hp, s, hs, hi⟩ := exists_infix_declareAll none _ texts ht node hm
    exact ⟨base, part, hp, hi.trans (htext s hs)⟩
  refine ⟨?_, fun node hm hk ha => ?_, fun node hm hk ha hparts => ?_,
    fun label hb hf known targetNamespace array quoting property => ?_, fun hparts htable => ?_⟩
  · obtain ⟨node, hm, hn, hk⟩ := hd
    obtain ⟨s, hs, hsd⟩ := exists_mem_of_declareAll ht hm
    rcases hk with hk | ⟨hk, s', hsd', hne'⟩
    · obtain ⟨body, rfl⟩ := declare_complexType hk hn hne hsd
      left
      refine List.IsInfix.trans ?_ (htext _ hs)
      exact ⟨[], body.toList, by simp [String.toList_append]⟩
    · obtain rfl : s = s' := Except.ok.inj (hsd.symm.trans hsd')
      obtain ⟨members, rfl⟩ := declare_simpleType hk hn hne hsd hne'
      right
      refine List.IsInfix.trans ?_ (htext _ hs)
      exact ⟨[], ("\n" ++ members ++ "\n\x7d").toList,
        by simp [braced, String.toList_append]⟩
  · obtain ⟨base, part, hp, hi⟩ := hshown node hm
    obtain ⟨property, hn, rfl⟩ := declare_element_local hk ha hc hp
    exact ⟨property, hn, hi⟩
  · obtain ⟨base, part, hp, hi⟩ := hshown node hm
    obtain ⟨rest, rfl⟩ := declare_extension_local hk ha hc hp
    rw [declaredName_eq_self hparts]
    exact ⟨base, rest, hp, hi⟩
  · have hcomment : Shape.leafComment targetNamespace label = none := by
      rw [Shape.leafComment, hf]
      rfl
    rw [Shape.resolveLeaf_eq, hcomment,
      ← Shape.leafText_local hb hf hne hc known targetNamespace array]
    rfl
  · rw [declaredName_eq_self hparts, Shape.localLeafType, Shape.localArrayType]
    cases hp : Primitive.ofSchemaType? name with
    | none => simp
    | some primitive =>
      obtain rfl := htable primitive hp
      simp

/-- An element of the type `token`. -/
def unitElement : Node :=
  ⟨.element, "element", [(.text "name", .text "unit"), (.text "type", .text "tns:token")], []⟩

/-- A schema with a type that is called like a type of XML schema, and a type whose name has a
character that no declaration can have. The last type refers to both. -/
def namesakes : Schemas :=
  let typed (kind : NodeKind) (attributes : List (String × String)) (children : List Node) : Node :=
    ⟨kind, kind.tagName, attributes.map fun entry => (.text entry.1, .text entry.2), children⟩
  [("urn:shop", [("complexTypes", [
    ("token", typed .complexType [("name", "token")] []),
    ("Base-Type", typed .complexType [("name", "Base-Type")] []),
    ("Sub", typed .complexType [("name", "Sub")] [
      typed .extension [("base", "tns:Base-Type")] [
        typed .sequence [] [
          unitElement,
          typed .element [("name", "kind"), ("type", "tns:Base-Type")] []]]])])])]

/-- The element of type `token` is written with the declared name. -/
theorem local_type_spelled_token :
    ∃ text, namesakes.declare.outcome = .ok text ∧
      "    unit: token;".toList <:+: text.toList := by
  have hw : namesakes.WellNamed := by decide +kernel
  obtain ⟨text, ht⟩ := exists_declare hw
  have hd : namesakes.HasType "token" := ⟨_, List.mem_cons_self, rfl, .inl rfl⟩
  have hm : unitElement ∈ allShown namesakes.declaredNodes := List.mem_of_getElem? (i := 5) rfl
  obtain ⟨-, hline, -⟩ := local_type_spelled ht hd (by decide) (by decide)
  obtain ⟨property, hp, hi⟩ := hline unitElement hm rfl rfl
  obtain rfl : declaredName "unit" = property := Except.ok.inj hp
  exact ⟨text, ht, hi⟩

/-- **Two types with two spellings each.** A leaf of the type `token` is written as a string, and
the base and the leaf of the type `Base-Type` keep the character that its declaration replaces. -/
theorem local_type_misspelled :
    namesakes.HasType "token" ∧ namesakes.HasType "Base-Type" ∧
      declaredName "token" = "token" ∧ declaredName "Base-Type" = "Base_Type" ∧
      namesakes.declare.outcome = .ok ("export type token = \x7b\x7d\n\n" ++
        "export type Base_Type = \x7b\x7d\n\n" ++ "export type Sub = Base-Type & \x7b\n" ++
        "    unit: token;\n    kind: Base_Type;\n\x7d") ∧
      Shape.leafText [] none false "unit|tns:token" = "string;" ∧
      Shape.leafText [] none false "kind|tns:Base-Type" = "Base-Type;" := by
  refine ⟨?_, ?_, by decide, by decide, by decide +kernel, by decide +kernel, by decide +kernel⟩
  · exact ⟨_, List.mem_cons_self, rfl, .inl rfl⟩
  · exact ⟨_, List.mem_cons_of_mem _ List.mem_cons_self, rfl, .inl rfl⟩

end Schemas

end SoapTypes
