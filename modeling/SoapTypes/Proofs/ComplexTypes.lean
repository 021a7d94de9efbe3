import SoapTypes.Proofs.SilentNodes

/-!
# Declarations of complex types

A complex type has fields, or it extends a base type by fields. Its declaration is an object type
with a line for each field, or the intersection of the base type and such an object. Without fields
the object is written with braces alone, wherever the fields may be missing but in one place: an
extension that has not even a sequence breaks off where its object should begin.

* `Content` is what a complex type consists of, `HasContent` says how its nodes give it.
* `Content.documented` is the type that it should be declared as, `Content.text` the one that it is.
* `declared_complexType`: a complex type is declared, and when the declaration is as it should be.
-/

namespace SoapTypes

open Text

namespace Schema

theorem Textual.isWritableOf_eq {value : Json} (h : Textual value) :
    isWritableOf value = .ok (isWritable (textOf value)) := by
  obtain ⟨writable, hw⟩ := exists_isWritableOf h
  rw [hw, eq_of_isWritableOf hw]

theorem Textual.typeNameOf_eq {value : Json} (h : Textual value) :
    typeNameOf value = .ok (typeName (textOf value)) := by
  obtain ⟨type, ht⟩ := exists_typeNameOf h
  rw [ht, eq_of_typeNameOf ht]

theorem Textual.declaredNameOf_eq {value : Json} (h : Textual value) :
    declaredNameOf value = .ok (declaredName (textOf value)) := by
  obtain ⟨name, hn⟩ := exists_declaredNameOf h
  rw [hn, eq_of_declaredNameOf hn]

/-- A text of letters, digits and `_`. -/
def IsNameText (name : String) : Prop := ∀ c ∈ name.toList, isDeclaredNamePart c = true

instance (name : String) : Decidable (IsNameText name) :=
  List.decidableBAll (fun c => isDeclaredNamePart c = true) name.toList

/-- A qualified name of letters, digits and `_` is resolved to a name of them, which is not empty. -/
theorem typeName_qualified {ns name : String} (hns : IsNameText ns) (hn : IsNameText name)
    (hne : name ≠ "") :
    typeName (ns ++ ":" ++ name) ≠ "" ∧ IsNameText (typeName (ns ++ ":" ++ name)) := by
  have hcolon : ∀ {s : String}, IsNameText s → ':' ∉ s.toList := fun h hm =>
    absurd (h _ hm) (by decide)
  rw [typeName, pieces_qualified (hcolon hns) (hcolon hn)]
  dsimp only
  split
  · exact ⟨hne, hn⟩
  split
  · decide
  split
  · decide
  · exact ⟨hne, hn⟩

namespace Node

/-! ### Lines of nodes -/

/-- Some nodes without the unknown ones among them. -/
def knownNodes (nodes : List Node) : List Node := nodes.filter fun node => node.kind ≠ .unknown

/-- Some nodes are declared with these lines; empty texts leave none. -/
def HasLines (base : Option String) (nodes : List Node) (lines : List String) : Prop :=
  ∃ texts, (declareAll base nodes).outcome = .ok texts ∧
    texts.filter (fun text => !text.isEmpty) = lines

section HasLines

variable {base : Option String} {node : Node} {nodes : List Node} {lines : List String}

theorem hasLines_nil (base : Option String) : HasLines base [] [] := ⟨[], rfl, rfl⟩

theorem HasLines.cons {text : String} (h : (declare base node).outcome = .ok text)
    (hs : HasLines base nodes lines) :
    HasLines base (node :: nodes) (if text.isEmpty then lines else text :: lines) := by
  obtain ⟨texts, ht, rfl⟩ := hs
  refine ⟨text :: texts, ?_, ?_⟩
  · rw [declareAll, Traced.outcome_bind, h]
    change (declareAll base nodes >>= fun texts => _).outcome = _
    rw [Traced.outcome_bind, ht]
    rfl
  · cases he : text.isEmpty <;> simp [he]

/-- Unknown nodes leave no lines. -/
theorem HasLines.of_knownNodes (h : HasLines base (knownNodes nodes) lines) :
    HasLines base nodes lines := by
  induction nodes generalizing lines with
  | nil => exact h
  | cons node nodes ih =>
    by_cases hk : node.kind = .unknown
    · have hknown : knownNodes (node :: nodes) = knownNodes nodes := by simp [knownNodes, hk]
      have hempty : (declare base node).outcome = .ok "" := by
        cases node
        cases hk
        rfl
      exact (ih (hknown ▸ h)).cons hempty
    · have hknown : knownNodes (node :: nodes) = node :: knownNodes nodes := by
        simp [knownNodes, hk]
      obtain ⟨_, ht, rfl⟩ := hknown ▸ h
      rw [declareAll] at ht
      obtain ⟨text, htext, ht⟩ := Traced.exists_of_bind ht
      obtain ⟨texts, htexts, ht⟩ := Traced.exists_of_bind ht
      cases ht
      have hlines := (ih ⟨texts, htexts, rfl⟩).cons htext
      cases he : text.isEmpty <;> simpa [he] using hlines

theorem HasLines.singleton {text : String} (h : (declare base node).outcome = .ok text)
    (hne : text ≠ "") : HasLines base [node] [text] := by
  simpa [hne] using (hasLines_nil base).cons h

theorem HasLines.declare_sequence (h : HasLines base node.children lines)
    (hk : node.kind = .sequence) : (declare base node).outcome =
      .ok (if (joinWith "\n" lines).isEmpty then "\x7b\x7d" else braced (joinWith "\n" lines)) := by
  obtain ⟨texts, ht, rfl⟩ := h
  cases node
  cases hk
  rw [declare, Traced.outcome_bind, ht]
  rfl

theorem HasLines.declare_complexContent (h : HasLines base node.children lines)
    (hk : node.kind = .complexContent) :
    (declare base node).outcome = .ok (joinWith "\n" lines) := by
  obtain ⟨texts, ht, rfl⟩ := h
  cases node
  cases hk
  rw [declare, Traced.outcome_bind, ht]
  rfl

theorem HasLines.declare_extension (h : HasLines base node.children lines)
    (hk : node.kind = .extension) {type : String} (ht : typeNameOf (node.attr "base") = .ok type) :
    (declare base node).outcome = .ok (type ++ " & " ++ joinWith "\n" lines) := by
  obtain ⟨texts, hts, rfl⟩ := h
  cases node
  cases hk
  rw [declare, ht]
  change (declareAll base _ >>= fun texts => _).outcome = _
  rw [Traced.outcome_bind, hts]
  rfl

theorem HasLines.declare_complexType (h : HasLines base node.children lines)
    (hk : node.kind = .complexType) {name : String}
    (hn : declaredNameOf (node.attr "name") = .ok name) :
    (declare base node).outcome = .ok ("export type " ++ name ++ " = " ++
      (if (joinWith "\n" lines).isEmpty then "\x7b\x7d" else joinWith "\n" lines)) := by
  obtain ⟨texts, ht, rfl⟩ := h
  cases node
  cases hk
  rw [declare, Traced.outcome_bind, ht]
  change (Traced.ofExcept _ >>= fun name => _).outcome = _
  rw [hn]
  rfl

end HasLines

/-! ### Fields -/

/-- The line of a field: its name, a question mark if it may be missing, its type, and an array mark
if it may repeat. -/
def fieldLine (element : Node) : String :=
  indentStep ++ declaredName (element.given "name") ++ (if element.isOptional then "?" else "") ++
    ": " ++ declaredName (typeName (element.given "type")) ++
    (if element.isList then "[]" else "") ++ ";"

/-- The lines of the elements whose types can be written. -/
def fieldLines (elements : List Node) : List String :=
  (elements.filter fun element => isWritable (element.given "type")).map fieldLine

/-- An object type with these lines, or braces alone. -/
def objectText : List String → String
  | [] => "\x7b\x7d"
  | line :: lines => braced (joinWith "\n" (line :: lines))

theorem fieldLine_ne_empty (element : Node) : fieldLine element ≠ "" := by
  simp [fieldLine, indentStep]

/-- An element has its line, or none if its type cannot be written. -/
theorem declare_element (base : Option String) {element : Node} (hk : element.kind = .element)
    (hw : element.WellNamed) : (declare base element).outcome =
      .ok (if isWritable (element.given "type") then fieldLine element else "") := by
  rw [WellNamed, hk] at hw
  have htype : Textual (element.attr "type") := hw "type" List.mem_cons_self
  have hname : Textual (element.attr "name") :=
    hw "name" (List.mem_cons_of_mem _ List.mem_cons_self)
  have helement : declare base element = element.elementText := by
    cases element
    cases hk
    rfl
  rw [helement, elementText, elementLine, htype.isWritableOf_eq, htype.typeNameOf_eq,
    hname.declaredNameOf_eq]
  change (if isWritable (element.given "type") then _ else _ : Traced Fault String).outcome = _
  split <;> rfl

theorem hasLines_elements (base : Option String) {elements : List Node}
    (hk : ∀ element ∈ elements, element.kind = .element)
    (hw : ∀ element ∈ elements, element.WellNamed) :
    HasLines base elements (fieldLines elements) := by
  induction elements with
  | nil => exact hasLines_nil base
  | cons element elements ih =>
    obtain ⟨hfirst, hk⟩ := List.forall_mem_cons.1 hk
    obtain ⟨hnamed, hw⟩ := List.forall_mem_cons.1 hw
    have h := (ih hk hw).cons (declare_element base hfirst hnamed)
    cases hr : isWritable (element.given "type") with
    | true => simpa [fieldLines, hr, fieldLine_ne_empty] using h
    | false => simpa [fieldLines, hr] using h

theorem objectText_eq {lines : List String} (h : ∀ line ∈ lines, line ≠ "") :
    (if (joinWith "\n" lines).isEmpty then "\x7b\x7d" else braced (joinWith "\n" lines)) =
      objectText lines := by
  cases lines with
  | nil => rfl
  | cons line lines =>
    rw [if_neg]
    · rfl
    · intro he
      have hi : line.toList <:+: (joinWith "\n" (line :: lines)).toList :=
        infix_joinWith List.mem_cons_self
      rw [String.isEmpty_iff.1 he] at hi
      exact h line List.mem_cons_self (String.toList_inj.1 (by simpa using hi))

theorem objectText_ne_empty (lines : List String) : objectText lines ≠ "" := by
  cases lines <;> simp [objectText, braced]

/-! ### Contents -/

/-- Some nodes hold the fields of an object, unknown nodes aside: they are nothing, or one sequence
of elements. -/
inductive HoldsFields (nodes : List Node) : Option (List Node) → Prop where
  | nothing (h : knownNodes nodes = []) : HoldsFields nodes none
  | sequence {sequence : Node} (h : knownNodes nodes = [sequence])
      (hk : sequence.kind = .sequence)
      (he : ∀ element ∈ knownNodes sequence.children, element.kind = .element) :
      HoldsFields nodes (some (knownNodes sequence.children))

/-- What a complex type consists of: the elements of its sequence, if it has one, and the qualified
name of the type that it extends, if there is one. -/
structure Content where
  extends? : Option String
  elements? : Option (List Node)

namespace Content

/-- The elements of a content. -/
def elements (content : Content) : List Node := content.elements?.getD []

/-- The object type of a content. -/
def object (content : Content) : String := objectText (fieldLines content.elements)

/-- The type that a content should be declared as: an object type, behind its base type if it
extends one. -/
def documented (content : Content) : String :=
  match content.extends? with
  | none => content.object
  | some base => typeName base ++ " & " ++ content.object

/-- An extension without a sequence. -/
def IsBare (content : Content) : Prop := content.extends? ≠ none ∧ content.elements? = none

instance (content : Content) : Decidable content.IsBare := inferInstanceAs (Decidable (_ ∧ _))

/-- The type that a content is declared as: a bare extension has no object type. -/
def text (content : Content) : String :=
  match content.extends?, content.elements? with
  | some base, none => typeName base ++ " & "
  | _, _ => content.documented

theorem text_eq_documented_iff (content : Content) :
    content.text = content.documented ↔ ¬ content.IsBare := by
  obtain ⟨_ | base, _ | elements⟩ := content
  case some.none =>
    refine iff_of_false (fun h => ?_) fun h => h ⟨by simp, rfl⟩
    have hl : (typeName base ++ " & ").length = (typeName base ++ " & " ++ "\x7b\x7d").length :=
      congrArg String.length h
    simp at hl
  all_goals simp [text, IsBare]

end Content

/-- A complex type has a content, unknown nodes aside: it holds the fields itself, or in one
extension of a qualified name in the content of a complex type. -/
inductive HasContent (node : Node) : Content → Prop where
  | fields {elements? : Option (List Node)} (h : HoldsFields node.children elements?) :
      HasContent node ⟨none, elements?⟩
  | extension {complexContent extension : Node} {ns name : String}
      {elements? : Option (List Node)}
      (hc : knownNodes node.children = [complexContent])
      (hck : complexContent.kind = .complexContent)
      (he : knownNodes complexContent.children = [extension])
      (hek : extension.kind = .extension)
      (hb : extension.attr "base" = .text (ns ++ ":" ++ name))
      (hns : IsNameText ns) (hname : IsNameText name) (hne : name ≠ "")
      (h : HoldsFields extension.children elements?) :
      HasContent node ⟨some (ns ++ ":" ++ name), elements?⟩

theorem HoldsFields.hasLines {nodes : List Node} {elements? : Option (List Node)}
    (h : HoldsFields nodes elements?) (hw : ∀ element ∈ elements?.getD [], element.WellNamed)
    (base : Option String) :
    HasLines base nodes (elements?.map fun elements => objectText (fieldLines elements)).toList := by
  apply HasLines.of_knownNodes
  cases h with
  | nothing h =>
    rw [h]
    exact hasLines_nil base
  | @sequence sequence h hk he =>
    have hlines := (hasLines_elements base he hw).of_knownNodes.declare_sequence hk
    rw [objectText_eq] at hlines
    · rw [h]
      exact .singleton hlines (objectText_ne_empty _)
    · intro line hl
      obtain ⟨element, -, rfl⟩ := List.mem_map.1 hl
      exact fieldLine_ne_empty element

/-- The children of a complex type leave the text of its content as their one line, or no line if
there is nothing. -/
theorem HasContent.hasLines {node : Node} {content : Content} (h : HasContent node content)
    (hw : ∀ element ∈ content.elements, element.WellNamed) (base : Option String) :
    ∃ lines, HasLines base node.children lines ∧
      (if (joinWith "\n" lines).isEmpty then "\x7b\x7d" else joinWith "\n" lines) =
        content.text := by
  cases h with
  | @fields elements? h =>
    refine ⟨_, h.hasLines hw base, ?_⟩
    cases elements? with
    | none => rfl
    | some elements => simp [objectText_ne_empty, Content.text, Content.documented, Content.object,
        Content.elements]
  | @extension complexContent extension ns name elements? hc hck he hek hb hns hname hne h =>
    have htype : typeNameOf (extension.attr "base") = .ok (typeName (ns ++ ":" ++ name)) := by
      rw [hb]
      exact Textual.typeNameOf_eq (.inr rfl)
    have hextension := (h.hasLines hw base).declare_extension hek htype
    have hcontent := ((he ▸ HasLines.singleton hextension (by simp)).of_knownNodes
      |>.declare_complexContent hck)
    refine ⟨_, (hc ▸ HasLines.singleton hcontent (by simp)).of_knownNodes, ?_⟩
    cases elements? with
    | none => simp [Content.text]
    | some elements => simp [Content.text, Content.documented, Content.object, Content.elements]

/-- The type that a content extends has a name of letters, digits and `_`. -/
theorem HasContent.isNameText {node : Node} {content : Content} (h : HasContent node content) :
    ∀ base ∈ content.extends?, typeName base ≠ "" ∧ IsNameText (typeName base) := by
  cases h with
  | fields h => simp
  | extension hc hck he hek hb hns hname hne h =>
    rintro _ ⟨⟩
    exact typeName_qualified hns hname hne

/-- **Complex types are declared.** A complex type with a name of letters, digits and `_` whose
content is nothing, a sequence of elements, or an extension of a qualified name by one of these,
unknown nodes aside, and whose elements have texts as names and types or blank ones:

* its declaration is its name with the text of its content;
* this is the type that it should be declared as, if it is no bare extension, and only then: an
  object with one line for each element of a type that can be written, in document order, or an
  object without lines, and in front of it the base type, if there is one;
* the name of the base type has letters, digits and `_` only, and is not empty. -/
theorem declared_complexType {node : Node} {content : Content} {name : String}
    (hk : node.kind = .complexType) (hn : node.attr "name" = .text name) (hname : IsNameText name)
    (hc : HasContent node content) (hw : ∀ element ∈ content.elements, element.WellNamed)
    (base : Option String) :
    (declare base node).outcome = .ok ("export type " ++ name ++ " = " ++ content.text) ∧
      (content.text = content.documented ↔ ¬ content.IsBare) ∧
      ∀ type ∈ content.extends?, typeName type ≠ "" ∧ IsNameText (typeName type) := by
  refine ⟨?_, content.text_eq_documented_iff, hc.isNameText⟩
  have hdeclared : declaredNameOf (node.attr "name") = .ok name := by
    rw [hn]
    have h : declaredNameOf (.text name) = .ok (declaredName name) :=
      Textual.declaredNameOf_eq (.inr rfl)
    rw [h, declaredName_eq_self hname]
  obtain ⟨lines, hl, ht⟩ := hc.hasLines hw base
  rw [hl.declare_complexType hk hdeclared, ht]

/-- A complex type with a name that extends a local type by some nodes. -/
def extending (name base : String) (children : List Node) : Node :=
  written .complexType "complexType" [("name", name)] [
    written .complexContent "complexContent" [] [
      written .extension "extension" [("base", localReference base)] children],
    written .unknown "anyAttribute" [] []]

/-- The fields of an employee: one of them can repeat, and one has a type that cannot be written. -/
def employeeFields : Node :=
  written .sequence "sequence" [] [
    written .element "element" [("name", "id"), ("type", "xs:int")] [],
    written .element "element" [("name", "photo"), ("type", "xs:base64Binary")] [],
    written .element "element"
      [("name", "badges"), ("type", "tns:Badge"), ("minOccurs", "0"), ("maxOccurs", "9")] []]

theorem hasContent_extending {name base : String} (hb : IsNameText base) (hne : base ≠ "")
    {children : List Node} {elements? : Option (List Node)} (h : HoldsFields children elements?) :
    HasContent (extending name base children) ⟨some (localReference base), elements?⟩ :=
  .extension rfl rfl rfl rfl rfl (by decide) hb hne h

/-- An employee is a person with two more fields. -/
theorem declared_complexType_employee :
    HasContent (extending "Employee" "Person" [employeeFields])
        ⟨some (localReference "Person"), some employeeFields.children⟩ ∧
      (declare none (extending "Employee" "Person" [employeeFields])).outcome =
        .ok ("export type Employee = " ++
          "Person & \x7b\n    id: number;\n    badges?: Badge[];\n\x7d") := by
  have hkinds : ∀ element ∈ knownNodes employeeFields.children, element.kind = .element := by
    decide
  have hfields : HoldsFields [employeeFields] (some employeeFields.children) :=
    .sequence rfl rfl hkinds
  have hc : HasContent (extending "Employee" "Person" [employeeFields])
      ⟨some (localReference "Person"), some employeeFields.children⟩ :=
    hasContent_extending (by decide) (by decide) hfields
  obtain ⟨hd, hiff, -⟩ :=
    declared_complexType rfl rfl (by decide) hc (by decide +kernel) none
  refine ⟨hc, hd.trans ?_⟩
  rw [hiff.2 (by decide)]
  decide +kernel

/-- **A declaration that breaks off.** A bare extension leaves nothing behind the sign of the
intersection, where an object without lines should be. -/
theorem bare_extension_breaks_off :
    HasContent (extending "Employee" "Person" []) ⟨some (localReference "Person"), none⟩ ∧
      (declare none (extending "Employee" "Person" [])).outcome =
        .ok "export type Employee = Person & " ∧
      Content.documented ⟨some (localReference "Person"), none⟩ = "Person & \x7b\x7d" :=
  ⟨hasContent_extending (by decide) (by decide) (.nothing rfl), by decide +kernel,
    by decide +kernel⟩

end Node

end Schema

end SoapTypes
