import SoapTypes.Proofs.DeclaredEnums

/-!
# Nodes that leave no text

Unknown nodes, patterns, elements whose type cannot be written, and the enumeration values of a
restriction of anything but strings leave no text where they stand. A tree without them is declared
like the tree with them, and all that was left of them are the warnings about the unknown ones.

* `Place.isSilent`: whether a node leaves no text at its place in a tree.
* `Node.pruned`: a tree without the silent nodes below its root.
* `Node.declare_pruned`: it is declared with the same text.
* `Node.warnings_declare`: a tree is declared with one warning for each unknown node that is
  reached, in document order.
-/

namespace SoapTypes

open Text

namespace Traced

variable {ε α β : Type}

/-- The warnings of a sequence whose first part succeeds. -/
theorem warnings_bind_of_ok {x : Traced ε α} {a : α} (h : x.outcome = .ok a)
    (f : α → Traced ε β) : (x >>= f).warnings = x.warnings ++ (f a).warnings := by
  obtain ⟨notices, outcome⟩ := x
  cases h
  exact Notice.warnings_append _ _

@[simp] theorem warnings_pure (a : α) : (pure a : Traced ε α).warnings = [] := rfl

end Traced

namespace Schema

/-- What a value says as a text: nothing, if it is none. -/
def textOf : Json → String
  | .text text => text
  | _ => ""

theorem textOf_of_isBlank {value : Json} (h : value.isBlank = true) : textOf value = "" := by
  cases value with
  | text text => simpa [Json.isBlank, textOf] using h
  | _ => rfl

theorem eq_of_typeNameOf {value : Json} {type : String} (h : typeNameOf value = .ok type) :
    type = typeName (textOf value) := by
  unfold typeNameOf at h
  split at h
  · rename_i hb
    rw [textOf_of_isBlank hb]
    exact (Except.ok.inj h).symm
  · cases value <;> cases h
    rfl

theorem eq_of_isWritableOf {value : Json} {writable : Bool}
    (h : isWritableOf value = .ok writable) : writable = isWritable (textOf value) := by
  unfold isWritableOf at h
  split at h
  · rename_i hb
    rw [textOf_of_isBlank hb]
    exact (Except.ok.inj h).symm
  · cases value <;> cases h
    rfl

theorem eq_of_declaredNameOf {value : Json} {name : String} (h : declaredNameOf value = .ok name) :
    name = declaredName (textOf value) := by
  unfold declaredNameOf at h
  split at h
  · rename_i hb
    rw [textOf_of_isBlank hb]
    exact (Except.ok.inj h).symm
  · cases value <;> cases h
    rfl

/-- The text that an attribute of a node gives. -/
def Node.given (node : Node) (name : String) : String := textOf (node.attr name)

/-! ### Places -/

/-- A node at its place: the nodes that it stands in, the innermost one first. -/
structure Place where
  around : List Node
  node : Node

namespace Place

/-- The base type inside some nodes: that of the nearest restriction, if there is one. -/
def baseWithin (base : Option String) (around : List Node) : Option String :=
  match around.find? fun outer => outer.kind == .restriction with
  | some restriction => some (typeName (restriction.given "base"))
  | none => base

/-- Whether a node leaves no text, whatever stands in it. -/
def isSilent (base : Option String) (place : Place) : Bool :=
  match place.node.kind with
  | .unknown | .pattern => true
  | .element => !isWritable (place.node.given "type")
  | .enumeration => baseWithin base place.around != some "string"
  | _ => false

/-- The kinds of the nodes that are declared without a look at what stands in them. -/
def closedKinds : List NodeKind := [.unknown, .pattern, .element, .enumeration]

/-- Whether a node is unknown and gets a warning: it stands in no node of a closed kind. -/
def isReported (place : Place) : Bool :=
  place.node.kind = .unknown && place.around.all fun outer => outer.kind ∉ closedKinds

/-- The warning about an unknown node. -/
def warning (place : Place) : String :=
  "Unhandled schema node '" ++ place.node.tag ++ "' (" ++ place.node.attributes.display ++ ")"

/-- From outside to inside, each restriction takes the place of the base type around it. -/
theorem baseWithin_cons (base : Option String) (node : Node) (around : List Node) :
    baseWithin base (node :: around) = baseWithin (baseWithin base around) [node] := by
  unfold baseWithin
  by_cases h : (node.kind == .restriction) = true <;> simp [List.find?, h]

theorem baseWithin_restriction (base : Option String) {node : Node} (h : node.kind = .restriction) :
    baseWithin base [node] = some (typeName (node.given "base")) := by
  simp [baseWithin, h]

theorem baseWithin_of_ne (base : Option String) {node : Node} (h : node.kind ≠ .restriction) :
    baseWithin base [node] = base := by
  simp [baseWithin, h]

end Place

theorem NodeKind.showsChildren_iff (kind : NodeKind) :
    kind.showsChildren = true ↔ kind ∉ Place.closedKinds := by
  cases kind <;> decide

namespace Node

mutual

/-- The places in a tree in document order, given the nodes that the tree stands in. -/
def places (around : List Node) : Node → List Place
  | ⟨kind, tag, attributes, children⟩ =>
    ⟨around, ⟨kind, tag, attributes, children⟩⟩ ::
      allPlaces (⟨kind, tag, attributes, children⟩ :: around) children

/-- The places in some trees that stand beside each other. -/
def allPlaces (around : List Node) : List Node → List Place
  | [] => []
  | node :: nodes => places around node ++ allPlaces around nodes

end

mutual

/-- A tree without the silent nodes below its root, and without all that stands in them. -/
def pruned (base : Option String) (around : List Node) : Node → Node
  | ⟨kind, tag, attributes, children⟩ =>
    ⟨kind, tag, attributes,
      allPruned base (⟨kind, tag, attributes, children⟩ :: around) children⟩

/-- The trees among some that are not silent themselves, pruned. -/
def allPruned (base : Option String) (around : List Node) : List Node → List Node
  | [] => []
  | node :: nodes =>
    if Place.isSilent base ⟨around, node⟩ then allPruned base around nodes
    else pruned base around node :: allPruned base around nodes

end

/-! ### Nodes with children -/

/-- What a node that shows its children makes of their lines. -/
def finished (node : Node) (lines : String) : Traced Fault String :=
  match node.kind with
  | .simpleType =>
    if lines.isEmpty then return "" else do
      let name ← Traced.ofExcept (declaredNameOf (node.attr "name"))
      return "export enum " ++ name ++ " " ++ braced lines
  | .complexType => do
    let name ← Traced.ofExcept (declaredNameOf (node.attr "name"))
    return "export type " ++ name ++ " = " ++ (if lines.isEmpty then "\x7b\x7d" else lines)
  | .sequence => return if lines.isEmpty then "\x7b\x7d" else braced lines
  | .extension => return typeName (node.given "base") ++ " & " ++ lines
  | _ => return lines

theorem warnings_ofExcept_bind_pure {α : Type} (x : Except Fault α) (f : α → String) :
    (Traced.ofExcept x >>= fun a => pure (f a)).warnings = [] := by
  cases x <;> rfl

theorem warnings_finished (node : Node) (lines : String) : (node.finished lines).warnings = [] := by
  unfold finished
  split
  · split
    · rfl
    · exact warnings_ofExcept_bind_pure _ _
  · exact warnings_ofExcept_bind_pure _ _
  all_goals rfl

/-- A node that shows its children is declared from their lines, with the base type inside of it. -/
theorem declare_eq_finished {base : Option String} {kind : NodeKind} {tag : String}
    {attributes : Attributes} {children : List Node} {text : String}
    (hk : kind.showsChildren = true)
    (h : (declare base ⟨kind, tag, attributes, children⟩).outcome = .ok text) (others : List Node) :
    declare base ⟨kind, tag, attributes, others⟩ =
      declareAll (Place.baseWithin base [⟨kind, tag, attributes, children⟩]) others >>= fun texts =>
        finished ⟨kind, tag, attributes, children⟩ (joinLines texts) := by
  cases kind with
  | simpleType | complexType | sequence | complexContent =>
    rw [Place.baseWithin_of_ne base (by simp), declare]
    rfl
  | restriction =>
    rw [declare] at h ⊢
    obtain ⟨type, ht, -⟩ := Traced.exists_of_bind h
    rw [Place.baseWithin_restriction base rfl, given, ← eq_of_typeNameOf ht]
    change typeNameOf (attr ⟨.restriction, tag, attributes, others⟩ "base") = .ok type at ht
    rw [ht]
    rfl
  | extension =>
    rw [declare] at h ⊢
    obtain ⟨type, ht, -⟩ := Traced.exists_of_bind h
    rw [Place.baseWithin_of_ne base (by simp)]
    simp only [finished, given, ← eq_of_typeNameOf ht]
    change typeNameOf (attr ⟨.extension, tag, attributes, others⟩ "base") = .ok type at ht
    rw [ht]
    rfl
  | element | enumeration | pattern | unknown => cases hk

section ShowsChildren

variable {base : Option String} {kind : NodeKind} {tag : String} {attributes : Attributes}
  {children : List Node} {text : String}

theorem exists_lines_of_showsChildren (hk : kind.showsChildren = true)
    (h : (declare base ⟨kind, tag, attributes, children⟩).outcome = .ok text) :
    ∃ texts, (declareAll (Place.baseWithin base [⟨kind, tag, attributes, children⟩])
        children).outcome = .ok texts ∧
      (finished ⟨kind, tag, attributes, children⟩ (joinLines texts)).outcome = .ok text := by
  have heq := declare_eq_finished hk h children
  rw [heq] at h
  exact Traced.exists_of_bind h

/-- The warnings of a node that shows its children are theirs. -/
theorem warnings_of_showsChildren (hk : kind.showsChildren = true)
    (h : (declare base ⟨kind, tag, attributes, children⟩).outcome = .ok text) :
    (declare base ⟨kind, tag, attributes, children⟩).warnings =
      (declareAll (Place.baseWithin base [⟨kind, tag, attributes, children⟩])
        children).warnings := by
  obtain ⟨texts, ht, -⟩ := exists_lines_of_showsChildren hk h
  rw [declare_eq_finished hk h, Traced.warnings_bind_of_ok ht, warnings_finished, List.append_nil]

end ShowsChildren

/-- What stands in a node of a closed kind does not matter. -/
theorem declare_of_closed {kind : NodeKind} (hk : kind.showsChildren = false)
    (base : Option String) (tag : String) (attributes : Attributes) (children others : List Node) :
    declare base ⟨kind, tag, attributes, others⟩ =
      declare base ⟨kind, tag, attributes, children⟩ := by
  cases kind with
  | simpleType | complexType | sequence | restriction | complexContent | extension => cases hk
  | element | enumeration | pattern | unknown => rfl

/-! ### Texts of pruned trees -/

/-- A silent node leaves no text. -/
theorem eq_empty_of_isSilent {base : Option String} {around : List Node} {node : Node}
    {text : String} (hs : Place.isSilent base ⟨around, node⟩ = true)
    (h : (declare (Place.baseWithin base around) node).outcome = .ok text) : text = "" := by
  obtain ⟨kind, tag, attributes, children⟩ := node
  cases kind with
  | element =>
    rcases elementText_cases h with ⟨-, he⟩ | ⟨hw, -⟩
    · exact he
    · have hs : isWritable (textOf (attr ⟨.element, tag, attributes, children⟩ "type")) = false := by
        simpa [Place.isSilent, given] using hs
      exact absurd ((eq_of_isWritableOf hw).trans hs) (by decide)
  | enumeration =>
    have hs : Place.baseWithin base around ≠ some "string" := by
      simpa [Place.isSilent] using hs
    rw [declare, if_neg hs] at h
    exact (Except.ok.inj h).symm
  | pattern | unknown => exact (Except.ok.inj h).symm
  | _ => cases hs

mutual

/-- **A tree is declared with the same text without the silent nodes below its root.** -/
theorem declare_pruned (base : Option String) : (node : Node) → ∀ around text,
    (declare (Place.baseWithin base around) node).outcome = .ok text →
    (declare (Place.baseWithin base around) (pruned base around node)).outcome = .ok text
  | ⟨kind, tag, attributes, children⟩, around, text, h => by
    rw [pruned]
    by_cases hk : kind.showsChildren = true
    · obtain ⟨texts, ht, hf⟩ := exists_lines_of_showsChildren hk h
      rw [← Place.baseWithin_cons] at ht
      obtain ⟨others, ho, he⟩ := declareAll_pruned base children _ texts ht
      have hj : joinLines others = joinLines texts := by rw [joinLines, joinLines, he]
      rw [declare_eq_finished hk h, ← Place.baseWithin_cons, Traced.outcome_bind, ho, ← hf, ← hj]
      rfl
    · rw [declare_of_closed (by simpa using hk)]
      exact h

theorem declareAll_pruned (base : Option String) : (nodes : List Node) → ∀ around texts,
    (declareAll (Place.baseWithin base around) nodes).outcome = .ok texts →
    ∃ others, (declareAll (Place.baseWithin base around) (allPruned base around nodes)).outcome =
        .ok others ∧
      others.filter (fun text => !text.isEmpty) = texts.filter fun text => !text.isEmpty
  | [], _, _, h => by
    cases h
    exact ⟨[], rfl, rfl⟩
  | node :: nodes, around, _, h => by
    rw [declareAll] at h
    obtain ⟨text, ht, h⟩ := Traced.exists_of_bind h
    obtain ⟨texts, hts, h⟩ := Traced.exists_of_bind h
    cases h
    obtain ⟨others, ho, he⟩ := declareAll_pruned base nodes around texts hts
    rw [allPruned]
    split
    · rename_i hs
      obtain rfl := eq_empty_of_isSilent hs ht
      exact ⟨others, ho, he⟩
    · refine ⟨text :: others, ?_, ?_⟩
      · rw [declareAll, Traced.outcome_bind, declare_pruned base node around text ht]
        change (declareAll _ _ >>= fun texts => _).outcome = _
        rw [Traced.outcome_bind, ho]
        rfl
      · rw [List.filter_cons, List.filter_cons, he]

end

/-! ### Warnings -/

mutual

/-- The places in a tree lie inside the nodes that the tree stands in. -/
theorem suffix_of_mem_places : (node : Node) → ∀ around, ∀ place ∈ places around node,
    around <:+ place.around
  | ⟨kind, tag, attributes, children⟩, around, place, hm => by
    rw [places, List.mem_cons] at hm
    rcases hm with rfl | hm
    · exact List.suffix_rfl
    · exact (List.suffix_cons _ _).trans (suffix_of_mem_allPlaces children _ place hm)

theorem suffix_of_mem_allPlaces : (nodes : List Node) → ∀ around, ∀ place ∈ allPlaces around nodes,
    around <:+ place.around
  | [], _, _, hm => by cases hm
  | node :: nodes, around, place, hm => by
    rw [allPlaces, List.mem_append] at hm
    rcases hm with hm | hm
    · exact suffix_of_mem_places node around place hm
    · exact suffix_of_mem_allPlaces nodes around place hm

end

/-- Nothing is reported inside a node of a closed kind. -/
theorem filter_isReported_of_closed {outer : Node} (ho : outer.kind ∈ Place.closedKinds)
    (around nodes : List Node) :
    (allPlaces (outer :: around) nodes).filter Place.isReported = [] := by
  rw [List.filter_eq_nil_iff]
  intro place hm hr
  have hs := (suffix_of_mem_allPlaces nodes _ place hm).subset List.mem_cons_self
  simp only [Place.isReported, Bool.and_eq_true, List.all_eq_true, decide_eq_true_eq] at hr
  exact hr.2 outer hs ho

theorem warnings_elementText (node : Node) : node.elementText.warnings = [] := by
  unfold elementText
  cases isWritableOf (node.attr "type") with
  | error fault => rfl
  | ok writable => cases writable <;> rfl

mutual

/-- **A tree is declared with one warning for each unknown node that is reached.** -/
theorem warnings_declare (base : Option String) : (node : Node) → ∀ around text,
    (∀ outer ∈ around, outer.kind ∉ Place.closedKinds) →
    (declare base node).outcome = .ok text →
    (declare base node).warnings =
      ((places around node).filter Place.isReported).map Place.warning
  | ⟨kind, tag, attributes, children⟩, around, text, ha, h => by
    rw [places]
    by_cases hk : kind.showsChildren = true
    · obtain ⟨texts, ht, -⟩ := exists_lines_of_showsChildren hk h
      have hne : kind ≠ .unknown := by
        rintro rfl
        cases hk
      have hopen := kind.showsChildren_iff.1 hk
      rw [warnings_of_showsChildren hk h, List.filter_cons_of_neg (by simp [Place.isReported, hne])]
      exact warnings_declareAll _ children _ texts (List.forall_mem_cons.2 ⟨hopen, ha⟩) ht
    · have hclosed : kind ∈ Place.closedKinds := by
        simpa [NodeKind.showsChildren_iff] using hk
      rw [List.filter_cons, filter_isReported_of_closed hclosed]
      cases kind with
      | element => exact warnings_elementText _
      | enumeration => 
        rw [declare]
        split <;> rfl
      | pattern => rfl
      | unknown =>
        have hself : Place.isReported ⟨around, ⟨.unknown, tag, attributes, children⟩⟩ = true := by
          simpa [Place.isReported] using ha
        rw [if_pos hself]
        rfl
      | _ => exact absurd rfl hk

theorem warnings_declareAll (base : Option String) : (nodes : List Node) → ∀ around texts,
    (∀ outer ∈ around, outer.kind ∉ Place.closedKinds) →
    (declareAll base nodes).outcome = .ok texts →
    (declareAll base nodes).warnings =
      ((allPlaces around nodes).filter Place.isReported).map Place.warning
  | [], _, _, _, _ => rfl
  | node :: nodes, around, _, ha, h => by
    rw [declareAll] at h ⊢
    obtain ⟨text, ht, h⟩ := Traced.exists_of_bind h
    obtain ⟨texts, hts, h⟩ := Traced.exists_of_bind h
    rw [Traced.warnings_bind_of_ok ht, Traced.warnings_bind_of_ok hts,
      warnings_declare base node around text ha ht, warnings_declareAll base nodes around texts ha hts,
      allPlaces, List.filter_append, List.map_append, Traced.warnings_pure, List.append_nil]

end

mutual

/-- Of the unknown nodes none is left, except for the root. -/
theorem kind_ne_of_mem_places_pruned (base : Option String) : (node : Node) → ∀ around inside,
    node.kind ≠ .unknown → ∀ place ∈ places inside (pruned base around node),
    place.node.kind ≠ .unknown
  | ⟨kind, tag, attributes, children⟩, around, inside, hk, place, hm => by
    rw [pruned, places, List.mem_cons] at hm
    rcases hm with rfl | hm
    · exact hk
    · exact kind_ne_of_mem_allPlaces_pruned base children _ _ place hm

theorem kind_ne_of_mem_allPlaces_pruned (base : Option String) : (nodes : List Node) →
    ∀ around inside, ∀ place ∈ allPlaces inside (allPruned base around nodes),
    place.node.kind ≠ .unknown
  | [], _, _, _, hm => by cases hm
  | node :: nodes, around, inside, place, hm => by
    rw [allPruned] at hm
    split at hm
    · exact kind_ne_of_mem_allPlaces_pruned base nodes around inside place hm
    · rename_i hs
      rw [allPlaces, List.mem_append] at hm
      rcases hm with hm | hm
      · have hk : node.kind ≠ .unknown := fun hk => hs (by simp [Place.isSilent, hk])
        exact kind_ne_of_mem_places_pruned base node around inside hk place hm
      · exact kind_ne_of_mem_allPlaces_pruned base nodes around inside place hm

end

/-- **Silent nodes leave no trace but their warnings.** A tree whose names and types are texts or
blank is declared, with one warning for each unknown node that stands in no unknown node, pattern,
element or enumeration value, in document order. Unless its root is silent, the tree without all
silent nodes below the root is declared with the same text, and without a warning. -/
theorem silent_leaves_no_trace (base : Option String) {node : Node}
    (h : ∀ other ∈ family node, other.WellNamed) :
    ∃ text, (declare base node).outcome = .ok text ∧
      (declare base node).warnings =
        ((places [] node).filter Place.isReported).map Place.warning ∧
      (Place.isSilent base ⟨[], node⟩ = false →
        (declare base (pruned base [] node)).outcome = .ok text ∧
        (declare base (pruned base [] node)).warnings = []) := by
  obtain ⟨text, ht⟩ := exists_declare base node h
  have hopen : ∀ outer ∈ ([] : List Node), outer.kind ∉ Place.closedKinds := by simp
  refine ⟨text, ht, warnings_declare base node [] text hopen ht, fun hs => ?_⟩
  have hp := declare_pruned base node [] text ht
  have hk : node.kind ≠ .unknown := fun hk => by simp [Place.isSilent, hk] at hs
  refine ⟨hp, ?_⟩
  rw [warnings_declare base _ [] text hopen hp, List.map_eq_nil_iff, List.filter_eq_nil_iff]
  intro place hm hr
  simp only [Place.isReported, Bool.and_eq_true, decide_eq_true_eq] at hr
  exact kind_ne_of_mem_places_pruned base node [] [] hk place hm hr.1

/-- A node with texts as its attributes. -/
def written (kind : NodeKind) (tag : String) (attributes : List (String × String))
    (children : List Node) : Node :=
  ⟨kind, tag, attributes.map fun entry => (.text entry.1, .text entry.2), children⟩

/-- An object type with silent nodes of all four kinds, some of them inside others. -/
def order : Node :=
  written .complexType "complexType" [("name", "Order")] [
    written .sequence "sequence" [] [
      written .element "element" [("name", "id"), ("type", "xs:int")] [],
      written .element "element" [("name", "scan"), ("type", "xs:base64Binary")]
        [written .unknown "annotation" [] []],
      written .unknown "any" [] [written .unknown "annotation" [] []]],
    written .restriction "restriction" [("base", "xs:int")] [
      written .enumeration "enumeration" [("value", "1")] [],
      written .restriction "restriction" [("base", "xs:string")] [
        written .enumeration "enumeration" [("value", "red")] [],
        written .pattern "pattern" [] []]],
    written .unknown "attribute" [("name", "lang")] []]

/-- What is left of it: an element and the one value of a restriction of strings. -/
def prunedOrder : Node :=
  written .complexType "complexType" [("name", "Order")] [
    written .sequence "sequence" [] [
      written .element "element" [("name", "id"), ("type", "xs:int")] []],
    written .restriction "restriction" [("base", "xs:int")] [
      written .restriction "restriction" [("base", "xs:string")] [
        written .enumeration "enumeration" [("value", "red")] []]]]

/-- The two unknown nodes that are reached are reported, and the text is that of what is left. -/
theorem silent_leaves_no_trace_order :
    (∀ other ∈ family order, other.WellNamed) ∧ Place.isSilent none ⟨[], order⟩ = false ∧
      pruned none [] order = prunedOrder ∧
      (declare none order).warnings = ["Unhandled schema node 'any' (\x7b\x7d)",
        "Unhandled schema node 'attribute' (\x7b'name': 'lang'\x7d)"] ∧
      (declare none prunedOrder).outcome = (declare none order).outcome ∧
      (declare none prunedOrder).warnings = [] := by
  have hw : ∀ other ∈ family order, other.WellNamed := by decide +kernel
  have hs : Place.isSilent none ⟨[], order⟩ = false := by decide +kernel
  have hp : pruned none [] order = prunedOrder := rfl
  obtain ⟨text, ht, hwarnings, hrest⟩ := silent_leaves_no_trace none hw
  obtain ⟨htext, hnone⟩ := hrest hs
  rw [hp] at htext hnone
  refine ⟨hw, hs, hp, hwarnings.trans ?_, htext.trans ht.symm, hnone⟩
  decide +kernel

end Node

end Schema

end SoapTypes
