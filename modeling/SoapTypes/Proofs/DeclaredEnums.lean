import SoapTypes.Proofs.LocalTypes

/-!
# Enumerations that are listed and enumerations that are declared

The names of the enumerations of a schema are found by a look at the children of each simple type
and at their children. The text of the schema has an enum for each simple type that leaves a text,
wherever in it the text comes from.

* `Node.LeavesText` and `Node.Enumerates`: what is looked for by the text and by the names.
* `Node.ne_empty_iff_leavesText` and `Node.hasStringEnumeration_iff`: it is what they find.
* `Schemas.listed_iff_emits`: which enumerations are listed, which are declared, and where the two
  agree.
-/

namespace SoapTypes

open Text

namespace Schema

/-- What a character class leaves in front of a character outside it is unique. -/
theorem append_cons_inj_of_forall {p : Char → Bool} {a b cs ds : List Char} {c : Char}
    (ha : ∀ x ∈ a, p x = true) (hb : ∀ x ∈ b, p x = true) (hc : p c = false)
    (h : a ++ c :: cs = b ++ c :: ds) : a = b := by
  have ht := congrArg (List.takeWhile p) h
  rw [List.takeWhile_append_of_pos ha, List.takeWhile_append_of_pos hb,
    List.takeWhile_cons_of_neg (by simp [hc]), List.takeWhile_cons_of_neg (by simp [hc])] at ht
  simpa using ht

theorem Attributes.mem_of_value? {attributes : Attributes} {name : String} {value : Json}
    (h : attributes.value? name = some value) : (.text name, value) ∈ attributes := by
  induction attributes with
  | nil => cases h
  | cons entry attributes ih =>
    rw [value?] at h
    split at h
    · rename_i hk
      cases h
      rw [← hk]
      exact List.mem_cons_self
    · exact List.mem_cons_of_mem _ (ih h)

namespace Node

/-! ### Nodes that leave a text -/

/-- A node leaves a text, given the base type of the nearest restriction around it. -/
inductive LeavesText : Option String → Node → Prop
  /-- An object type, the fields of one, and an extension always leave a text. -/
  | object {base : Option String} {node : Node}
      (hk : node.kind = .complexType ∨ node.kind = .sequence ∨ node.kind = .extension) :
      LeavesText base node
  | element {base : Option String} {node : Node} (hk : node.kind = .element)
      (hw : isWritableOf (node.attr "type") = .ok true) : LeavesText base node
  | enumeration {node : Node} (hk : node.kind = .enumeration) : LeavesText (some "string") node
  /-- A simple type and the content of a complex one leave what is left below them. -/
  | inner {base : Option String} {node child : Node}
      (hk : node.kind = .simpleType ∨ node.kind = .complexContent) (hc : child ∈ node.children)
      (h : LeavesText base child) : LeavesText base node
  | restriction {base : Option String} {node child : Node} {type : String}
      (hk : node.kind = .restriction) (ht : typeNameOf (node.attr "base") = .ok type)
      (hc : child ∈ node.children) (h : LeavesText (some type) child) : LeavesText base node

section Kinds

variable {base : Option String} {node : Node}

theorem leavesText_element_iff (hk : node.kind = .element) :
    LeavesText base node ↔ isWritableOf (node.attr "type") = .ok true := by
  constructor
  · intro h
    cases h with
    | element _ hw => exact hw
    | object hk' | inner hk' | restriction hk' | enumeration hk' => simp [hk] at hk'
  · exact .element hk

theorem leavesText_enumeration_iff (hk : node.kind = .enumeration) :
    LeavesText base node ↔ base = some "string" := by
  constructor
  · intro h
    cases h with
    | enumeration _ => rfl
    | object hk' | inner hk' | restriction hk' | element hk' => simp [hk] at hk'
  · rintro rfl
    exact .enumeration hk

theorem leavesText_inner_iff (hk : node.kind = .simpleType ∨ node.kind = .complexContent) :
    LeavesText base node ↔ ∃ child ∈ node.children, LeavesText base child := by
  constructor
  · intro h
    cases h with
    | inner _ hc h => exact ⟨_, hc, h⟩
    | object hk' | restriction hk' | enumeration hk' | element hk' =>
      rcases hk with hk | hk <;> simp [hk] at hk'
  · rintro ⟨child, hc, h⟩
    exact .inner hk hc h

theorem leavesText_restriction_iff {type : String} (hk : node.kind = .restriction)
    (ht : typeNameOf (node.attr "base") = .ok type) :
    LeavesText base node ↔ ∃ child ∈ node.children, LeavesText (some type) child := by
  constructor
  · intro h
    cases h with
    | restriction _ ht' hc h =>
      obtain rfl := Except.ok.inj (ht.symm.trans ht')
      exact ⟨_, hc, h⟩
    | object hk' | inner hk' | enumeration hk' | element hk' => simp [hk] at hk'
  · rintro ⟨child, hc, h⟩
    exact .restriction hk ht hc h

theorem not_leavesText (hk : node.kind = .pattern ∨ node.kind = .unknown) :
    ¬ LeavesText base node := by
  intro h
  cases h with
  | object hk' | inner hk' | restriction hk' | enumeration hk' | element hk' =>
    rcases hk with hk | hk <;> simp [hk] at hk'

end Kinds

theorem joinLines_ne_empty_iff {texts : List String} :
    joinLines texts ≠ "" ↔ ∃ text ∈ texts, text ≠ "" := by
  constructor
  · intro h
    have hf : texts.filter (fun text => !text.isEmpty) ≠ [] := by
      intro he
      exact h (by rw [joinLines, he, joinWith_nil])
    obtain ⟨text, ht⟩ := List.exists_mem_of_ne_nil _ hf
    obtain ⟨ht, hne⟩ := List.mem_filter.1 ht
    exact ⟨text, ht, by simpa using hne⟩
  · rintro ⟨text, ht, hne⟩ he
    have hi := infix_joinLines ht
    rw [he] at hi
    exact hne (String.toList_inj.1 (by simpa using hi))

/-- The text of an element that can be written is an indented line, and any other one is empty. -/
theorem elementText_cases {node : Node} {text : String} (h : node.elementText.outcome = .ok text) :
    (isWritableOf (node.attr "type") = .ok false ∧ text = "") ∨
      (isWritableOf (node.attr "type") = .ok true ∧ ∃ line, text = indentStep ++ line) := by
  obtain ⟨writable, hw, h⟩ := Traced.exists_of_bind h
  have hw : isWritableOf (node.attr "type") = .ok writable := hw
  cases writable with
  | false =>
    cases h
    exact .inl ⟨hw, rfl⟩
  | true =>
    have h : node.elementLine = .ok text := h
    obtain ⟨name, -, h⟩ := exists_of_bind_eq_ok h
    obtain ⟨type, -, h⟩ := exists_of_bind_eq_ok h
    cases h
    refine .inr ⟨hw, ?_⟩
    simp only [String.append_assoc]
    exact ⟨_, rfl⟩

mutual

/-- **A node whose text was written left one exactly if it should.** -/
theorem ne_empty_iff_leavesText (base : Option String) : (node : Node) → ∀ text,
    (declare base node).outcome = .ok text → (text ≠ "" ↔ LeavesText base node)
  | ⟨kind, tag, attributes, children⟩, text, h => by
    cases kind with
    | simpleType =>
      rw [declare] at h
      obtain ⟨texts, ht, h⟩ := Traced.exists_of_bind h
      rw [leavesText_inner_iff (.inl rfl), ← exists_ne_empty_iff base children texts ht,
        ← joinLines_ne_empty_iff]
      dsimp only at h
      split at h
      · rename_i he
        cases h
        rw [String.isEmpty_iff.1 he]
      · rename_i he
        obtain ⟨name, -, h⟩ := Traced.exists_of_bind h
        cases h
        exact iff_of_true (by simp) fun e => he (String.isEmpty_iff.2 e)
    | complexType =>
      rw [declare] at h
      obtain ⟨texts, -, h⟩ := Traced.exists_of_bind h
      obtain ⟨name, -, h⟩ := Traced.exists_of_bind h
      cases h
      exact iff_of_true (by simp) (.object (.inl rfl))
    | sequence =>
      rw [declare] at h
      obtain ⟨texts, -, h⟩ := Traced.exists_of_bind h
      cases h
      refine iff_of_true ?_ (.object (.inr (.inl rfl)))
      split <;> simp [braced]
    | element =>
      rw [leavesText_element_iff rfl]
      rcases elementText_cases h with ⟨hw, rfl⟩ | ⟨hw, line, rfl⟩
      · exact iff_of_false (by simp) fun hw' => by simp [hw] at hw'
      · exact iff_of_true (by simp [indentStep]) hw
    | restriction =>
      rw [declare] at h
      obtain ⟨type, htype, h⟩ := Traced.exists_of_bind h
      obtain ⟨texts, ht, h⟩ := Traced.exists_of_bind h
      cases h
      rw [leavesText_restriction_iff rfl htype, joinLines_ne_empty_iff,
        exists_ne_empty_iff (some type) children texts ht]
    | enumeration =>
      rw [leavesText_enumeration_iff rfl]
      by_cases hb : base = some "string"
      · rw [declare, if_pos hb] at h
        cases h
        exact iff_of_true (by simp [enumerationLine]) hb
      · rw [declare, if_neg hb] at h
        cases h
        exact iff_of_false (by simp) hb
    | complexContent =>
      rw [declare] at h
      obtain ⟨texts, ht, h⟩ := Traced.exists_of_bind h
      cases h
      rw [leavesText_inner_iff (.inr rfl), joinLines_ne_empty_iff,
        exists_ne_empty_iff base children texts ht]
    | extension =>
      rw [declare] at h
      obtain ⟨type, -, h⟩ := Traced.exists_of_bind h
      obtain ⟨texts, -, h⟩ := Traced.exists_of_bind h
      cases h
      exact iff_of_true (by simp) (.object (.inr (.inr rfl)))
    | pattern =>
      cases h
      exact iff_of_false (by simp) (not_leavesText (.inl rfl))
    | unknown =>
      cases h
      exact iff_of_false (by simp) (not_leavesText (.inr rfl))

theorem exists_ne_empty_iff (base : Option String) : (nodes : List Node) → ∀ texts,
    (declareAll base nodes).outcome = .ok texts →
    ((∃ text ∈ texts, text ≠ "") ↔ ∃ node ∈ nodes, LeavesText base node)
  | [], _, h => by
    cases h
    simp
  | node :: nodes, _, h => by
    rw [declareAll] at h
    obtain ⟨text, ht, h⟩ := Traced.exists_of_bind h
    obtain ⟨texts, hts, h⟩ := Traced.exists_of_bind h
    cases h
    rw [List.exists_mem_cons_iff, List.exists_mem_cons_iff, ne_empty_iff_leavesText base node _ ht,
      exists_ne_empty_iff base nodes _ hts]

end

/-- Each node has its text among the texts that were written, and nothing else is there. -/
theorem forall₂_of_declareAll {base : Option String} {nodes : List Node} {texts : List String}
    (h : (declareAll base nodes).outcome = .ok texts) :
    List.Forall₂ (fun node text => (declare base node).outcome = .ok text) nodes texts := by
  induction nodes generalizing texts with
  | nil =>
    cases h
    exact .nil
  | cons node nodes ih =>
    rw [declareAll] at h
    obtain ⟨text, ht, h⟩ := Traced.exists_of_bind h
    obtain ⟨others, ho, h⟩ := Traced.exists_of_bind h
    cases h
    exact .cons ht (ih ho)

/-! ### Simple types that enumerate strings -/

/-- One of the children of a node is a restriction of strings with an enumeration value as a child
of its own. -/
def Enumerates (node : Node) : Prop :=
  ∃ child ∈ node.children, child.kind = .restriction ∧
    typeNameOf (child.attr "base") = .ok "string" ∧
    ∃ value ∈ child.children, value.kind = .enumeration

theorem mem_family_of_mem_children {node child : Node} (h : child ∈ node.children) :
    child ∈ family node := by
  cases node
  exact List.mem_cons_of_mem _ (mem_families_of_mem h child (mem_family child))

theorem anyOfKind_iff {kind : NodeKind} {nodes : List Node} :
    anyOfKind kind nodes = true ↔ ∃ node ∈ nodes, node.kind = kind := by
  simp [anyOfKind, List.any_eq_true]

theorem anyStringEnumeration_iff {nodes : List Node} (h : ∀ node ∈ nodes, node.WellNamed) :
    anyStringEnumeration nodes = .ok true ↔
      ∃ node ∈ nodes, node.kind = .restriction ∧ typeNameOf (node.attr "base") = .ok "string" ∧
        ∃ value ∈ node.children, value.kind = .enumeration := by
  induction nodes with
  | nil => simp [anyStringEnumeration]
  | cons node nodes ih =>
    obtain ⟨hnode, h⟩ := List.forall_mem_cons.1 h
    rw [List.exists_mem_cons_iff, ← ih h, anyStringEnumeration, ← anyOfKind_iff]
    by_cases hk : node.kind = .restriction
    · have hbase : Textual (node.attr "base") :=
        hnode "base" (by rw [hk]; exact List.mem_singleton_self _)
      obtain ⟨type, ht⟩ := exists_typeNameOf hbase
      rw [if_pos hk, ht]
      by_cases hs : type = "string" ∧ anyOfKind .enumeration node.children = true
      · obtain ⟨rfl, he⟩ := hs
        refine iff_of_true ?_ (.inl ⟨hk, rfl, he⟩)
        simp [bind, Except.bind, he]
        rfl
      · have hfirst : ¬ (node.kind = .restriction ∧
            (Except.ok type : Except Fault String) = .ok "string" ∧
              anyOfKind .enumeration node.children = true) := by
          rintro ⟨-, ht, he⟩
          exact hs ⟨Except.ok.inj ht, he⟩
        rw [or_iff_right hfirst]
        simp [bind, Except.bind, hs]
    · simp [hk]

/-- A simple type is found to enumerate strings exactly if it does. -/
theorem hasStringEnumeration_iff {node : Node} (h : ∀ child ∈ node.children, child.WellNamed) :
    node.hasStringEnumeration = .ok true ↔ node.Enumerates :=
  anyStringEnumeration_iff h

/-- What enumerates strings leaves a text. -/
theorem Enumerates.leavesText {node : Node} (h : node.Enumerates) (hk : node.kind = .simpleType)
    (base : Option String) : LeavesText base node := by
  obtain ⟨child, hc, hr, hb, value, hv, he⟩ := h
  exact .inner (.inl hk) hc (.restriction hr hb hv (.enumeration he))

/-! ### Texts that are enums -/

/-- The text of an enum with a name. -/
def IsEnumText (name text : String) : Prop :=
  ∃ members, text = "export enum " ++ declaredName name ++ " " ++ braced members

/-- The name under which a simple type is declared: its own, or none. -/
def ownName (node : Node) : String :=
  if (node.attr "name").isBlank then "" else (node.attr "name").asText

theorem declaredNameOf_ownName {node : Node} (h : Textual (node.attr "name")) :
    declaredNameOf (node.attr "name") = .ok (declaredName node.ownName) := by
  unfold declaredNameOf ownName
  by_cases hb : (node.attr "name").isBlank = true
  · rw [if_pos hb, if_pos hb]
    rfl
  · obtain ⟨text, ht⟩ := exists_of_isText (h.resolve_left hb)
    rw [if_neg hb, if_neg hb, ht]
    rfl

/-- An enum has only one name. -/
theorem isEnumText_iff {name other members : String} :
    IsEnumText name ("export enum " ++ declaredName other ++ " " ++ braced members) ↔
      declaredName name = declaredName other := by
  constructor
  · rintro ⟨members', he⟩
    have hl := congrArg String.toList he
    simp only [String.toList_append, List.append_assoc, List.append_cancel_left_eq] at hl
    rw [← String.toList_inj]
    exact (append_cons_inj_of_forall (fun c => isDeclaredNamePart_of_mem_declaredName)
      (fun c => isDeclaredNamePart_of_mem_declaredName) (by decide) hl).symm
  · intro h
    exact ⟨members, by rw [h]⟩

/-- The text of a simple type is an enum with a name exactly if the type leaves a text and is
declared under this name. -/
theorem isEnumText_simpleType_iff {base : Option String} {node : Node} {text name : String}
    (hk : node.kind = .simpleType) (hn : Textual (node.attr "name"))
    (h : (declare base node).outcome = .ok text) :
    IsEnumText name text ↔
      LeavesText base node ∧ declaredName name = declaredName node.ownName := by
  rw [← ne_empty_iff_leavesText base node text h]
  have hname := declaredNameOf_ownName hn
  obtain ⟨kind, tag, attributes, children⟩ := node
  cases hk
  rw [declare] at h
  obtain ⟨texts, -, h⟩ := Traced.exists_of_bind h
  dsimp only at h
  split at h
  · cases h
    refine iff_of_false ?_ fun h => h.1 rfl
    rintro ⟨members, he⟩
    simpa using congrArg String.toList he
  · rw [hname] at h
    cases h
    rw [isEnumText_iff, and_iff_right]
    simp

/-- The text of a node of most other kinds is no enum. -/
theorem not_isEnumText {node : Node} {text name : String} (hk : node.kind ≠ .simpleType)
    (hw : node.kind ∉ [.restriction, .complexContent, .extension])
    (h : (declare none node).outcome = .ok text) : ¬ IsEnumText name text := by
  rintro ⟨members, rfl⟩
  obtain ⟨kind, tag, attributes, children⟩ := node
  cases kind with
  | simpleType => exact hk rfl
  | restriction | complexContent | extension => simp at hw
  | complexType =>
    rw [declare] at h
    obtain ⟨texts, -, h⟩ := Traced.exists_of_bind h
    obtain ⟨other, -, h⟩ := Traced.exists_of_bind h
    have he := congrArg String.toList (Except.ok.inj h)
    simp [String.toList_append] at he
  | sequence =>
    rw [declare] at h
    obtain ⟨texts, -, h⟩ := Traced.exists_of_bind h
    have he := congrArg String.toList (Except.ok.inj h)
    split at he <;> simp [String.toList_append, braced] at he
  | element =>
    rcases elementText_cases h with ⟨-, he⟩ | ⟨-, line, he⟩ <;>
      simpa [String.toList_append, indentStep] using congrArg String.toList he
  | enumeration | pattern | unknown =>
    have he := congrArg String.toList (Except.ok.inj h)
    simp [String.toList_append] at he

end Node

end Schema

namespace Schemas

open Schema Node

/-! ### Nodes of a document -/

/-- A node of a document with its namespace, its group and the name under which it stands there. -/
structure Entry where
  targetNamespace : String
  group : String
  key : String
  node : Node

namespace Entry

/-- A document has the entry. -/
def In (entry : Entry) (schemas : Schemas) : Prop :=
  ∃ groups, (entry.targetNamespace, groups) ∈ schemas ∧
    (entry.key, entry.node) ∈ Schemas.group groups entry.group

/-- The name of an entry: the one that its node has, or the one under which it stands. -/
def name (entry : Entry) : String :=
  if (entry.node.attr "name").isBlank then entry.key else (entry.node.attr "name").asText

/-- The name of an entry is among the names of enumerations on its account. -/
def Listed (entry : Entry) : Prop :=
  entry.group = simpleGroup ∧ entry.node.kind = .simpleType ∧
    entry.node.hasStringEnumeration = .ok true

/-- The declaration of an entry is an enum with its name. -/
def Emits (entry : Entry) : Prop :=
  entry.group ∈ groups ∧
    ∃ text, (Node.declare none entry.node).outcome = .ok text ∧ IsEnumText entry.name text

/-- The name of an entry is that of its node, and not only the one under which it stands. -/
def Named (entry : Entry) : Prop :=
  (entry.node.attr "name").isBlank = false ∨ entry.key = ""

end Entry

variable {schemas : Schemas} {entry : Entry}

/-- An entry is declared under its name exactly if its node has the name. -/
theorem declaredName_ownName_iff :
    declaredName entry.name = declaredName entry.node.ownName ↔ entry.Named := by
  unfold Entry.name ownName Entry.Named
  cases hb : (entry.node.attr "name").isBlank with
  | false => simp
  | true =>
    simp only [if_true, Bool.true_eq_false, false_or]
    constructor
    · intro h
      have hl := congrArg List.length (congrArg String.toList h)
      rw [← String.toList_inj]
      simpa using hl
    · intro h
      rw [h]

theorem mem_simpleTypes_iff {types : String × String × Node} :
    types ∈ schemas.simpleTypes ↔
      ∃ entry : Entry, entry.In schemas ∧ entry.group = simpleGroup ∧
        types = (entry.targetNamespace, entry.key, entry.node) := by
  constructor
  · intro h
    obtain ⟨⟨targetNamespace, groups⟩, hg, h⟩ := List.mem_flatMap.1 h
    obtain ⟨⟨key, node⟩, hn, rfl⟩ := List.mem_map.1 h
    exact ⟨⟨targetNamespace, simpleGroup, key, node⟩, ⟨groups, hg, hn⟩, rfl, rfl⟩
  · rintro ⟨⟨targetNamespace, group, key, node⟩, ⟨groups, hg, hn⟩, rfl, rfl⟩
    exact List.mem_flatMap.2 ⟨_, hg, List.mem_map_of_mem hn⟩

theorem mem_declaredNodes_iff {node : Node} :
    node ∈ schemas.declaredNodes ↔
      ∃ entry : Entry, entry.In schemas ∧ entry.group ∈ groups ∧ entry.node = node := by
  constructor
  · intro h
    obtain ⟨⟨targetNamespace, ofNamespace⟩, hg, h⟩ := List.mem_flatMap.1 h
    obtain ⟨group, hm, h⟩ := List.mem_flatMap.1 h
    obtain ⟨⟨key, node⟩, hn, rfl⟩ := List.mem_map.1 h
    exact ⟨⟨targetNamespace, group, key, node⟩, ⟨ofNamespace, hg, hn⟩, hm, rfl⟩
  · rintro ⟨⟨targetNamespace, group, key, node⟩, ⟨ofNamespace, hg, hn⟩, hm, rfl⟩
    exact List.mem_flatMap.2 ⟨_, hg, List.mem_flatMap.2 ⟨group, hm, List.mem_map_of_mem hn⟩⟩

/-- The names among some simple types are those of the types that enumerate strings. -/
theorem mem_enumNamesAmong_iff {types : List (String × String × Node)} {names : List String}
    (h : enumNamesAmong types = .ok names) {name : String} :
    name ∈ names ↔ ∃ type ∈ types, type.2.2.kind = .simpleType ∧
      type.2.2.hasStringEnumeration = .ok true ∧
      qualifiedName type.1 type.2.1 type.2.2 = name := by
  induction types generalizing names with
  | nil =>
    cases h
    simp
  | cons type types ih =>
    obtain ⟨targetNamespace, key, node⟩ := type
    rw [List.exists_mem_cons_iff]
    rw [enumNamesAmong] at h
    split at h
    · rename_i hk
      obtain ⟨isEnum, he, h⟩ := exists_of_bind_eq_ok h
      obtain ⟨others, ho, h⟩ := exists_of_bind_eq_ok h
      cases h
      rw [← ih ho]
      cases isEnum with
      | true => simp [hk, he, eq_comm]
      | false => simp [he]
    · rename_i hk
      obtain ⟨isEnum, he, h⟩ := exists_of_bind_eq_ok h
      obtain ⟨others, ho, h⟩ := exists_of_bind_eq_ok h
      cases he
      cases h
      rw [← ih ho]
      simp [hk]

/-- The names of the enumerations of a document are those of the entries that are listed. -/
theorem mem_enumNames_iff {names : List String} (h : schemas.enumNames = .ok names)
    {name : String} :
    name ∈ names ↔ ∃ entry : Entry, entry.In schemas ∧ entry.Listed ∧
      entry.targetNamespace ++ "#" ++ entry.name = name := by
  rw [mem_enumNamesAmong_iff h]
  constructor
  · rintro ⟨_, ht, hk, he, hn⟩
    obtain ⟨entry, hi, hg, rfl⟩ := mem_simpleTypes_iff.1 ht
    exact ⟨entry, hi, ⟨hg, hk, he⟩, hn⟩
  · rintro ⟨entry, hi, ⟨hg, hk, he⟩, hn⟩
    exact ⟨_, mem_simpleTypes_iff.2 ⟨entry, hi, hg, rfl⟩, hk, he, hn⟩

/-! ### Listed and declared enumerations -/

/-- A document in which all attributes are texts is well named. -/
theorem wellNamed_of_isText
    (h : ∀ node ∈ families schemas.declaredNodes, ∀ entry ∈ node.attributes,
      isText entry.2 = true) : schemas.WellNamed := by
  intro node hn name _
  unfold attr attr?
  cases hv : node.attributes.value? name with
  | none => exact .inl rfl
  | some value => exact .inr (h node hn _ (Attributes.mem_of_value? hv))

theorem wellNamed_of_in (h : schemas.WellNamed) (hi : entry.In schemas)
    (hg : entry.group ∈ groups) : ∀ other ∈ family entry.node, other.WellNamed := fun other ho =>
  h other (mem_families_of_mem (mem_declaredNodes_iff.2 ⟨entry, hi, hg, rfl⟩) other ho)

theorem listed_iff (h : schemas.WellNamed) (hi : entry.In schemas) :
    entry.Listed ↔ entry.group = simpleGroup ∧ entry.node.kind = .simpleType ∧
      entry.node.Enumerates := by
  apply and_congr_right
  intro hg
  apply and_congr_right
  intro _
  apply hasStringEnumeration_iff
  intro child hc
  exact wellNamed_of_in h hi (hg ▸ List.mem_cons_self) child (mem_family_of_mem_children hc)

theorem emits_iff (h : schemas.WellNamed) (hi : entry.In schemas)
    (hk : entry.node.kind ∉ [.restriction, .complexContent, .extension]) :
    entry.Emits ↔ entry.group ∈ groups ∧ entry.node.kind = .simpleType ∧
      LeavesText none entry.node ∧ entry.Named := by
  apply and_congr_right
  intro hg
  have hw := wellNamed_of_in h hi hg
  obtain ⟨text, ht⟩ := Node.exists_declare none entry.node hw
  have hname : entry.node.kind = .simpleType → Textual (entry.node.attr "name") := fun hs =>
    hw _ (mem_family _) "name" (by rw [hs]; exact List.mem_singleton_self _)
  rw [← declaredName_ownName_iff]
  constructor
  · rintro ⟨text, ht, he⟩
    have hs : entry.node.kind = .simpleType := by
      by_contra hs
      exact not_isEnumText hs hk ht he
    exact ⟨hs, (isEnumText_simpleType_iff hs (hname hs) ht).1 he⟩
  · rintro ⟨hs, he⟩
    exact ⟨text, ht, (isEnumText_simpleType_iff hs (hname hs) ht).2 he⟩

/-- **Which enumerations are listed, and which are declared.** In a document whose names and types
are texts or blank:

* the names of the enumerations are found, and they are those of the entries that are listed;
* the declarations are written, and they are the texts of the nodes that leave one;
* an entry is listed exactly if it is a simple type in the group of simple types, and a restriction
  of strings right below it has an enumeration value right below that;
* an entry that is not itself a restriction, an extension or the content of a complex type is
  declared as an enum with its name exactly if it is a simple type in a declared group that leaves a
  text, and the name is that of its node;
* so the two can differ only for a simple type of a declared group that leaves a text, and there they
  agree exactly if it meets the other conditions for being listed just when its node has a name. -/
theorem listed_iff_emits {schemas : Schemas} (h : schemas.WellNamed) :
    (∃ names, schemas.enumNames = .ok names ∧ ∀ name, name ∈ names ↔
      ∃ entry : Entry, entry.In schemas ∧ entry.Listed ∧
        entry.targetNamespace ++ "#" ++ entry.name = name) ∧
    (∃ texts, List.Forall₂ (fun node text => (Node.declare none node).outcome = .ok text)
        schemas.declaredNodes texts ∧
      schemas.declare.outcome =
        .ok (joinWith "\n\n" (texts.filter fun text => !text.isEmpty))) ∧
    ∀ entry : Entry, entry.In schemas →
      (entry.Listed ↔ entry.group = simpleGroup ∧ entry.node.kind = .simpleType ∧
        entry.node.Enumerates) ∧
      (entry.node.kind ∉ [.restriction, .complexContent, .extension] →
        (entry.Emits ↔ entry.group ∈ groups ∧ entry.node.kind = .simpleType ∧
          LeavesText none entry.node ∧ entry.Named) ∧
        ((entry.Listed ↔ entry.Emits) ↔
          (entry.group ∈ groups → entry.node.kind = .simpleType → LeavesText none entry.node →
            (entry.group = simpleGroup ∧ entry.node.Enumerates ↔ entry.Named)))) := by
  refine ⟨?_, ?_, fun entry hi => ⟨listed_iff h hi, fun hk => ⟨emits_iff h hi hk, ?_⟩⟩⟩
  · obtain ⟨names, hn⟩ := exists_enumNames h
    exact ⟨names, hn, fun name => mem_enumNames_iff hn⟩
  · obtain ⟨texts, ht⟩ := exists_declareAll none schemas.declaredNodes h
    refine ⟨texts, forall₂_of_declareAll ht, ?_⟩
    rw [Schemas.declare, Traced.outcome_bind, ht]
    rfl
  · rw [listed_iff h hi, emits_iff h hi hk]
    constructor
    · intro ha hg hs hl
      simpa [hg, hs, hl] using ha
    · intro ha
      constructor
      · rintro ⟨hg, hs, he⟩
        have hgroup : entry.group ∈ groups := hg ▸ List.mem_cons_self
        have hl : LeavesText none entry.node := he.leavesText hs none
        exact ⟨hgroup, hs, hl, (ha hgroup hs hl).1 ⟨hg, he⟩⟩
      · rintro ⟨hg, hs, hl, hn⟩
        obtain ⟨hgroup, he⟩ := (ha hg hs hl).2 hn
        exact ⟨hgroup, hs, he⟩

/-- A restriction of a base type. -/
def restriction (base : String) (children : List Node) : Node :=
  ⟨.restriction, "restriction", [(.text "base", .text base)], children⟩

/-- A simple type with some attributes. -/
def simpleType (attributes : List (String × String)) (children : List Node) : Node :=
  ⟨.simpleType, "simpleType", attributes.map fun entry => (.text entry.1, .text entry.2), children⟩

/-- A restriction of strings to one value. -/
def redOnly : Node :=
  restriction "xs:string" [⟨.enumeration, "enumeration", [(.text "value", .text "red")], []⟩]

/-- A simple type with a name and one value. -/
def color : Node := simpleType [("name", "Color")] [redOnly]

/-- A document with one node under the name `Color`. -/
def ofColor (group : String) (node : Node) : Schemas := [("urn:shop", [(group, [("Color", node)])])]

/-- A simple type as it should be is listed and declared. -/
theorem listed_iff_emits_color :
    (∃ names, (ofColor "types" color).enumNames = .ok names ∧ "urn:shop#Color" ∈ names) ∧
      Entry.Emits ⟨"urn:shop", "types", "Color", color⟩ := by
  have hw : (ofColor "types" color).WellNamed := wellNamed_of_isText (by decide +kernel)
  obtain ⟨⟨names, hn, hmem⟩, -, hentry⟩ := listed_iff_emits hw
  have hi : Entry.In ⟨"urn:shop", "types", "Color", color⟩ (ofColor "types" color) :=
    ⟨_, List.mem_cons_self, List.mem_cons_self⟩
  have henum : color.Enumerates :=
    ⟨redOnly, List.mem_cons_self, rfl, by decide, _, List.mem_cons_self, rfl⟩
  obtain ⟨hlisted, hagree⟩ := hentry _ hi
  obtain ⟨-, hagree⟩ := hagree (by decide)
  have hl := hlisted.2 ⟨rfl, rfl, henum⟩
  refine ⟨⟨names, hn, (hmem _).2 ⟨_, hi, hl, by decide⟩⟩, ?_⟩
  exact (hagree.2 fun _ _ _ => iff_of_true ⟨rfl, henum⟩ (.inl rfl)).1 hl

/-- **Enums that are not listed, and a listed one that is not declared.** A restriction inside a
restriction and a simple type in the other group are declared as enums and not listed; a simple type
without a name is listed under the name at which it stands, and declared without one. -/
theorem not_listed_iff_emits :
    (ofColor "types" (simpleType [("name", "Color")] [restriction "tns:Text" [redOnly]])).enumNames =
        .ok [] ∧
      (ofColor "types" (simpleType [("name", "Color")]
          [restriction "tns:Text" [redOnly]])).declare.outcome =
        .ok "export enum Color \x7b\n    red = \"red\",\n\x7d" ∧
      (ofColor "complexTypes" color).enumNames = .ok [] ∧
      (ofColor "complexTypes" color).declare.outcome =
        .ok "export enum Color \x7b\n    red = \"red\",\n\x7d" ∧
      (ofColor "types" (simpleType [] [redOnly])).enumNames = .ok ["urn:shop#Color"] ∧
      (ofColor "types" (simpleType [] [redOnly])).declare.outcome =
        .ok "export enum  \x7b\n    red = \"red\",\n\x7d" := by
  decide +kernel

end Schemas

end SoapTypes
