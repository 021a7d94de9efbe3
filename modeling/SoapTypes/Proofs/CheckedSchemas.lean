import SoapTypes.Proofs.CatalogBuild

/-!
# Schemas that were checked

The check of a schema document looks at how its objects and arrays are nested, and not at the values
in them. So a document that was checked can still have values that nothing can be made of: a tag
that is no text cannot be read, and a name or a type that is no text cannot be declared.

* `Schemas.succeedsIff_ofMembers`: a checked document is read exactly if the tags of its nodes are
  texts.
* `Schemas.exists_declare` and `Schemas.exists_enumNames`: what was read is declared if its nodes
  are well named.
-/

namespace SoapTypes

/-- A sequence succeeds if its first part does and the second one does whatever the result is. -/
theorem Traced.exists_bind {α β : Type} {x : Traced Fault α} {f : α → Traced Fault β}
    (hx : ∃ a, x.outcome = .ok a) (hf : ∀ a, ∃ b, (f a).outcome = .ok b) :
    ∃ b, (x >>= f).outcome = .ok b := by
  obtain ⟨a, ha⟩ := hx
  obtain ⟨b, hb⟩ := hf a
  refine ⟨b, ?_⟩
  rw [Traced.outcome_bind, ha]
  exact hb

/-- A computation succeeds exactly under a condition, and otherwise meets a value of the wrong
kind. -/
def SucceedsIff {α : Type} (outcome : Except Fault α) (condition : Prop) : Prop :=
  (condition ∧ ∃ value, outcome = .ok value) ∨ (¬ condition ∧ outcome = .error .wrongKind)

namespace SucceedsIff

variable {α β : Type} {x : Except Fault α} {p q : Prop}

theorem ok (value : α) : SucceedsIff (.ok value : Except Fault α) True :=
  .inl ⟨trivial, value, rfl⟩

theorem congr (h : SucceedsIff x p) (hpq : p ↔ q) : SucceedsIff x q := by
  rwa [SucceedsIff, ← hpq]

theorem bind {f : α → Except Fault β} (hx : SucceedsIff x p) (hf : ∀ a, SucceedsIff (f a) q) :
    SucceedsIff (x >>= f) (p ∧ q) := by
  rcases hx with ⟨hp, value, rfl⟩ | ⟨hp, rfl⟩
  · exact (hf value).congr (and_iff_right hp).symm
  · exact .inr ⟨fun h => hp h.1, rfl⟩

theorem map (h : SucceedsIff x p) (f : α → β) : SucceedsIff (x.map f) p := by
  rcases h with ⟨hp, value, rfl⟩ | ⟨hp, rfl⟩
  · exact .inl ⟨hp, f value, rfl⟩
  · exact .inr ⟨hp, rfl⟩

theorem mapM {f : β → Except Fault α} {p : β → Prop} {items : List β}
    (h : ∀ item ∈ items, SucceedsIff (f item) (p item)) :
    SucceedsIff (items.mapM f) (∀ item ∈ items, p item) := by
  induction items with
  | nil => exact (ok _).congr (by simp)
  | cons item items ih =>
    obtain ⟨hfirst, h⟩ := List.forall_mem_cons.1 h
    rw [List.mapM_cons]
    refine (hfirst.bind fun _ => (ih h).bind fun _ => ok _).congr ?_
    rw [and_true, List.forall_mem_cons]

theorem exists_iff (h : SucceedsIff x p) : (∃ value, x = .ok value) ↔ p := by
  rcases h with ⟨hp, value, rfl⟩ | ⟨hp, rfl⟩
  · exact iff_of_true ⟨value, rfl⟩ hp
  · exact iff_of_false (by rintro ⟨value, h⟩; cases h) hp

end SucceedsIff

namespace Schema

/-- Whether a value is a text. -/
def isText : Json → Bool
  | .text _ => true
  | _ => false

theorem exists_of_isText {value : Json} (h : isText value = true) : ∃ text, value = .text text := by
  cases value <;> first | exact ⟨_, rfl⟩ | cases h

namespace Node

/-! ### Reading a node -/

mutual

/-- The members of the node that a value writes, and of all nodes below it. -/
def writtenNodes : Json → List (List (String × Json))
  | .object members => members :: writtenChildren members
  | _ => []

/-- The members of all nodes below a node with some members. -/
def writtenChildren : List (String × Json) → List (List (String × Json))
  | [] => []
  | (key, value) :: members => if key = "children" then writtenIn value else writtenChildren members

/-- The members of all nodes in a container. -/
def writtenIn : Json → List (List (String × Json))
  | .array items => writtenItems items
  | _ => []

/-- The members of all nodes that are written one after the other. -/
def writtenItems : List Json → List (List (String × Json))
  | [] => []
  | item :: items => writtenNodes item ++ writtenItems items

end

/-- The tag that a node is written with is a text, if there is one. -/
def TextTag (members : List (String × Json)) : Prop :=
  ∀ value ∈ (present? members "kind").or (present? members "name"), isText value = true

theorem succeedsIff_tagOf (members : List (String × Json)) :
    SucceedsIff (tagOf members) (TextTag members) := by
  unfold tagOf TextTag
  cases (present? members "kind").or (present? members "name") with
  | none => exact .inl ⟨by simp, _, rfl⟩
  | some value =>
    cases value with
    | text tag => exact .inl ⟨by simp [isText], _, rfl⟩
    | _ => exact .inr ⟨by simp [isText], rfl⟩

/-- Attributes that were checked can be read. -/
theorem succeedsIff_attributesOf {path : String} {members : List (String × Json)}
    (h : Schemas.checkAttributes path members = .ok ()) :
    SucceedsIff (attributesOf ((Entries.value? members "attributes").getD .null)) True := by
  unfold Schemas.checkAttributes at h
  cases hv : Entries.value? members "attributes" with
  | none => exact .ok _
  | some value =>
    rw [hv] at h
    cases value with
    | null => exact .ok _
    | object entries =>
      rw [Option.getD_some, attributesOf]
      split <;> exact .ok _
    | _ => cases h

mutual

/-- A node that was checked is read exactly if all tags in it are texts. -/
theorem succeedsIff_ofJson {path : String} : (value : Json) →
    Schemas.checkNode path value = .ok () →
    SucceedsIff (ofJson value) (∀ written ∈ writtenNodes value, TextTag written)
  | .object members, h => by
    rw [Schemas.checkNode] at h
    split at h
    · cases h
    · rename_i ha
      rw [ofJson]
      refine ((succeedsIff_attributesOf ha).bind fun _ => (succeedsIff_childrenOf members h).bind
        fun _ => (succeedsIff_tagOf members).bind fun _ => .ok _).congr ?_
      rw [writtenNodes, List.forall_mem_cons, true_and, and_true, and_comm]
  | .null, h | .bool _, h | .integer _, h | .real _, h | .text _, h | .array _, h => by cases h

theorem succeedsIff_childrenOf {path : String} : (members : List (String × Json)) →
    Schemas.checkChildren path members = .ok () →
    SucceedsIff (childrenOf members) (∀ written ∈ writtenChildren members, TextTag written)
  | [], _ => (SucceedsIff.ok _).congr (by simp [writtenChildren])
  | (key, value) :: members, h => by
    rw [Schemas.checkChildren] at h
    rw [childrenOf, writtenChildren]
    split
    · rename_i hk
      rw [if_pos hk] at h
      exact succeedsIff_nodesOf value h
    · rename_i hk
      rw [if_neg hk] at h
      exact succeedsIff_childrenOf members h

theorem succeedsIff_nodesOf {path : String} : (value : Json) →
    Schemas.checkContainer path value = .ok () →
    SucceedsIff (nodesOf value) (∀ written ∈ writtenIn value, TextTag written)
  | .array items, h => by
    rw [Schemas.checkContainer] at h
    rw [nodesOf, writtenIn]
    exact succeedsIff_ofItems items h
  | .null, _ => (SucceedsIff.ok _).congr (by simp [writtenIn])
  | .bool _, h | .integer _, h | .real _, h | .text _, h | .object _, h => by cases h

theorem succeedsIff_ofItems {path : String} {index : Nat} : (items : List Json) →
    Schemas.checkItems path index items = .ok () →
    SucceedsIff (ofItems items) (∀ written ∈ writtenItems items, TextTag written)
  | [], _ => (SucceedsIff.ok _).congr (by simp [writtenItems])
  | item :: items, h => by
    rw [Schemas.checkItems] at h
    split at h
    · cases h
    · rename_i hitem
      have hitems : ofItems (item :: items) =
          ofJson item >>= fun node => (ofItems items).map (node :: ·) := by
        rw [ofItems]
        cases ofJson item <;> rfl
      rw [hitems]
      refine ((succeedsIff_ofJson item hitem).bind fun _ =>
        (succeedsIff_ofItems items h).map _).congr ?_
      rw [writtenItems, List.forall_mem_append]

end

end Node

end Schema

namespace Schemas

open Schema Node

/-! ### Reading a document -/

variable {document : List (String × Json)}

theorem checkEach_eq_ok {path : String → String} {check : String → Json → Except Misplaced Unit}
    {members : List (String × Json)} (h : checkEach path check members = .ok ()) :
    ∀ member ∈ members, check (path member.1) member.2 = .ok () := by
  induction members with
  | nil => simp
  | cons member members ih =>
    obtain ⟨key, value⟩ := member
    rw [checkEach] at h
    obtain ⟨_, hfirst, h⟩ := exists_of_bind_eq_ok h
    exact List.forall_mem_cons.2 ⟨hfirst, ih h⟩

/-- The members of an object, and none for any other value. -/
def membersOf (value : Json) : List (String × Json) := value.members?.getD []

/-- A value that has members or is blank is read member by member. -/
theorem readEach_eq_mapM {α : Type} {path : String} {value : Json} {members : List (String × Json)}
    (h : expectMembers path value = .ok members) (read : Json → Except Fault α) :
    members = membersOf value ∧
      readEach read value = members.mapM fun (key, member) => do return (key, ← read member) := by
  unfold expectMembers at h
  cases value with
  | object entries => cases entries <;> cases h <;> exact ⟨rfl, rfl⟩
  | _ =>
    split at h
    · rename_i hb
      cases h
      exact ⟨rfl, if_pos hb⟩
    · cases h

/-- What is read of each member of a value that was checked. -/
theorem succeedsIff_readEach {α : Type} (read : Json → Except Fault α) (p : Json → Prop)
    {path : String} {value : Json} {members : List (String × Json)}
    (h : expectMembers path value = .ok members)
    (hread : ∀ member ∈ members, SucceedsIff (read member.2) (p member.2)) :
    SucceedsIff (readEach read value) (∀ member ∈ membersOf value, p member.2) := by
  obtain ⟨rfl, heq⟩ := readEach_eq_mapM h read
  rw [heq]
  exact .mapM fun member hm =>
    ((hread member hm).bind fun _ => SucceedsIff.ok _).congr (and_iff_left trivial)

/-- The members of all nodes that a group writes. -/
def nodesInGroup (group : Json) : List (List (String × Json)) :=
  (membersOf group).flatMap fun node => writtenNodes node.2

/-- The members of all nodes that a namespace writes. -/
def nodesInNamespace (groups : Json) : List (List (String × Json)) :=
  (membersOf groups).flatMap fun group => nodesInGroup group.2

/-- The members of all nodes that a document writes. -/
def nodesInDocument (document : List (String × Json)) : List (List (String × Json)) :=
  document.flatMap fun groups => nodesInNamespace groups.2

theorem succeedsIff_group {path : String} {group : Json} (h : checkGroup path group = .ok ()) :
    SucceedsIff (readEach Node.ofJson group) (∀ written ∈ nodesInGroup group, TextTag written) := by
  obtain ⟨members, hm, hc⟩ := exists_of_bind_eq_ok h
  refine (succeedsIff_readEach _ (fun node => ∀ written ∈ writtenNodes node, TextTag written) hm
    fun node hn => succeedsIff_ofJson node.2 (checkEach_eq_ok hc node hn)).congr ?_
  exact List.forall_mem_flatMap.symm

theorem succeedsIff_namespace {path : String} {groups : Json}
    (h : checkNamespace path groups = .ok ()) :
    SucceedsIff (readEach (readEach Node.ofJson) groups)
      (∀ written ∈ nodesInNamespace groups, TextTag written) := by
  obtain ⟨members, hm, hc⟩ := exists_of_bind_eq_ok h
  refine (succeedsIff_readEach _ (fun group => ∀ written ∈ nodesInGroup group, TextTag written) hm
    fun group hg => succeedsIff_group (checkEach_eq_ok hc group hg)).congr ?_
  exact List.forall_mem_flatMap.symm

/-- **A document that was checked is read exactly if the tags of all its nodes are texts.** -/
theorem succeedsIff_ofMembers (h : check document = .ok ()) :
    SucceedsIff (ofMembers document) (∀ written ∈ nodesInDocument document, TextTag written) := by
  refine (SucceedsIff.mapM fun groups hg =>
    ((succeedsIff_namespace (checkEach_eq_ok h groups hg)).bind fun _ => SucceedsIff.ok _).congr
      (and_iff_left trivial)).congr ?_
  exact List.forall_mem_flatMap.symm

end Schemas

namespace Schema

/-! ### Declaring nodes -/

/-- A text, or a value that counts as absent. -/
def Textual (value : Json) : Prop := value.isBlank = true ∨ isText value = true

instance (value : Json) : Decidable (Textual value) := inferInstanceAs (Decidable (_ ∨ _))

/-- What takes blank values and texts takes textual values. -/
theorem Textual.exists_ok {α : Type} {value : Json} (h : Textual value) {f : Json → Except Fault α}
    (hblank : value.isBlank = true → ∃ a, f value = .ok a)
    (htext : ∀ text, ¬ (Json.text text).isBlank = true → ∃ a, f (.text text) = .ok a) :
    ∃ a, f value = .ok a := by
  by_cases hb : value.isBlank = true
  · exact hblank hb
  · obtain ⟨text, rfl⟩ := exists_of_isText (h.resolve_left hb)
    exact htext text hb

theorem exists_declaredNameOf {value : Json} (h : Textual value) :
    ∃ name, declaredNameOf value = .ok name :=
  h.exists_ok (fun hb => ⟨_, if_pos hb⟩) fun _ hb => ⟨_, if_neg hb⟩

theorem exists_typeNameOf {value : Json} (h : Textual value) :
    ∃ type, typeNameOf value = .ok type :=
  h.exists_ok (fun hb => ⟨_, if_pos hb⟩) fun _ hb => ⟨_, if_neg hb⟩

theorem exists_isWritableOf {value : Json} (h : Textual value) :
    ∃ writable, isWritableOf value = .ok writable :=
  h.exists_ok (fun hb => ⟨_, if_pos hb⟩) fun _ hb => ⟨_, if_neg hb⟩

/-- The attributes of a node of some kind that a declaration has to have as texts. -/
def NodeKind.namingAttributes : NodeKind → List String
  | .simpleType | .complexType => ["name"]
  | .element => ["type", "name"]
  | .restriction | .extension => ["base"]
  | _ => []

namespace Node

/-- The names and types that a node gives are texts or blank. -/
def WellNamed (node : Node) : Prop :=
  ∀ name ∈ node.kind.namingAttributes, Textual (node.attr name)

instance (node : Node) : Decidable node.WellNamed := inferInstanceAs (Decidable (∀ _ ∈ _, _))

mutual

/-- A node and all nodes below it. -/
def family : Node → List Node
  | ⟨kind, tag, attributes, children⟩ => ⟨kind, tag, attributes, children⟩ :: families children

/-- Some nodes and all nodes below them. -/
def families : List Node → List Node
  | [] => []
  | node :: nodes => family node ++ families nodes

end

theorem mem_family (node : Node) : node ∈ family node := by
  cases node
  exact List.mem_cons_self

theorem exists_elementText {node : Node} (ht : Textual (node.attr "type"))
    (hn : Textual (node.attr "name")) : ∃ text, node.elementText.outcome = .ok text := by
  obtain ⟨writable, hw⟩ := exists_isWritableOf ht
  obtain ⟨type, htype⟩ := exists_typeNameOf ht
  obtain ⟨name, hname⟩ := exists_declaredNameOf hn
  unfold elementText elementLine
  rw [hw, htype, hname]
  cases writable <;> exact ⟨_, rfl⟩

mutual

/-- A node is declared if all nodes in it are well named. -/
theorem exists_declare (base : Option String) : (node : Node) →
    (∀ other ∈ family node, other.WellNamed) → ∃ text, (declare base node).outcome = .ok text
  | ⟨kind, tag, attributes, children⟩, h => by
    rw [family, List.forall_mem_cons] at h
    obtain ⟨hnode, h⟩ := h
    have hchildren := fun base => exists_declareAll base children h
    cases kind with
    | simpleType =>
      have hname := exists_declaredNameOf (hnode "name" (List.mem_singleton_self _))
      rw [declare]
      refine Traced.exists_bind (hchildren base) fun texts => ?_
      dsimp only
      split
      · exact ⟨_, rfl⟩
      · exact Traced.exists_bind hname fun name => ⟨_, rfl⟩
    | complexType =>
      have hname := exists_declaredNameOf (hnode "name" (List.mem_singleton_self _))
      rw [declare]
      exact Traced.exists_bind (hchildren base) fun texts =>
        Traced.exists_bind hname fun name => ⟨_, rfl⟩
    | sequence =>
      rw [declare]
      exact Traced.exists_bind (hchildren base) fun texts => ⟨_, rfl⟩
    | element =>
      rw [declare]
      exact exists_elementText (hnode "type" List.mem_cons_self)
        (hnode "name" (List.mem_cons_of_mem _ List.mem_cons_self))
    | restriction =>
      have htype := exists_typeNameOf (hnode "base" (List.mem_singleton_self _))
      rw [declare]
      exact Traced.exists_bind htype fun type =>
        Traced.exists_bind (hchildren (some type)) fun texts => ⟨_, rfl⟩
    | complexContent =>
      rw [declare]
      exact Traced.exists_bind (hchildren base) fun texts => ⟨_, rfl⟩
    | extension =>
      have htype := exists_typeNameOf (hnode "base" (List.mem_singleton_self _))
      rw [declare]
      exact Traced.exists_bind htype fun type =>
        Traced.exists_bind (hchildren base) fun texts => ⟨_, rfl⟩
    | enumeration | pattern | unknown => exact ⟨_, rfl⟩

theorem exists_declareAll (base : Option String) : (nodes : List Node) →
    (∀ node ∈ families nodes, node.WellNamed) →
    ∃ texts, (declareAll base nodes).outcome = .ok texts
  | [], _ => ⟨_, rfl⟩
  | node :: nodes, h => by
    rw [families, List.forall_mem_append] at h
    rw [declareAll]
    exact Traced.exists_bind (exists_declare base node h.1) fun text =>
      Traced.exists_bind (exists_declareAll base nodes h.2) fun texts => ⟨_, rfl⟩

end

/-- Looking for an enumeration of strings among well named nodes succeeds. -/
theorem exists_anyStringEnumeration {nodes : List Node} (h : ∀ node ∈ nodes, node.WellNamed) :
    ∃ found, anyStringEnumeration nodes = .ok found := by
  induction nodes with
  | nil => exact ⟨false, rfl⟩
  | cons node nodes ih =>
    obtain ⟨hnode, h⟩ := List.forall_mem_cons.1 h
    obtain ⟨found, hf⟩ := ih h
    rw [anyStringEnumeration]
    split
    · rename_i hk
      have hbase : Textual (node.attr "base") :=
        hnode "base" (by rw [hk]; exact List.mem_singleton_self _)
      obtain ⟨type, ht⟩ := exists_typeNameOf hbase
      rw [ht, hf]
      cases hs : type = "string" && anyOfKind .enumeration node.children with
      | true => exact ⟨true, by simp [bind, Except.bind, hs]; rfl⟩
      | false => exact ⟨found, by simp [bind, Except.bind, hs]⟩
    · exact ⟨found, hf⟩

theorem mem_families_of_mem {nodes : List Node} {node : Node} (h : node ∈ nodes) :
    ∀ other ∈ family node, other ∈ families nodes := by
  induction nodes with
  | nil => cases h
  | cons first nodes ih =>
    intro other ho
    rw [families, List.mem_append]
    rcases List.mem_cons.1 h with rfl | h
    · exact .inl ho
    · exact .inr (ih h other ho)

end Node

end Schema

namespace Schemas

open Schema Node

/-! ### Declaring a document -/

variable {schemas : Schemas}

/-- The nodes that are declared, and those below them, have texts as their names and types. -/
def WellNamed (schemas : Schemas) : Prop := ∀ node ∈ families schemas.declaredNodes, node.WellNamed

instance (schemas : Schemas) : Decidable schemas.WellNamed :=
  inferInstanceAs (Decidable (∀ _ ∈ _, _))

theorem exists_declare (h : schemas.WellNamed) : ∃ text, schemas.declare.outcome = .ok text :=
  Traced.exists_bind (exists_declareAll none schemas.declaredNodes h) fun _ => ⟨_, rfl⟩

theorem exists_enumNamesAmong {types : List (String × String × Node)}
    (h : ∀ entry ∈ types, ∀ other ∈ family entry.2.2, other.WellNamed) :
    ∃ names, enumNamesAmong types = .ok names := by
  induction types with
  | nil => exact ⟨[], rfl⟩
  | cons entry types ih =>
    obtain ⟨targetNamespace, key, node⟩ := entry
    obtain ⟨hnode, h⟩ := List.forall_mem_cons.1 h
    obtain ⟨names, hn⟩ := ih h
    have hchildren : ∀ child ∈ node.children, child.WellNamed := by
      intro child hc
      refine hnode child ?_
      cases node
      exact List.mem_cons_of_mem _ (mem_families_of_mem hc child (mem_family child))
    obtain ⟨found, hf⟩ := exists_anyStringEnumeration hchildren
    have henum : node.hasStringEnumeration = .ok found := hf
    rw [enumNamesAmong, henum, hn]
    split <;> exact ⟨_, rfl⟩

/-- The simple types of a document are declared. -/
theorem mem_declaredNodes_of_mem_simpleTypes {entry : String × String × Node}
    (h : entry ∈ schemas.simpleTypes) : entry.2.2 ∈ schemas.declaredNodes := by
  obtain ⟨groups, hg, h⟩ := List.mem_flatMap.1 h
  obtain ⟨node, hn, rfl⟩ := List.mem_map.1 h
  exact List.mem_flatMap.2 ⟨groups, hg,
    List.mem_flatMap.2 ⟨simpleGroup, List.mem_cons_self, List.mem_map_of_mem hn⟩⟩

theorem exists_enumNames (h : schemas.WellNamed) : ∃ names, schemas.enumNames = .ok names :=
  exists_enumNamesAmong fun _ he other ho =>
    h other (mem_families_of_mem (mem_declaredNodes_of_mem_simpleTypes he) other ho)

end Schemas

end SoapTypes
